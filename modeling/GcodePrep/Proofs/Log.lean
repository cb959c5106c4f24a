import GcodePrep.Diagnostic

set_option autoImplicit false

/-!
# Logs only grow

Diagnostics are added at the end of a log, one at a time, and its two counts follow.
-/

namespace GcodePrep.Log

def addAll (log : Log) (ds : List Diagnostic) : Log := ds.foldl Log.add log

theorem addAll_addAll (log : Log) (ds es : List Diagnostic) :
    (log.addAll ds).addAll es = log.addAll (ds ++ es) :=
  List.foldl_append.symm

theorem diagnostics_addAll (log : Log) (ds : List Diagnostic) :
    (log.addAll ds).diagnostics = log.diagnostics ++ ds := by
  induction ds generalizing log with
  | nil => simp [addAll]
  | cons d ds ih =>
    change ((log.add d).addAll ds).diagnostics = _
    rw [ih]
    simp [add]

theorem errors_addAll (log : Log) (ds : List Diagnostic) :
    (log.addAll ds).errors = log.errors + ds.countP Diagnostic.isError := by
  induction ds generalizing log with
  | nil => rfl
  | cons d ds ih =>
    change ((log.add d).addAll ds).errors = _
    rw [ih, List.countP_cons]
    cases h : d.severity with
    | error =>
      simp [add, h, Diagnostic.isError]
      omega
    | warning => simp [add, h, Diagnostic.isError]

theorem warnings_addAll (log : Log) (ds : List Diagnostic) :
    (log.addAll ds).warnings = log.warnings + ds.countP Diagnostic.isWarning := by
  induction ds generalizing log with
  | nil => rfl
  | cons d ds ih =>
    change ((log.add d).addAll ds).warnings = _
    rw [ih, List.countP_cons]
    cases h : d.severity with
    | error => simp [add, h, Diagnostic.isWarning]
    | warning =>
      simp [add, h, Diagnostic.isWarning]
      omega

structure Counted (log : Log) : Prop where
  errors : log.errors = log.diagnostics.countP Diagnostic.isError
  warnings : log.warnings = log.diagnostics.countP Diagnostic.isWarning

theorem counted_empty : Counted empty := ⟨rfl, rfl⟩

theorem Counted.addAll {log : Log} (h : log.Counted) (ds : List Diagnostic) :
    (log.addAll ds).Counted := by
  constructor
  · rw [errors_addAll, diagnostics_addAll, List.countP_append, h.errors]
  · rw [warnings_addAll, diagnostics_addAll, List.countP_append, h.warnings]

theorem Counted.add {log : Log} (h : log.Counted) (d : Diagnostic) : (log.add d).Counted :=
  h.addAll [d]

theorem addAll_eq_self_iff (log : Log) (ds : List Diagnostic) : log.addAll ds = log ↔ ds = [] := by
  constructor
  · intro same
    have h := diagnostics_addAll log ds
    rw [same] at h
    simpa using h
  · rintro rfl
    rfl

end GcodePrep.Log
