import GcodePrep.Proofs.OutputGate
import GcodePrep.Session.Console
import Mathlib.Data.List.Infix

set_option autoImplicit false

/-!
# What comes out at the end of a channel

A run that is not refused for its warnings shows every recorded error, whatever is silenced. A refused
run shows its warnings, raised to errors, and nothing else: the errors that were recorded beside them
are not shown.
-/

namespace GcodePrep

def Shows (text line : String) : Prop := (line ++ "\n").toList <:+: text.toList

instance (text line : String) : Decidable (Shows text line) :=
  inferInstanceAs (Decidable (_ <:+: _))

theorem shows_linesText {lines : List String} {line : String} (h : line ∈ lines) :
    Shows (linesText lines) line := by
  obtain ⟨before, after, rfl⟩ := List.append_of_mem h
  refine ⟨(linesText before).toList, (linesText after).toList, ?_⟩
  simp [linesText, String.toList_join]

/-- The run is refused: warnings count as errors, and there are some. -/
def Config.Refuses (c : Config) (reports : List Report) : Prop :=
  c.warningsAsErrors = true ∧ ∃ r ∈ reports, ∃ d ∈ r.log.diagnostics, d.isWarning = true

theorem raisedWarnings_eq_nil_iff (reports : List Report) :
    raisedWarnings reports = [] ↔ ¬ ∃ r ∈ reports, ∃ d ∈ r.log.diagnostics, d.isWarning = true := by
  simp [raisedWarnings]

theorem isError_of_mem_raisedWarnings {reports : List Report} {d : Diagnostic}
    (h : d ∈ raisedWarnings reports) : d.isError = true := by
  simp only [raisedWarnings, List.mem_flatMap, List.mem_map] at h
  obtain ⟨_, _, _, _, rfl⟩ := h
  rfl

namespace Config

variable (c : Config)

theorem judge_of_refuses {reports : List Report} (refused : c.Refuses reports) :
    c.judge reports = .error ⟨raisedWarnings reports⟩ := by
  have raised := mt (raisedWarnings_eq_nil_iff reports).mp (not_not_intro refused.2)
  simp [judge, refused.1, raised]

theorem judge_of_not_refuses {reports : List Report} (free : ¬ c.Refuses reports) :
    c.judge reports = .ok reports := by
  unfold judge
  refine if_neg fun h => ?_
  simp only [Bool.and_eq_true, Bool.not_eq_true', List.isEmpty_eq_false_iff] at h
  exact h.2 ((raisedWarnings_eq_nil_iff reports).mpr fun some => free ⟨h.1, some⟩)

theorem visible_eq_self {diagnostics : List Diagnostic} (errors : ∀ d ∈ diagnostics, d.isError = true) :
    c.visible diagnostics = diagnostics := by
  refine List.filter_eq_self.mpr fun d mem => ?_
  have error : d.severity = .error := by simpa [Diagnostic.isError] using errors d mem
  simp [Diagnostic.isWarning, error]

theorem mem_visible_of_error {diagnostics : List Diagnostic} {d : Diagnostic} (mem : d ∈ diagnostics)
    (error : d.isError = true) : d ∈ c.visible diagnostics := by
  have severity : d.severity = .error := by simpa [Diagnostic.isError] using error
  exact List.mem_filter.mpr ⟨mem, by simp [Diagnostic.isWarning, severity]⟩

def closingLines (reports : List Report) : List String :=
  match c.format with
  | .json => []
  | .text => [RefusedWarnings.message ⟨raisedWarnings reports⟩]

end Config

namespace Transcript

variable (c : Config)

theorem diagnosed_foldl (reports : List Report) (t : Transcript) :
    (reports.foldl (fun t r => t.append (ofReport c r)) t).diagnosed =
      t.diagnosed ++ reports.flatMap fun r => (ofReport c r).diagnosed := by
  induction reports generalizing t with
  | nil => simp
  | cons r rest ih =>
    rw [List.foldl_cons, ih, List.flatMap_cons, ← List.append_assoc]
    rfl

theorem mem_diagnosed_of_error {r : Report} (counted : r.log.Counted) {d : Diagnostic}
    (mem : d ∈ r.log.diagnostics) (error : d.isError = true) :
    c.diagnosticLine d ∈ (ofReport c r).diagnosed := by
  have failed : r.succeeded = false := by
    have some : 0 < r.log.errors := by
      rw [counted.errors, List.countP_pos_iff]
      exact ⟨d, mem, error⟩
    simp only [Report.succeeded, decide_eq_false_iff_not]
    omega
  simp only [ofReport, failed, Bool.and_false, Bool.false_eq_true, if_false]
  exact List.mem_map_of_mem (c.mem_visible_of_error mem error)

theorem mem_ofRun_of_error {reports : List Report} (free : ¬ c.Refuses reports) {r : Report}
    (reported : r ∈ reports) (counted : r.log.Counted) {d : Diagnostic} (mem : d ∈ r.log.diagnostics)
    (error : d.isError = true) : c.diagnosticLine d ∈ (ofRun c (c.judge reports)).diagnosed := by
  rw [c.judge_of_not_refuses free, ofRun, diagnosed_foldl]
  exact List.mem_append_right _
    (List.mem_flatMap.mpr ⟨r, reported, mem_diagnosed_of_error c counted mem error⟩)

theorem ofRun_of_refuses {reports : List Report} (refused : c.Refuses reports) :
    (ofRun c (c.judge reports)).diagnosed =
      (raisedWarnings reports).map c.diagnosticLine ++ c.closingLines reports := by
  rw [c.judge_of_refuses refused, ofRun, ofRefused]
  simp only [c.visible_eq_self fun d => isError_of_mem_raisedWarnings]
  rfl

end Transcript

namespace FileTree

theorem lookup_setEntry (entry : FileEntry) (location : Location)
    (entries : List (Location × FileEntry)) :
    (setEntry entry location entries).lookup location = some entry := by
  induction entries with
  | nil => simp [setEntry]
  | cons head rest ih =>
    obtain ⟨other, old⟩ := head
    unfold setEntry
    split
    · simp
    · rename_i different
      have unequal : (location == other) = false := by simpa using Ne.symm different
      simpa [List.lookup_cons, unequal] using ih

theorem contentsAt_set (tree : FileTree) {location : Location} (below : location ≠ [])
    (contents : ByteArray) : (tree.set location (.file contents)).contentsAt location = contents := by
  have inside : location.isEmpty = false := by simpa using below
  simp [contentsAt, entry?, set, inside, lookup_setEntry]

theorem entryIn_ne_nil {tree : FileTree} {dir location : Location} {name : String} {entry : FileEntry}
    (h : tree.entryIn dir name = .ok (location, entry)) (proper : entry ≠ .directory) :
    location ≠ [] := by
  unfold entryIn at h
  split at h
  · cases h
    exact absurd rfl proper
  · split at h
    · cases h
      exact absurd rfl proper
    · split at h
      · cases h
      · split at h
        · cases h
          simp
        · cases h

theorem target_ne_nil {tree : FileTree} {path : String} {location : Location}
    (h : tree.target path = .ok location) : location ≠ [] := by
  unfold target at h
  cases located : tree.locate path with
  | error fault => simp [located, bind, Except.bind] at h
  | ok place =>
    obtain ⟨dir, name⟩ := place
    simp only [located, bind, Except.bind] at h
    split at h
    · cases h
    · split at h
      · cases h
      · split at h
        · cases h
        · cases h
        · rename_i found
          cases h
          exact entryIn_ne_nil found nofun
        · cases h
          simp
        · cases h

end FileTree

namespace Channel

/-- The text stands at the end of the channel. -/
def Delivered (channel : Channel) (text : String) (o : Outcome) : Prop :=
  match channel with
  | .discard => False
  | .stderr => o.stderr = text
  | .file location _ =>
    ∃ before after, o.files.contentsAt location = before ++ text.toUTF8 ++ after

/-- A file that the run has written in the meantime is written over from its start, or appended to. -/
theorem delivered_file {location : Location} (below : location ≠ []) (append : Bool) (text : String)
    (o : Outcome) : (file location append).Delivered text ((file location append).send text o) := by
  cases append with
  | true =>
    refine ⟨o.files.contentsAt location, .empty, ?_⟩
    simp only [send, if_true, FileTree.contentsAt_set _ below, ByteArray.append_empty]
  | false =>
    refine ⟨.empty, (o.files.contentsAt location).extract text.toUTF8.size
      (o.files.contentsAt location).size, ?_⟩
    simp only [send, Bool.false_eq_true, if_false, FileTree.contentsAt_set _ below, overwriteStart,
      ByteArray.empty_append]

theorem delivered_send {target : DiagnosticTarget} {tree opened : FileTree} {channel : Channel}
    (opens : ofTarget tree target = .ok (channel, opened)) (enabled : target ≠ .disabled)
    (text : String) {o : Outcome} (clean : o.stderr = "") :
    channel.Delivered text (channel.send text o) := by
  cases target with
  | disabled => exact absurd rfl enabled
  | stderr =>
    cases opens
    simp [Delivered, send, clean]
  | file path append =>
    unfold ofTarget at opens
    cases found : tree.target path with
    | error fault => simp [found, bind, Except.bind] at opens
    | ok location =>
      simp only [found, bind, Except.bind, pure, Except.pure, Except.ok.injEq, Prod.mk.injEq] at opens
      rw [← opens.1]
      exact delivered_file (FileTree.target_ne_nil found) append text o

end Channel

namespace Session

/-- A command line gets past its checks and opens a channel for its diagnostics. -/
structure Opens (args : List String) (vars : Variables) (tree : FileTree) (c : Config)
    (channel : Channel) (opened : FileTree) : Prop where
  valid : (Arguments.parse args).map (Config.validate · vars) = .ok (.ok c)
  channel : Channel.ofTarget tree c.target = .ok (channel, opened)
  enabled : c.target ≠ .disabled

variable {args : List String} {vars : Variables} {tree opened : FileTree} {c : Config} {channel : Channel}

theorem start_of_opens (h : Opens args vars tree c channel opened) :
    start args vars tree = .ok (c.perform channel opened) := by
  have valid := h.valid
  unfold start
  cases parsed : Arguments.parse args with
  | error refusal => simp [parsed, Except.map] at valid
  | ok a =>
    have validated : Config.validate a vars = .ok c := by simpa [parsed, Except.map] using valid
    simp only [Except.map, ofArguments, validated, h.channel]

/-- All errors of all reports are shown, unless the run is refused for its warnings. Then its raised
warnings are shown and no error that was recorded. -/
theorem errors_shown_unless_refused (h : Opens args vars tree c channel opened) :
    let reports := (c.runInputs c.inputs opened).1
    ∃ outcome text, start args vars tree = .ok outcome ∧ channel.Delivered text outcome ∧
      (¬ c.Refuses reports → ∀ r ∈ reports, ∀ d ∈ r.log.diagnostics, d.isError = true →
        Shows text (c.diagnosticLine d)) ∧
      (c.Refuses reports →
        text = linesText ((raisedWarnings reports).map c.diagnosticLine ++ c.closingLines reports)) := by
  intro reports
  refine ⟨_, linesText (Transcript.ofRun c (c.judge reports)).diagnosed, start_of_opens h,
    Channel.delivered_send h.channel h.enabled _ rfl, ?_, ?_⟩
  · intro free r reported d mem error
    have counted := c.runInputs_counted c.inputs opened r reported
    exact shows_linesText (Transcript.mem_ofRun_of_error c free reported counted mem error)
  · intro refused
    rw [Transcript.ofRun_of_refuses c refused]

def mixed : FileTree := ⟨[], [(["main.gp"], .file "@endheader\n@else\n".toUTF8)]⟩

def plain (warningsAsErrors : Bool) : Config :=
  { Config.plain true with style := .classic, warningsAsErrors }

theorem opens_mixed : Opens ["main.gp"] (fun _ => none) mixed (plain false) .stderr mixed :=
  ⟨by decide +kernel, rfl, nofun⟩

theorem opens_mixed_strictly :
    Opens ["--Werror", "main.gp"] (fun _ => none) mixed (plain true) .stderr mixed :=
  ⟨by decide +kernel, rfl, nofun⟩

theorem error_of_mixed_shown :
    ∃ outcome text, start ["main.gp"] (fun _ => none) mixed = .ok outcome ∧ outcome.stderr = text ∧
      Shows text "main.gp:2: ERROR [gp201] - @else without @if" := by
  have recorded : ∃ r ∈ ((plain false).runInputs (plain false).inputs mixed).1,
      ∃ d ∈ r.log.diagnostics, d.isError = true ∧
        (plain false).diagnosticLine d = "main.gp:2: ERROR [gp201] - @else without @if" := by
    decide +kernel
  obtain ⟨r, reported, d, mem, error, line⟩ := recorded
  obtain ⟨outcome, text, started, delivered, shown, -⟩ := errors_shown_unless_refused opens_mixed
  have free : ¬ (plain false).Refuses ((plain false).runInputs (plain false).inputs mixed).1 := nofun
  exact ⟨outcome, text, started, delivered, line ▸ shown free r reported d mem error⟩

/-- The option that counts warnings as errors takes the error of `mixed` out of what is shown. -/
theorem error_of_mixed_hidden_strictly :
    Opens ["--Werror", "main.gp"] (fun _ => none) mixed (plain true) .stderr mixed ∧
      ∃ outcome, start ["--Werror", "main.gp"] (fun _ => none) mixed = .ok outcome ∧
        ∃ r ∈ ((plain true).runInputs (plain true).inputs mixed).1, ∃ d ∈ r.log.diagnostics,
          d.isError = true ∧ ¬ Shows outcome.stderr ((plain true).diagnosticLine d) := by
  refine ⟨opens_mixed_strictly, _, start_of_opens opens_mixed_strictly, ?_⟩
  decide +kernel

end Session

end GcodePrep
