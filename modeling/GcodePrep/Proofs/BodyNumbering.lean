import GcodePrep.Proofs.JumpLinking
import GcodePrep.Proofs.Revisions

set_option autoImplicit false

/-!
# Numbers along a body

A body does not show which of its records were appended and which came with a jump table, nor what it was
when the switches that are open began. A draft follows a run and remembers both, together with the labels
that were bound on the way. In every draft the appended records are numbered from zero without a gap, no
number is less than one before it, and what lies below an open switch is as its `@switch` has found it.
-/

namespace GcodePrep

open Preprocessor

/-- A record, and whether it came with a jump table. -/
structure Entry where
  record : Record
  spliced : Bool
  deriving DecidableEq, Repr

/-- An open switch: where its table goes, the number of the table, and the body at its `@switch`. -/
structure Pending where
  insertAt : Nat
  outLine : Nat
  before : List Record
  deriving DecidableEq, Repr

/-- What is remembered of an open program. Inner switches and later labels come first; a label comes with
what it was bound to. -/
structure Draft where
  entries : List Entry
  outLine : Nat
  pending : List Pending
  labels : List (String × Option Value)

/-- The label of a text, if the name was free in `s`, with its value in `s'`. -/
def freshLabels (s s' : Preprocessor) (text : Option String) : List (String × Option Value) :=
  match text.bind blockLabel? with
  | none => []
  | some name => if s.env.contains name then [] else [(name, s'.env.get? name)]

namespace Draft

def blank : Draft := ⟨[], 0, [], []⟩

def body (d : Draft) : List Record := d.entries.map Entry.record

def append (d : Draft) (origin : Origin) (text comment : Option String)
    (labels : List (String × Option Value)) : Draft :=
  { d with
    entries := d.entries ++ [⟨⟨origin, d.outLine, text, comment⟩, false⟩]
    outLine := d.outLine + 1
    labels := labels ++ d.labels }

def openSwitch (d : Draft) : Draft :=
  { d with pending := ⟨d.entries.length, d.outLine, d.body⟩ :: d.pending }

/-- `Program.insertLines` at the place of the innermost switch; its records are marked. -/
def closeSwitch (d : Draft) (p : Pending) (outer : List Pending) (origin : Origin)
    (lines : List String) : Draft :=
  { d with
    entries := d.entries.take p.insertAt ++
      (lines.map fun line => ⟨⟨origin, p.outLine, some line, none⟩, true⟩) ++ d.entries.drop p.insertAt
    pending := outer }

inductive Revised (s s' : Preprocessor) (d : Draft) : Draft → Prop where
  /-- Nothing is written; switches may be given up. -/
  | keeps (pending : List Pending) (outer : pending <:+ d.pending) : Revised s s' d { d with pending }
  | opens : Revised s s' d d.openSwitch
  | appends (origin : Origin) (text comment : Option String) :
      Revised s s' d (d.append origin text comment (freshLabels s s' text))
  | closes (p : Pending) (outer : List Pending) (top : d.pending = p :: outer) (table : Origin)
      (lines : List String) (origin : Origin) (text comment : Option String) :
      Revised s s' d ((d.closeSwitch p outer table lines).append origin text comment
        (freshLabels s s' text))

structure Shows (d : Draft) (s : Preprocessor) : Prop where
  sheet : s.sheet? = some (d.body, d.outLine)
  marks : s.marks = d.pending.map fun p => (p.insertAt, p.outLine)

end Draft

/-- The drafts along a run, from the step that opens the program on. -/
inductive Drafts (inclusion : Inclusion) (tree : FileTree) : Traversal → Draft → Prop where
  | opens {t t' : Traversal} (next : t.Step inclusion tree t') (vacant : t.state.current = none)
      (shows : Draft.blank.Shows t'.state) : Drafts inclusion tree t' .blank
  | step {t t' : Traversal} {d d' : Draft} (h : Drafts inclusion tree t d)
      (next : t.Step inclusion tree t') (revised : d.Revised t.state t'.state d')
      (shows : d'.Shows t'.state) : Drafts inclusion tree t' d'
  | enter (source : Source) {s : Preprocessor} {d : Draft} (h : Drafts inclusion tree ⟨[], s⟩ d) :
      Drafts inclusion tree (.enterFile source [] s) d
  | unreadable (path : String) (fault : FileFault) {s : Preprocessor} {d : Draft}
      (h : Drafts inclusion tree ⟨[], s⟩ d) :
      Drafts inclusion tree ⟨[], s.reportUnreadable [] path fault⟩ d

/-- The switch divides the body at its place: records with numbers up to its own, which are those that it
has found, and records with numbers from its own on. -/
structure Pending.Fits (p : Pending) (body : List Record) : Prop where
  within : p.insertAt ≤ body.length
  below : body.take p.insertAt = p.before
  low : ∀ r ∈ body.take p.insertAt, r.outLine ≤ p.outLine
  high : ∀ r ∈ body.drop p.insertAt, p.outLine ≤ r.outLine

namespace Pending.Fits

variable {p : Pending} {body : List Record}

theorem append (h : p.Fits body) {r : Record} (later : p.outLine ≤ r.outLine) :
    p.Fits (body ++ [r]) := by
  have same : (body ++ [r]).take p.insertAt = body.take p.insertAt :=
    List.take_append_of_le_length h.within
  refine ⟨?_, same.trans h.below, same ▸ h.low, fun r' mem => ?_⟩
  · rw [List.length_append]
    exact Nat.le_add_right_of_le h.within
  · rw [List.drop_append_of_le_length h.within] at mem
    rcases List.mem_append.mp mem with mem | mem
    · exact h.high r' mem
    · exact List.mem_singleton.mp mem ▸ later

theorem splice (h : p.Fits body) {index : Nat} (inner : p.insertAt ≤ index) (inside : index ≤ body.length)
    {table : List Record} (later : ∀ r ∈ table, p.outLine ≤ r.outLine) :
    p.Fits (body.take index ++ table ++ body.drop index) := by
  have length : (body.take index).length = index := List.length_take_of_le inside
  have reaches : p.insertAt ≤ (body.take index).length := by rwa [length]
  have same : (body.take index ++ table ++ body.drop index).take p.insertAt = body.take p.insertAt := by
    rw [List.append_assoc, List.take_append_of_le_length reaches, List.take_take,
      Nat.min_eq_left inner]
  refine ⟨?_, same.trans h.below, same ▸ h.low, fun r mem => ?_⟩
  · rw [List.length_append, List.length_append, length]
    omega
  · rw [List.append_assoc, List.drop_append_of_le_length reaches, List.drop_take] at mem
    rcases List.mem_append.mp mem with mem | mem
    · exact h.high r (List.mem_of_mem_take mem)
    · rcases List.mem_append.mp mem with mem | mem
      · exact later r mem
      · rw [← Nat.add_sub_of_le inner, ← List.drop_drop] at mem
        exact h.high r (List.mem_of_mem_drop mem)

end Pending.Fits

namespace Draft

def appended (d : Draft) : List Record :=
  (d.entries.filter fun entry => !entry.spliced).map Entry.record

structure InOrder (d : Draft) : Prop where
  numbered : d.appended.map Record.outLine = List.range d.outLine
  rising : d.body.Pairwise fun r later => r.outLine ≤ later.outLine
  bounded : ∀ r ∈ d.body, r.outLine ≤ d.outLine
  pending : ∀ p ∈ d.pending, p.Fits d.body ∧ p.outLine ≤ d.outLine
  nested : d.pending.Pairwise fun inner outer =>
    outer.insertAt ≤ inner.insertAt ∧ outer.outLine ≤ inner.outLine

theorem body_append (d : Draft) (origin : Origin) (text comment : Option String)
    (labels : List (String × Option Value)) :
    (d.append origin text comment labels).body = d.body ++ [⟨origin, d.outLine, text, comment⟩] := by
  simp [body, append]

theorem body_closeSwitch (d : Draft) (p : Pending) (outer : List Pending) (origin : Origin)
    (lines : List String) :
    (d.closeSwitch p outer origin lines).body = d.body.take p.insertAt ++
      lines.map (fun line => ⟨origin, p.outLine, some line, none⟩) ++ d.body.drop p.insertAt := by
  simp [body, closeSwitch, List.map_take, List.map_drop]

theorem appended_closeSwitch (d : Draft) (p : Pending) (outer : List Pending) (origin : Origin)
    (lines : List String) : (d.closeSwitch p outer origin lines).appended = d.appended := by
  have table : (lines.map fun line => (⟨⟨origin, p.outLine, some line, none⟩, true⟩ : Entry)).filter
      (fun entry => !entry.spliced) = [] := by
    simp [List.filter_eq_nil_iff]
  simp only [appended, closeSwitch, List.filter_append, table, List.append_nil]
  rw [← List.filter_append, List.take_append_drop]

namespace InOrder

variable {d : Draft}

theorem blank : InOrder .blank := ⟨rfl, .nil, nofun, nofun, .nil⟩

theorem keeps (h : d.InOrder) {pending : List Pending} (outer : pending <:+ d.pending) :
    InOrder { d with pending } :=
  ⟨h.numbered, h.rising, h.bounded, fun p mem => h.pending p (outer.mem mem),
    h.nested.sublist outer.sublist⟩

theorem append (h : d.InOrder) (origin : Origin) (text comment : Option String)
    (labels : List (String × Option Value)) : (d.append origin text comment labels).InOrder where
  numbered := by
    have kept : (d.append origin text comment labels).appended =
        d.appended ++ [⟨origin, d.outLine, text, comment⟩] := by
      simp [appended, Draft.append]
    rw [kept, List.map_append, h.numbered]
    exact List.range_succ.symm
  rising := by
    rw [body_append, List.pairwise_append]
    refine ⟨h.rising, List.pairwise_singleton _ _, fun r mem last eq => ?_⟩
    rw [List.mem_singleton.mp eq]
    exact h.bounded r mem
  bounded r mem := by
    rw [body_append] at mem
    rcases List.mem_append.mp mem with mem | mem
    · exact Nat.le_succ_of_le (h.bounded r mem)
    · rw [List.mem_singleton.mp mem]
      exact Nat.le_succ _
  pending p mem := by
    obtain ⟨fits, low⟩ := h.pending p mem
    rw [body_append]
    exact ⟨fits.append low, Nat.le_succ_of_le low⟩
  nested := h.nested

theorem openSwitch (h : d.InOrder) : d.openSwitch.InOrder where
  numbered := h.numbered
  rising := h.rising
  bounded := h.bounded
  pending := by
    have length : d.body.length = d.entries.length := List.length_map _
    refine List.forall_mem_cons.mpr ⟨⟨⟨?_, ?_, ?_, ?_⟩, Nat.le_refl _⟩, h.pending⟩
    · exact Nat.le_of_eq length.symm
    · exact List.take_of_length_le (Nat.le_of_eq length)
    · exact fun r mem => h.bounded r (List.mem_of_mem_take mem)
    · intro r (mem : r ∈ d.body.drop d.entries.length)
      rw [List.drop_of_length_le (Nat.le_of_eq length)] at mem
      cases mem
  nested := by
    refine List.pairwise_cons.mpr ⟨fun outer mem => ?_, h.nested⟩
    obtain ⟨fits, low⟩ := h.pending outer mem
    exact ⟨by simpa [body] using fits.within, low⟩

theorem closeSwitch (h : d.InOrder) {p : Pending} {outer : List Pending} (top : d.pending = p :: outer)
    (origin : Origin) (lines : List String) : (d.closeSwitch p outer origin lines).InOrder := by
  have pending := h.pending
  have nested := h.nested
  rw [top] at pending nested
  obtain ⟨⟨fits, low⟩, others⟩ := List.forall_mem_cons.mp pending
  obtain ⟨around, nested⟩ := List.pairwise_cons.mp nested
  have number : ∀ r ∈ lines.map (fun line => (⟨origin, p.outLine, some line, none⟩ : Record)),
      r.outLine = p.outLine := by
    intro r mem
    obtain ⟨line, -, rfl⟩ := List.mem_map.mp mem
    rfl
  refine ⟨?_, ?_, ?_, ?_, nested⟩
  · rw [appended_closeSwitch]
    exact h.numbered
  · rw [body_closeSwitch]
    -- Below the table are numbers up to that of the switch, above it are numbers from there on.
    refine List.pairwise_append.mpr ⟨List.pairwise_append.mpr ⟨h.rising.take, ?_, ?_⟩, h.rising.drop, ?_⟩
    · exact List.pairwise_map.mpr (List.pairwise_of_forall fun _ _ => Nat.le_refl _)
    · intro r mem later table
      rw [number later table]
      exact fits.low r mem
    · intro r mem later above
      have from_switch := fits.high later above
      rcases List.mem_append.mp mem with mem | table
      · exact (fits.low r mem).trans from_switch
      · rwa [number r table]
  · rw [body_closeSwitch]
    intro r mem
    rcases List.mem_append.mp mem with mem | mem
    · rcases List.mem_append.mp mem with mem | table
      · exact h.bounded r (List.mem_of_mem_take mem)
      · exact (number r table).trans_le low
    · exact h.bounded r (List.mem_of_mem_drop mem)
  · rw [body_closeSwitch]
    intro q mem
    exact ⟨(others q mem).1.splice (around q mem).1 fits.within fun r table => by
      rw [number r table]; exact (around q mem).2, (others q mem).2⟩

end InOrder

theorem Revised.inOrder {s s' : Preprocessor} {d d' : Draft} (h : d.Revised s s' d')
    (inOrder : d.InOrder) : d'.InOrder := by
  cases h with
  | keeps pending outer => exact inOrder.keeps outer
  | opens => exact inOrder.openSwitch
  | appends origin text comment => exact inOrder.append origin text comment _
  | closes p outer top table lines origin text comment =>
    exact (inOrder.closeSwitch top table lines).append origin text comment _

end Draft

theorem Preprocessor.Revision.bound_of_grown {s s' : Preprocessor} (h : Revision s s')
    {body body' : List Record} {count : Nat} {r : Record} (before : s.sheet? = some (body, count))
    (after : s'.sheet? = some (body' ++ [r], count + 1)) :
    ∀ name, r.text.bind blockLabel? = some name → s.env.contains name = false →
      s'.env.get? name = some (.int (Int64.ofNat count)) := by
  have rises : s'.sheet? ≠ s.sheet? := by
    rw [after, before]
    simp
  have last {u : Preprocessor} {base : List Record} {r' : Record} (appends : Appends u s' base r') :
      r' = r ∧ r'.outLine = count := by
    have same := appends.sheet.symm.trans after
    simp only [Option.some.injEq, Prod.mk.injEq, Nat.add_right_cancel_iff] at same
    exact ⟨by simpa using (List.append_inj' same.1 rfl).2, same.2⟩
  cases h with
  | unwritten h =>
    rcases h.kept with left | ⟨same, -⟩
    · cases left.symm.trans after
    · exact absurd same rises
  | stops same => exact absurd same rises
  | opensProgram vacant => cases vacant.symm.trans before
  | opensSwitch _ _ _ _ same => exact absurd same rises
  | appends _ _ _ appends | splices _ _ _ _ _ _ appends =>
    obtain ⟨rfl, rfl⟩ := last appends
    exact appends.bound

namespace Draft

structure Labelled (d : Draft) (numbers : List Nat) : Prop where
  values : d.labels.map Prod.snd = numbers.map fun n => some (.int (Int64.ofNat n))
  rising : numbers.Pairwise fun later n => n < later
  bounded : ∀ n ∈ numbers, n < d.outLine

theorem Labelled.append {d : Draft} {numbers : List Nat} (h : d.Labelled numbers) (origin : Origin)
    (text comment : Option String) {labels : List (String × Option Value)}
    (fresh : labels = [] ∨ ∃ name, labels = [(name, some (.int (Int64.ofNat d.outLine)))]) :
    ∃ numbers, (d.append origin text comment labels).Labelled numbers := by
  have bounded : ∀ n ∈ numbers, n < d.outLine + 1 := fun n mem => Nat.lt_succ_of_lt (h.bounded n mem)
  rcases fresh with rfl | ⟨name, rfl⟩
  · exact ⟨numbers, h.values, h.rising, bounded⟩
  · refine ⟨d.outLine :: numbers, ?_, ?_, ?_⟩
    · simp [Draft.append, h.values]
    · exact List.pairwise_cons.mpr ⟨h.bounded, h.rising⟩
    · exact List.forall_mem_cons.mpr ⟨Nat.lt_succ_self _, bounded⟩

theorem freshLabels_cases {s s' : Preprocessor} (revision : Revision s s') {d d' : Draft}
    (before : d.Shows s) {origin : Origin} {text comment : Option String}
    {labels : List (String × Option Value)} (count : d'.outLine = d.outLine)
    (after : (d'.append origin text comment labels).Shows s') :
    freshLabels s s' text = [] ∨
      ∃ name, freshLabels s s' text = [(name, some (.int (Int64.ofNat d'.outLine)))] := by
  have sheet := after.sheet
  rw [body_append, Draft.append, count] at sheet
  have bound := revision.bound_of_grown before.sheet sheet
  unfold freshLabels
  split
  · exact .inl rfl
  · rename_i name label
    split
    · exact .inl rfl
    · rename_i free
      exact .inr ⟨name, by rw [bound name label (by simpa using free), count]⟩

theorem Revised.labelled {s s' : Preprocessor} {d d' : Draft} (h : d.Revised s s' d')
    (revision : Revision s s') (before : d.Shows s) (after : d'.Shows s') {numbers : List Nat}
    (labelled : d.Labelled numbers) : ∃ numbers, d'.Labelled numbers := by
  cases h with
  | keeps pending outer => exact ⟨numbers, labelled.values, labelled.rising, labelled.bounded⟩
  | opens => exact ⟨numbers, labelled.values, labelled.rising, labelled.bounded⟩
  | appends origin text comment =>
    exact labelled.append origin text comment (freshLabels_cases revision before rfl after)
  | closes p outer top table lines origin text comment =>
    have closed : (d.closeSwitch p outer table lines).Labelled numbers :=
      ⟨labelled.values, labelled.rising, labelled.bounded⟩
    exact closed.append origin text comment (freshLabels_cases revision before rfl after)

theorem Labelled.nodup {d : Draft} {numbers : List Nat} (h : d.Labelled numbers)
    (small : d.outLine < 4294967296) : (d.labels.map Prod.snd).Nodup := by
  rw [h.values]
  refine List.Nodup.map_on (fun m mem n mem' same => ?_) (h.rising.imp fun less => Nat.ne_of_gt less)
  have values : Int64.ofNat m = Int64.ofNat n := by simpa using same
  have integers := congrArg Int64.toInt values
  rw [toInt_ofNat_of_small ((h.bounded m mem).trans small),
    toInt_ofNat_of_small ((h.bounded n mem').trans small)] at integers
  exact Int.ofNat.inj integers

end Draft

namespace Drafts

variable {inclusion : Inclusion} {tree : FileTree} {t : Traversal} {d : Draft}

theorem shows (h : Drafts inclusion tree t d) : d.Shows t.state := by
  induction h with
  | opens _ _ shows => exact shows
  | step _ _ _ shows => exact shows
  | enter _ _ ih => exact ⟨ih.sheet, ih.marks⟩
  | unreadable _ _ _ ih => exact ⟨ih.sheet, ih.marks⟩

theorem inOrder (h : Drafts inclusion tree t d) : d.InOrder := by
  induction h with
  | opens => exact .blank
  | step _ _ revised _ ih => exact revised.inOrder ih
  | enter _ _ ih => exact ih
  | unreadable _ _ _ ih => exact ih

theorem labelled (h : Drafts inclusion tree t d) : ∃ numbers, d.Labelled numbers := by
  induction h with
  | opens => exact ⟨[], rfl, .nil, nofun⟩
  | step h next revised shows ih =>
    obtain ⟨numbers, labelled⟩ := ih
    exact revised.labelled next.revision h.shows shows labelled
  | enter _ _ ih => exact ih
  | unreadable _ _ _ ih => exact ih

end Drafts

theorem Draft.blank_shows {s s' : Preprocessor} (revision : Revision s s') (vacant : s.current = none)
    (idle : s.switches = []) {o : OpenProgram} (opened : s'.current = some o) : Draft.blank.Shows s' := by
  have closed : s.sheet? = none := by simp [sheet?, vacant]
  have sheet := sheet?_of_current opened
  cases revision with
  | unwritten h =>
    rcases h.kept with left | ⟨same, -⟩
    · cases left.symm.trans sheet
    · cases (same.trans closed).symm.trans sheet
  | stops same => cases (same.trans closed).symm.trans sheet
  | opensProgram _ _ sheet' marks => exact ⟨sheet', by rw [marks, Preprocessor.marks, idle]; rfl⟩
  | opensSwitch _ _ before | appends _ _ before | splices _ _ _ _ _ before =>
    cases closed.symm.trans before

theorem Draft.exists_revised {s s' : Preprocessor} (revision : Revision s s') {d : Draft}
    (shows : d.Shows s) {o : OpenProgram} (opened : s'.current = some o) :
    ∃ d', d.Revised s s' d' ∧ d'.Shows s' := by
  have sheet := sheet?_of_current opened
  cases revision with
  | unwritten h =>
    rcases h.kept with left | ⟨same, outer⟩
    · cases left.symm.trans sheet
    · rw [shows.marks] at outer
      obtain ⟨pending, outer, marks⟩ := List.suffix_map_iff.mp outer
      exact ⟨_, .keeps pending outer, same.trans shows.sheet, marks⟩
  | stops same marks =>
    exact ⟨d, .keeps d.pending (List.suffix_refl _), same.trans shows.sheet, marks.trans shows.marks⟩
  | opensProgram vacant => cases vacant.symm.trans shows.sheet
  | opensSwitch body count before _ same marks =>
    cases before.symm.trans shows.sheet
    refine ⟨d.openSwitch, .opens, same.trans shows.sheet, ?_⟩
    rw [marks, shows.marks]
    simp [openSwitch, body]
  | appends body r before h =>
    obtain ⟨origin, number, text, comment⟩ := r
    cases before.symm.trans shows.sheet
    refine ⟨_, .appends origin text comment, ?_, h.marks.trans shows.marks⟩
    rw [h.sheet, body_append]
    rfl
  | splices sw outer top body r before h =>
    obtain ⟨origin, number, text, comment⟩ := r
    cases before.symm.trans shows.sheet
    have marks := shows.marks
    rw [Preprocessor.marks, top] at marks
    cases pending : d.pending with
    | nil => simp [pending] at marks
    | cons p rest =>
      simp only [pending, List.map_cons, List.cons.injEq, Prod.mk.injEq] at marks
      refine ⟨_, .closes p rest pending sw.origin sw.jumpTable origin text comment, ?_,
        h.marks.trans marks.2⟩
      rw [h.sheet, body_append, body_closeSwitch, tableRecords, marks.1.1, marks.1.2]
      rfl

theorem Traversal.Reached.exists_draft {inclusion : Inclusion} {tree : FileTree} {env : Environment}
    {t : Traversal} (h : Reached inclusion tree env t) {o : OpenProgram}
    (opened : t.state.current = some o) : ∃ d, Drafts inclusion tree t d := by
  induction h generalizing o with
  | fresh => cases opened
  | enter source _ ih =>
    obtain ⟨d, h⟩ := ih opened
    exact ⟨d, .enter source h⟩
  | unreadable path fault _ ih =>
    obtain ⟨d, h⟩ := ih opened
    exact ⟨d, .unreadable path fault h⟩
  | @step t t' h next ih =>
    cases current : t.state.current with
    | none =>
      exact ⟨.blank, .opens next current
        (Draft.blank_shows next.revision current (h.idle current) opened)⟩
    | some before =>
      obtain ⟨d, drafts⟩ := ih current
      obtain ⟨d', revised, shows⟩ := Draft.exists_revised next.revision drafts.shows opened
      exact ⟨d', .step drafts next revised shows⟩

theorem Draft.InOrder.outLine_le {d : Draft} (h : d.InOrder) : d.outLine ≤ d.body.length := by
  have count := congrArg List.length h.numbered
  rw [List.length_map, List.length_range, appended, List.length_map] at count
  rw [← count, body, List.length_map]
  exact List.length_filter_le _ _

theorem Draft.Shows.inserts {d : Draft} {s : Preprocessor} (h : d.Shows s) :
    s.switches.map Switch.insertAt = d.pending.map Pending.insertAt := by
  have marks := congrArg (List.map Prod.fst) h.marks
  rwa [Preprocessor.marks, List.map_map, List.map_map] at marks

/-- The body of an open program at any point of a run, and any draft of it: the appended records are
numbered from zero on, no number is less than one before it, and the places of the open switches lie one
behind the other in the body, with nothing but what they have found below them. Labels that were free have
been bound to different numbers. -/
theorem body_numbered_in_order {inclusion : Inclusion} {tree : FileTree} {env : Environment}
    {t : Traversal} {o : OpenProgram} (reached : t.Reached inclusion tree env)
    (opened : t.state.current = some o) (small : o.program.body.length < 4294967296) :
    (∃ d, Drafts inclusion tree t d) ∧ ∀ d, Drafts inclusion tree t d →
      d.body = o.program.body ∧
      d.appended.map Record.outLine = List.range o.program.outLine ∧
      (o.program.body.map Record.outLine).Pairwise (· ≤ ·) ∧
      (t.state.switches.reverse.map Switch.insertAt).Pairwise (· ≤ ·) ∧
      (∀ sw ∈ t.state.switches, sw.insertAt ≤ o.program.body.length) ∧
      (t.state.switches.map fun sw => o.program.body.take sw.insertAt) = d.pending.map Pending.before ∧
      (∀ label ∈ d.labels, ∃ n < o.program.outLine, label.2 = some (.int (Int64.ofNat n))) ∧
      (d.labels.map Prod.snd).Nodup := by
  refine ⟨reached.exists_draft opened, fun d drafts => ?_⟩
  have inOrder := drafts.inOrder
  obtain ⟨numbers, labelled⟩ := drafts.labelled
  have inserts := drafts.shows.inserts
  obtain ⟨body, count⟩ : o.program.body = d.body ∧ o.program.outLine = d.outLine := by
    simpa using (sheet?_of_current opened).symm.trans drafts.shows.sheet
  rw [body] at small ⊢
  rw [count]
  refine ⟨rfl, inOrder.numbered, List.pairwise_map.mpr inOrder.rising, ?_, fun sw mem => ?_, ?_,
    fun label mem => ?_, labelled.nodup (inOrder.outLine_le.trans_lt small)⟩
  · rw [List.map_reverse, inserts]
    exact List.pairwise_reverse.mpr (List.pairwise_map.mpr (inOrder.nested.imp And.left))
  · have mem' : sw.insertAt ∈ d.pending.map Pending.insertAt := inserts ▸ List.mem_map_of_mem mem
    obtain ⟨p, pending, same⟩ := List.mem_map.mp mem'
    exact same ▸ (inOrder.pending p pending).1.within
  · have below := congrArg (List.map fun index => d.body.take index) inserts
    rw [List.map_map, List.map_map] at below
    exact below.trans (List.map_congr_left fun p mem => (inOrder.pending p mem).1.below)
  · have value : label.2 ∈ d.labels.map Prod.snd := List.mem_map_of_mem mem
    rw [labelled.values] at value
    obtain ⟨n, number, same⟩ := List.mem_map.mp value
    exact ⟨n, labelled.bounded n number, same.symm⟩

/-- A file in which one switch ends and another begins, inside of a switch of the file around it. -/
def interleaved : FileTree :=
  ⟨[], [(["in.gp"], .file "@switch Y\n@case 2\n@endswitch\n@switch Z\nN@b".toUTF8)]⟩

def interleavedSource : Source :=
  ⟨"main.gp", none, "@program P\nN@a\n@switch X\n@case 1\n@include in.gp"⟩

def interleavedEnv : Environment := Environment.empty.set "P" (.int 7)

def interleavedPoint : Traversal :=
  .after ⟨[], 1⟩ interleaved 10 (.enterFile interleavedSource [] (.start interleavedEnv))

theorem interleaved_numbered_in_order :
    interleavedPoint.state.sheet?.map (fun sheet => (sheet.1.map Record.outLine, sheet.2)) =
        some ([0, 1, 2, 2, 2, 3, 4], 5) ∧
      interleavedPoint.state.switches.map Switch.insertAt = [6, 1] ∧
      ∃ d, Drafts ⟨[], 1⟩ interleaved interleavedPoint d ∧
        d.appended.map Record.outLine = [0, 1, 2, 3, 4] ∧ (d.labels.map Prod.snd).Nodup := by
  have reached : interleavedPoint.Reached ⟨[], 1⟩ interleaved interleavedEnv :=
    (Traversal.Reached.enter interleavedSource .fresh).runs
      (Traversal.runs_after ⟨[], 1⟩ interleaved 10 _)
  have point : interleavedPoint.state.sheet?.map (fun sheet => (sheet.1.map Record.outLine, sheet.2)) =
        some ([0, 1, 2, 2, 2, 3, 4], 5) ∧
      interleavedPoint.state.switches.map Switch.insertAt = [6, 1] := by
    decide +kernel
  refine ⟨point.1, point.2, ?_⟩
  cases current : interleavedPoint.state.current with
  | none => simp [sheet?, current] at point
  | some o =>
    have shown := point.1
    simp only [sheet?_of_current current, Option.map_some, Option.some.injEq, Prod.mk.injEq] at shown
    have length := congrArg List.length shown.1
    rw [List.length_map] at length
    obtain ⟨⟨d, drafts⟩, all⟩ := body_numbered_in_order reached current (by rw [length]; decide)
    obtain ⟨-, numbered, -, -, -, -, -, distinct⟩ := all d drafts
    rw [shown.2] at numbered
    exact ⟨d, drafts, numbered, distinct⟩

end GcodePrep
