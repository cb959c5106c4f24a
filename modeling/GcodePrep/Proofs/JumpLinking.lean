import GcodePrep.Proofs.Assembly
import GcodePrep.Proofs.Catalogue
import GcodePrep.Proofs.SourceTexts
import GcodePrep.Proofs.TokenSubstitution
import Mathlib.Data.List.Nodup

set_option autoImplicit false

/-!
# Jumps reach their own labels

At the end of a program the names in its lines are replaced by the numbers that its labels were bound
to. The header is substituted first, and a token in it can bind a label anew. If none does, and nothing
was reported on the way, every jump of the stored program carries the number of the very label it was
made for, and of no other.
-/

namespace GcodePrep

/-- A program whose lines are these blocks, with a number in the place of each target. -/
structure Linked (blocks : List Block) (p : Program) (number : Target → Nat) : Prop where
  body : p.body.map Record.text = blocks.map fun b => some (b.render fun t => toString (number t))
  increasing : ((Block.labels blocks).map number).Pairwise (· < ·)
  reached : ∀ t ∈ Block.jumps blocks, t ∈ Block.labels blocks ∧
    ∀ t' ∈ Block.labels blocks, number t' = number t → t' = t
  tokenless : ∀ r ∈ p.body, ∀ text ∈ r.text, '@' ∉ text.toList

theorem toInt_ofNat_of_small {n : Nat} (small : n < 4294967296) : (Int64.ofNat n).toInt = n := by
  rw [Int64.toInt_ofNat', Int.bmod_eq_of_le]
  · simp [Int64.size]
  · simp [Int64.size]
    omega

theorem Value.text_ofNat {n : Nat} (small : n < 4294967296) :
    (Value.int (Int64.ofNat n)).text = toString n := by
  rw [text, toInt_ofNat_of_small small]
  rfl

namespace Block

def start : Block → String
  | plain text => text
  | label _ => "N"
  | jump condition _ => condition ++ "GOTO"

theorem render_of_target {b : Block} {t : Target} (h : b.target? = some t) (name : Target → String) :
    b.render name = b.start ++ name t := by
  cases b with
  | plain text => cases h
  | label target | jump condition target =>
    cases h
    rfl

theorem render_of_plain {b : Block} (h : b.target? = none) (name : Target → String) :
    b.render name = b.start := by
  cases b with
  | plain text => rfl
  | label target | jump condition target => cases h

theorem Tokenless.start {b : Block} (h : b.Tokenless) : '@' ∉ b.start.toList := by
  cases b with
  | plain text => exact h
  | label t =>
    change '@' ∉ "N".toList
    decide
  | jump condition t =>
    have plain : '@' ∉ condition.toList := h
    simpa [Block.start] using plain

variable {number : Target → Nat} {env : Environment}

def Bound (number : Target → Nat) (env : Environment) (b : Block) : Prop :=
  ∀ t, b.target? = some t →
    env.get? t.label.name = some (.int (Int64.ofNat (number t))) ∧ number t < 4294967296

theorem resolve_record {b : Block} {r : Record} (has : r.text = some (b.render Outline.tokenName))
    (tokenless : b.Tokenless) (bound : b.Bound number env) (ok : (r.resolve env).2.1 = []) :
    ∃ r', r.resolve env = (r', [], env) ∧
      r'.text = some (b.render fun t => toString (number t)) := by
  cases target : b.target? with
  | none =>
    rw [render_of_plain target] at has ⊢
    exact ⟨r, Record.resolve_tokenless has tokenless.start env, has⟩
  | some t =>
    obtain ⟨value, small⟩ := bound t target
    have token : r.text = some (b.start ++ "@" ++ t.label.name) := by
      rw [has, render_of_target target, Outline.tokenName, String.append_assoc]
    rw [render_of_target target]
    by_cases room : 0 < env.maxDepth
    · have eval := Environment.eval_name t.label.isName room value
      have text := Value.text_ofNat small
      obtain ⟨r', resolved, text'⟩ := Record.resolve_name token tokenless.start t.label.isName eval
        (by rw [text]; exact not_mem_repr (by decide) _)
      exact ⟨r', resolved, by rw [text', text]⟩
    · have noRoom : env.maxDepth = 0 := by omega
      obtain ⟨fault, eval⟩ := Environment.eval_name_of_no_room t.label.isName noRoom
      exact absurd ok (Record.resolve_name_of_error token tokenless.start t.label.isName eval)

theorem resolveBody {blocks : List Block} {records : List Record}
    (texts : records.map Record.text = blocks.map fun b => some (b.render Outline.tokenName))
    (tokenless : ∀ b ∈ blocks, b.Tokenless) (bound : ∀ b ∈ blocks, b.Bound number env)
    (ok : (Program.resolveBody records env).2.1 = []) :
    (Program.resolveBody records env).1.map Record.text =
      blocks.map fun b => some (b.render fun t => toString (number t)) := by
  induction blocks generalizing records with
  | nil =>
    obtain rfl : records = [] := by simpa using texts
    rfl
  | cons b blocks ih =>
    cases records with
    | nil => cases texts
    | cons r records =>
      obtain ⟨has, texts⟩ := List.cons.inj texts
      simp only [Program.resolveBody, List.append_eq_nil_iff] at ok ⊢
      obtain ⟨r', resolved, text⟩ := resolve_record has (tokenless b List.mem_cons_self)
        (bound b List.mem_cons_self) ok.1
      rw [resolved] at ok ⊢
      rw [List.map_cons, List.map_cons, text, ih texts (fun b mem => tokenless b (List.mem_cons_of_mem _ mem))
        (fun b mem => bound b (List.mem_cons_of_mem _ mem)) ok.2]

theorem Tokenless.render {b : Block} (h : b.Tokenless) (number : Target → Nat) :
    '@' ∉ (b.render fun t => toString (number t)).toList := by
  cases target : b.target? with
  | none =>
    rw [render_of_plain target]
    exact h.start
  | some t =>
    rw [render_of_target target, String.toList_append, List.mem_append, not_or]
    exact ⟨h.start, not_mem_repr (by decide) _⟩

theorem mem_labels_or_jumps {blocks : List Block} {b : Block} {t : Target} (mem : b ∈ blocks)
    (h : b.target? = some t) : t ∈ labels blocks ∨ t ∈ jumps blocks := by
  cases b with
  | plain text => cases h
  | label target => exact .inl (List.mem_filterMap.mpr ⟨_, mem, h⟩)
  | jump condition target => exact .inr (List.mem_filterMap.mpr ⟨_, mem, h⟩)

end Block

def SwitchLabel.boundNumber (env : Environment) (l : SwitchLabel) : Nat :=
  match env.get? l.name with
  | some (.int n) => n.toInt.toNat
  | _ => 0

theorem SwitchLabel.boundNumber_eq {env : Environment} {l : SwitchLabel} {n : Nat}
    (bound : env.get? l.name = some (.int (Int64.ofNat n))) (small : n < 4294967296) :
    l.boundNumber env = n := by
  simp [boundNumber, bound, toInt_ofNat_of_small small]

namespace Outline

variable {o : Outline .body} {env : Environment}
  (bound : ∀ l ∈ o.labels 0 0 0, env.get? l.1.name = some (.int (Int64.ofNat l.2)))
  (short : o.source.length < 4294967296)

omit bound in
include short in
theorem number_small {l : SwitchLabel × Nat} (mem : l ∈ o.labels 0 0 0) : l.2 < 4294967296 := by
  have upper := (o.labels_bounds 0 0 0 l mem).2
  have emitted := o.emitted_le_length
  omega

include bound short

theorem boundNumber_labels :
    (Block.labels (o.assemble [] 0 0)).map (·.label.boundNumber env) = (o.labels 0 0 0).map Prod.snd := by
  have same := o.labels_assemble [] 0 0 0
  calc
    _ = ((Block.labels (o.assemble [] 0 0)).map Target.label).map (·.boundNumber env) := by
      rw [List.map_map]
      rfl
    _ = (o.labels 0 0 0).map (·.1.boundNumber env) := by
      rw [same, List.map_map]
      rfl
    _ = _ := List.map_congr_left fun l mem =>
      SwitchLabel.boundNumber_eq (bound l mem) (number_small short mem)

theorem bound_assemble {b : Block} (mem : b ∈ o.assemble [] 0 0) :
    b.Bound (·.label.boundNumber env) env := by
  intro t target
  have labelled : t ∈ Block.labels (o.assemble [] 0 0) := by
    rcases Block.mem_labels_or_jumps mem target with labelled | jump
    · exact labelled
    · exact (o.mem_labels_of_mem_jumps [] 0 0 jump).resolve_right fun outer => outer.1 rfl
  have named : t.label ∈ (o.labels 0 0 0).map Prod.fst := by
    have same := o.labels_assemble [] 0 0 0
    rw [List.length_nil] at same
    rw [← same]
    exact List.mem_map_of_mem labelled
  obtain ⟨l, mem, same⟩ := List.mem_map.mp named
  have small := number_small short mem
  have value := bound l mem
  rw [same] at value
  dsimp only
  rw [SwitchLabel.boundNumber_eq value small]
  exact ⟨value, small⟩

theorem linked_of_resolved (tokenless : o.Tokenless) {records : List Record} {p : Program}
    (texts : records.map Record.text = (o.compile 0 0).map some)
    (ok : (Program.resolveBody records env).2.1 = [])
    (body : p.body = (Program.resolveBody records env).1) :
    Linked (o.assemble [] 0 0) p (·.label.boundNumber env) := by
  have compiled := o.compile_eq_assemble [] 0 0
  rw [List.length_nil] at compiled
  rw [compiled, List.map_map] at texts
  have plain := tokenless.assemble [] 0 0
  have resolved := Block.resolveBody texts plain (fun b mem => bound_assemble bound short mem) ok
  rw [← body] at resolved
  have increasing : ((Block.labels (o.assemble [] 0 0)).map (·.label.boundNumber env)).Pairwise (· < ·) := by
    rw [boundNumber_labels bound short, List.pairwise_map]
    exact o.labels_increasing 0 0 0
  refine ⟨resolved, increasing, fun t jump => ?_, fun r mem text has => ?_⟩
  · have labelled := (o.mem_labels_of_mem_jumps [] 0 0 jump).resolve_right fun outer => outer.1 rfl
    have distinct := increasing.imp fun lt => Nat.ne_of_lt lt
    exact ⟨labelled, fun t' mem same => List.inj_on_of_nodup_map distinct mem labelled same⟩
  · have line : some text ∈ p.body.map Record.text := has ▸ List.mem_map_of_mem mem
    rw [resolved] at line
    obtain ⟨b, mem, same⟩ := List.mem_map.mp line
    rw [← Option.some.inj same]
    exact (plain b mem).render _

end Outline

/-- The environment that substitution in the lines of a header leaves behind. -/
def Environment.afterHeader (env : Environment) (header : List String) : Environment :=
  header.foldl (fun env line => (resolveLine line env).2) env

namespace Program

theorem resolveHeader_env (origin : Origin) (header : List String) (env : Environment) :
    (resolveHeader origin header env).2.2 = env.afterHeader header := by
  induction header generalizing env with
  | nil => rfl
  | cons line header ih => simp only [resolveHeader, ih, Environment.afterHeader, List.foldl_cons]

theorem resolve_body (p : Program) (env : Environment) :
    (p.resolve env).1.body = (resolveBody p.body (env.afterHeader p.header)).1 := by
  rw [← resolveHeader_env p.origin]
  rfl

theorem resolve_failures (p : Program) (env : Environment) :
    (p.resolve env).2.1 = (resolveHeader p.origin p.header env).2.1 ++
      (resolveBody p.body (env.afterHeader p.header)).2.1 := by
  rw [← resolveHeader_env p.origin]
  rfl

end Program

/-- Where the labels of the outline are bound to the numbers of their lines, no token in the lines of the
header binds one of them to something else. -/
def Outline.KeepsLabels (o : Outline .body) (header : List String) (env : Environment) : Prop :=
  let bound := env.bindLabels (o.labels 0 0 0)
  ∀ l ∈ o.labels 0 0 0, (bound.afterHeader header).get? l.1.name = bound.get? l.1.name

namespace Preprocessor

theorem openProgram_unreported {s : Preprocessor} {place : Place} {argument : String}
    (unreported : (s.openProgram place argument).log = s.log) :
    s.Outside ∧ ∃ number, s.openProgram place argument = { s with
      current := some ⟨.start (Text.leadingWord argument) number place.origin s.globalHeader
        s.env.bindings, place.level⟩ } := by
  have reported (d : Diagnostic) : s.log.add d ≠ s.log := by
    intro same
    exact absurd ((Log.addAll_eq_self_iff s.log [d]).mp same) (by simp)
  unfold openProgram at unreported ⊢
  cases given : (Text.leadingWord argument).isEmpty with
  | true =>
    rw [if_pos given] at unreported
    exact absurd unreported (reported _)
  | false =>
    cases outside : s.enclosing? with
    | some enclosing =>
      simp only [given, outside] at unreported
      exact absurd unreported (reported _)
    | none =>
      cases valid : programNumber s.env (Text.leadingWord argument) with
      | error problem =>
        simp only [given, outside, valid] at unreported
        exact absurd unreported (reported _)
      | ok number =>
        simp only [given, outside, valid] at unreported ⊢
        simp only [enclosing?, Option.or_eq_none_iff, Option.map_eq_none_iff] at outside
        have new := get?_eq_none_of_unwarned unreported
        exact ⟨outside, number, by simp [warnOverwriting, new]⟩

theorem reportFailures_unreported {s : Preprocessor} {failures : List ResolveFailure}
    (unreported : (s.reportFailures failures).log = s.log) : failures = [] := by
  cases failures with
  | nil => rfl
  | cons failure rest =>
    have first := Quiet.addDiagnostic s
      (((Problem.notSubstituted failure.expr).atOrigin failure.origin).withNote failure.reason)
    obtain ⟨same, -⟩ := first.frame.log_eq (Quiet.reportFailures _ rest).frame unreported
    exact absurd ((Log.addAll_eq_self_iff s.log [_]).mp same) (by simp)

theorem closeProgram_unreported {s : Preprocessor} {opened : OpenProgram}
    (current : s.current = some opened) (accepted : s.rejected = none) (closed : s.switches = [])
    (place : Place) (unreported : (s.closeProgram place).log = s.log) :
    (s.closeProgram place).Outside ∧ (opened.program.resolve s.env).2.1 = [] ∧
      ∃ p ∈ (s.closeProgram place).programs.programs, p.name = opened.program.name ∧
        p.body = (opened.program.resolve s.env).1.body := by
  have eq := closeProgram_eq current place
  simp only [closed, reportSwitches, List.foldl_nil] at eq
  have name : (opened.program.resolve s.env).1.name = opened.program.name := rfl
  generalize opened.program.resolve s.env = resolved at eq name ⊢
  obtain ⟨p, failures, env⟩ := resolved
  have failed := Quiet.reportFailures { s with current := none, switches := [], env } failures
  have restored := Steady.restoreSaved
    ({ s with current := none, switches := [], env }.reportFailures failures) opened.program.saved
  rw [eq] at unreported ⊢
  refine ⟨⟨restored.current_eq_none failed.current, (restored.rejected.trans failed.rejected).trans accepted⟩,
    reportFailures_unreported (failed.frame.log_eq restored.frame unreported).1,
    { p with saved := none, done := true }, ?_, name, rfl⟩
  exact Catalogue.mem_insert_self _ _

section Program

variable (includer : Includer) (file : Source) (outer : Place) (n : Nat) {s : Preprocessor}
  {opening closing argument rest : String} {o : Outline .body}

theorem processLines_program (opens : Line.ofString opening = .directive .program argument)
    (running : s.aborted = false) (visible : s.branches.isActive = true) (unheaded : s.header = none)
    (lines : List String) :
    processLines includer file outer n (opening :: lines) s =
      processLines includer file outer (n + 1) lines
        (openProgram { s with lines := s.lines + 1 } (⟨file.name, file.directory, n, opening⟩ :: outer)
          argument) := by
  rw [processLines_cons running]
  simp [processLine, opens, headedLine, visibleLine, visible, unheaded]

theorem linked_of_building {opened : OpenProgram} (building : s.Building opened)
    (closed : s.switches = []) (body : opened.program.body = []) (first : opened.program.outLine = 0)
    (keeps : o.KeepsLabels opened.program.header s.env)
    (closes : Line.ofString closing = .directive .endprogram rest)
    (tokenless : o.Tokenless) (short : o.source.length < 4294967296)
    (unreported : (processLines includer file outer n o.source s).log = s.log)
    (unreported' : (processLines includer file outer n (o.source ++ [closing]) s).log = s.log) :
    (processLines includer file outer n (o.source ++ [closing]) s).Outside ∧
      ∃ p ∈ (processLines includer file outer n (o.source ++ [closing]) s).programs.programs,
        p.name = opened.program.name ∧ ∃ number, Linked (o.assemble [] 0 0) p number := by
  obtain ⟨switches, records, progress, texts, advances⟩ :=
    Outline.compiled_source includer file outer o n 0 0 building (by rw [closed]; rfl)
  rw [closed] at advances
  obtain rfl : switches = [] := advances
  have inside := progress.building building
  rw [processLines_append, processLines_cons inside.running] at unreported' ⊢
  generalize processLines includer file outer n o.source s = s' at *
  have ended := (inside.update (s'.lines + 1) s'.switches).processLine_eq includer
    (⟨file.name, file.directory, n + o.source.length, closing⟩ :: outer) closes rfl
  simp only [processLines, ended, programLine] at unreported' ⊢
  obtain ⟨outside, ok, p, kept, name, resolved⟩ := closeProgram_unreported
    (s := { s' with lines := s'.lines + 1 }) inside.current inside.rejected progress.switches_eq _
    (unreported'.trans unreported.symm)
  obtain ⟨env, log, lines, rfl, binds⟩ := progress
  have bound := binds.bound unreported
  have env_eq := binds.env_eq unreported
  rw [Program.resolve_failures, List.append_eq_nil_iff] at ok
  rw [Program.resolve_body] at resolved
  simp only [first, OpenProgram.grow, body, List.nil_append] at bound env_eq ok resolved
  -- The header comes first, so the body finds the labels as the header has left them.
  have still : ∀ l ∈ o.labels 0 0 0,
      (env.afterHeader opened.program.header).get? l.1.name = some (.int (Int64.ofNat l.2)) := by
    intro l mem
    rw [← bound l mem, env_eq]
    exact keeps l mem
  exact ⟨outside, p, kept, name, _, Outline.linked_of_resolved still short tokenless texts ok.2 resolved⟩

theorem linked_of_lines (opens : Line.ofString opening = .directive .program argument)
    (closes : Line.ofString closing = .directive .endprogram rest)
    (running : s.aborted = false) (visible : s.branches.isActive = true) (unheaded : s.header = none)
    (idle : s.Idle) (keeps : o.KeepsLabels s.globalHeader s.env)
    (tokenless : o.Tokenless) (short : o.source.length < 4294967296)
    (unreported : ∀ lines more, opening :: (o.source ++ [closing]) = lines ++ more →
      (processLines includer file outer n lines s).log = s.log) :
    let s' := processLines includer file outer n (opening :: (o.source ++ [closing])) s
    s'.Outside ∧ ∃ p ∈ s'.programs.programs, p.name = Text.leadingWord argument ∧
      ∃ number, Linked (o.assemble [] 0 0) p number := by
  have step := processLines_program includer file outer n opens running visible unheaded
  have first := unreported [opening] (o.source ++ [closing]) rfl
  have second := unreported (opening :: o.source) [closing] rfl
  have third := unreported (opening :: (o.source ++ [closing])) [] (List.append_nil _).symm
  rw [step] at first second third ⊢
  obtain ⟨outside, number, eq⟩ := openProgram_unreported first
  rw [eq] at second third ⊢
  generalize opened_eq : OpenProgram.mk _ _ = opened at second third ⊢
  have building : Building { s with lines := s.lines + 1, current := some opened } opened :=
    ⟨rfl, outside.2, unheaded, running, visible⟩
  subst opened_eq
  exact linked_of_building includer file outer (n + 1) building (idle outside.1) rfl rfl keeps closes
    tokenless short second third

end Program

end Preprocessor

namespace Traversal

open Preprocessor

variable {inclusion : Inclusion} {tree : FileTree}

theorem unreported_ahead {includer : Includer} {frame : SourceFrame} {saved : Branches}
    {outer : List OpenFile} (follows : ∀ file, Follows inclusion tree includer (file :: outer))
    (lines more : List String) {s fin : Preprocessor} (exclusive : s.Exclusive)
    (run : Runs inclusion tree ⟨⟨frame, lines ++ more, saved⟩ :: outer, s⟩ ⟨[], fin⟩)
    (unreported : fin.log = s.log) :
    let s' := processLines includer ⟨frame.name, frame.directory, ""⟩ (outer.map OpenFile.frame)
      (frame.line + 1) lines s
    s'.log = s.log ∧ fin.log = s'.log ∧ ∃ file, Runs inclusion tree ⟨file :: outer, s'⟩ ⟨[], fin⟩ := by
  obtain ⟨file, ahead, -⟩ := runs_processLines inclusion tree ⟨frame.name, frame.directory, ""⟩ saved
    follows lines more frame.line frame.text s
  have onward := run.to_end ahead
  have first := Runs.frame ahead exclusive
  have last := Runs.frame onward (Runs.exclusive ahead exclusive)
  obtain ⟨same, same'⟩ := first.log_eq last unreported
  exact ⟨same, same', file, onward⟩

/-- Take any point of the run over a source, in the source itself or in a file it includes, at which
the lines of a program come next: the line that opens it, a body without tokens, and the line that ends
it. Tokens in the header may do anything but bind the label of a switch to something else.
If the run ends without errors and warnings, the program is stored, and its body is that of the outline
with a number for every target. The numbers of the labels grow down the body; every jump carries the
number of its own target and of no other label; no token is left. -/
theorem jumps_reach_their_own_labels (inclusion : Inclusion) (tree : FileTree) (env : Environment)
    (source : Source) (o : Outline .body) {t : Traversal} {frame : SourceFrame} {saved : Branches}
    {outer : List OpenFile} {opening closing argument rest : String} {post : List String}
    (run : Runs inclusion tree (enterFile source [] (.start env)) t)
    (ahead : t.files = ⟨frame, opening :: (o.source ++ closing :: post), saved⟩ :: outer)
    (opens : Line.ofString opening = .directive .program argument)
    (closes : Line.ofString closing = .directive .endprogram rest)
    (running : t.state.aborted = false) (visible : t.state.branches.isActive = true)
    (unheaded : t.state.header = none) (keeps : o.KeepsLabels t.state.globalHeader t.state.env)
    (tokenless : o.Tokenless) (short : o.source.length < 4294967296)
    (clean : (processSource inclusion tree source (.start env)).log.diagnostics = []) :
    ∃ p ∈ (processSource inclusion tree source (.start env)).programs.programs,
      p.name = Text.leadingWord argument ∧ ∃ number, Linked (o.assemble [] 0 0) p number := by
  have reached := (Reached.enter source .fresh).runs run
  have toEnd := Runs.to_end (runs_processSource inclusion tree source (.start env)) run
  generalize processSource inclusion tree source (.start env) = fin at *
  obtain ⟨files, s⟩ := t
  cases ahead
  have unreported : fin.log = s.log := by
    obtain ⟨ds, log⟩ := (Runs.frame toEnd reached.exclusive).log
    rw [log, Log.diagnostics_addAll, List.append_eq_nil_iff] at clean
    rw [log, clean.2]
    rfl
  obtain ⟨includer, follows⟩ := exists_follows inclusion tree outer
  have program : opening :: (o.source ++ closing :: post) = opening :: (o.source ++ [closing]) ++ post := by
    simp
  obtain ⟨outside, p, stored, name, linked⟩ := linked_of_lines includer
    ⟨frame.name, frame.directory, ""⟩ (outer.map OpenFile.frame) (frame.line + 1) opens closes running
    visible unheaded reached.idle keeps tokenless short fun lines more split => by
      rw [program, split, List.append_assoc] at toEnd
      exact (unreported_ahead follows lines (more ++ post) reached.exclusive toEnd unreported).1
  rw [program] at toEnd
  obtain ⟨-, same, file, onward⟩ := unreported_ahead follows _ post reached.exclusive toEnd unreported
  have kept := (Runs.keeps onward outside same).2
  exact ⟨p, kept stored, name, linked⟩

/-- A header of one line, and a program with nothing but the outline in it. -/
def headedLines (line : String) (o : Outline .body) : List String :=
  "@header" :: line :: "@endheader" :: "@program P" :: (o.source ++ "@endprogram" :: [])

def headedSource (line : String) (o : Outline .body) : Source :=
  ⟨"a.gp", none, "\n".intercalate (headedLines line o)⟩

def headedEnvironment : Environment := Environment.empty.set "P" (.int 7)

def headedPoint (line : String) (o : Outline .body) : Traversal :=
  ⟨[⟨⟨"a.gp", none, 3, "@endheader"⟩, "@program P" :: (o.source ++ "@endprogram" :: []), []⟩],
    { Preprocessor.start headedEnvironment with globalHeader := [line], lines := 3 }⟩

theorem runs_headedSource (line : String) (o : Outline .body)
    (single : ∀ text ∈ headedLines line o, '\n' ∉ text.toList)
    (trimmed : (headedLines line o).map Text.trim = headedLines line o)
    (read : after ⟨[], 0⟩ ⟨[], []⟩ 3
        ⟨[⟨⟨"a.gp", none, 0, ""⟩, headedLines line o, []⟩], .start headedEnvironment⟩ =
      headedPoint line o) :
    Runs ⟨[], 0⟩ ⟨[], []⟩ (enterFile (headedSource line o) [] (.start headedEnvironment))
      (headedPoint line o) := by
  have lines : Text.sourceLines (headedSource line o).text = headedLines line o := by
    rw [headedSource, Text.sourceLines_intercalate (by simp [headedLines]) single, trimmed]
  rw [← read, ← lines]
  exact runs_after ⟨[], 0⟩ ⟨[], []⟩ 3 _

/-- The header holds a token that assigns to a name of its own. -/
theorem nested_jumps_reach_their_own_labels :
    ∃ p ∈ (processSource ⟨[], 0⟩ ⟨[], []⟩ (headedSource "Shop: @\"S = P\"" .sample)
        (.start headedEnvironment)).programs.programs,
      p.name = "P" ∧ ∃ number, Linked (Outline.sample.assemble [] 0 0) p number := by
  have run := runs_headedSource "Shop: @\"S = P\"" .sample (by decide +kernel) (by decide +kernel) rfl
  have opens : Line.ofString "@program P" = .directive .program "P" := by decide
  have keeps : Outline.sample.KeepsLabels ["Shop: @\"S = P\""] headedEnvironment := by
    let bound := headedEnvironment.bindLabels (Outline.sample.labels 0 0 0)
    have header : bound.afterHeader ["Shop: @\"S = P\""] = bound.set "S" (.int 7) := rfl
    intro l _
    have other : "S" ≠ l.1.name := by
      intro same
      have chars := congrArg String.toList same
      rw [l.1.toList_name] at chars
      cases chars
    change (bound.afterHeader _).get? _ = bound.get? _
    rw [header]
    simp [Environment.get?, Environment.set, other]
  have clean : (processSource ⟨[], 0⟩ ⟨[], []⟩ (headedSource "Shop: @\"S = P\"" .sample)
      (.start headedEnvironment)).log.diagnostics = [] := by
    rw [processSource_eq_after (n := 17) run (by decide +kernel)]
    decide +kernel
  exact jumps_reach_their_own_labels ⟨[], 0⟩ ⟨[], []⟩ headedEnvironment _ Outline.sample run rfl opens
    (Line.ofString_word .endprogram) rfl rfl rfl keeps (by decide +kernel) (by decide) clean

/-- The header is substituted first, and its token binds the label of the case to another number than
that of its line. Nothing is reported. -/
theorem rebound_label_is_misnumbered :
    let source := headedSource "@\"__1_1 = 99\"" .oneCase
    let fin := processSource ⟨[], 0⟩ ⟨[], []⟩ source (.start headedEnvironment)
    Runs ⟨[], 0⟩ ⟨[], []⟩ (enterFile source [] (.start headedEnvironment))
        (headedPoint "@\"__1_1 = 99\"" .oneCase) ∧
      Outline.oneCase.Tokenless ∧ fin.log.diagnostics = [] ∧
      fin.programs.programs.map (·.body.map Record.text) =
        [["IF[#1 EQ 1] GOTO99", "GOTO1", "N99", "N1"].map some] ∧
      ¬ ∃ p ∈ fin.programs.programs, p.name = "P" ∧
        ∃ number, Linked (Outline.oneCase.assemble [] 0 0) p number := by
  have run := runs_headedSource "@\"__1_1 = 99\"" .oneCase (by decide +kernel) (by decide +kernel) rfl
  intro source fin
  have last : fin = (after ⟨[], 0⟩ ⟨[], []⟩ 6 (headedPoint "@\"__1_1 = 99\"" .oneCase)).state :=
    processSource_eq_after run (by decide +kernel)
  have clean : fin.log.diagnostics = [] := by
    rw [last]
    decide +kernel
  have bodies : fin.programs.programs.map (·.body.map Record.text) =
      [["IF[#1 EQ 1] GOTO99", "GOTO1", "N99", "N1"].map some] := by
    rw [last]
    decide +kernel
  refine ⟨run, by decide, clean, bodies, ?_⟩
  rintro ⟨p, stored, -, number, linked⟩
  have blocks : Outline.oneCase.assemble [] 0 0 = [.jump "IF[#1 EQ 1] " (.case [0] 1), .jump "" (.finish [0]),
      .label (.case [0] 1), .label (.finish [0])] := by decide
  rw [blocks] at linked
  have body := List.mem_map_of_mem (f := fun p : Program => p.body.map Record.text) stored
  rw [bodies, List.mem_singleton, linked.body] at body
  simp only [List.map_cons, List.map_nil, Block.render, List.cons.injEq, Option.some.injEq] at body
  obtain ⟨-, -, first, second, -⟩ := body
  have first : number (.case [0] 1) = 99 := nat_eq_of_repr_eq ((String.append_right_inj "N").mp first)
  have second : number (.finish [0]) = 1 := nat_eq_of_repr_eq ((String.append_right_inj "N").mp second)
  have increasing : [number (.case [0] 1), number (.finish [0])].Pairwise (· < ·) := linked.increasing
  rw [first, second] at increasing
  exact absurd increasing (by decide)

end Traversal

end GcodePrep
