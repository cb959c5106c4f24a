import GcodePrep.Layout
import GcodePrep.Proofs.BodyLines
import GcodePrep.Proofs.DefinedNumbers
import GcodePrep.Proofs.Inlining
import GcodePrep.Proofs.TokenSubstitution

set_option autoImplicit false

/-!
# Plain text passes through

A line without tokens, remarks and comments comes out of the preprocessor as it went in, but for the
blanks at its ends: it is appended to the body of the open program, left alone when the tokens are
resolved, and written with the mark that ends a block.
-/

namespace GcodePrep

/-- A trimmed line that is empty, or that neither a directive nor a token nor a remark can come from. -/
def Text.IsPlain (line : String) : Prop :=
  line = "" ∨ '@' ∉ line.toList ∧ ';' ∉ line.toList ∧ ¬ ['/', '/'] <+: line.toList

instance (line : String) : Decidable (Text.IsPlain line) := inferInstanceAs (Decidable (_ ∨ _))

namespace Record

structure IsPlain (r : Record) (line : String) : Prop where
  text : r.text = some line
  comment : r.comment = none

theorem IsPlain.render {r : Record} {line : String} (h : r.IsPlain line) (given : line ≠ "")
    (trimmed : Text.trim line = line) (unmarked : ';' ∉ line.toList) :
    r.render false = some (line ++ " ;") := by
  have whole : line.toList.takeWhile (· != ';') = line.toList := by
    refine List.takeWhile_eq_self_iff.mpr fun c mem => bne_iff_ne.mpr ?_
    rintro rfl
    exact unmarked mem
  have ending : Text.dropBlanksEnd line.toList = line.toList := by
    have chars : Text.trimmed line.toList = line.toList := by
      rw [← String.toList_ofList (l := Text.trimmed line.toList)]
      exact congrArg String.toList trimmed
    rw [← chars, Text.dropBlanksEnd_trimmed]
  have kept : withoutRemark line = line := by
    rw [withoutRemark, whole, ending, String.ofList_toList]
  simp [Record.render, h.text, kept, given]

theorem filterMap_render_plain {records : List Record} {texts : List String}
    (plain : List.Forall₂ IsPlain records texts)
    (written : ∀ text ∈ texts, text ≠ "" ∧ Text.trim text = text ∧ ';' ∉ text.toList) :
    records.filterMap (·.render false) = texts.map (· ++ " ;") := by
  induction plain with
  | nil => rfl
  | cons first _ ih =>
    obtain ⟨⟨given, trimmed, unmarked⟩, others⟩ := List.forall_mem_cons.mp written
    rw [List.filterMap_cons, first.render given trimmed unmarked, ih others, List.map_cons]

end Record

theorem Program.resolveBody_plain {records : List Record} {texts : List String}
    (plain : List.Forall₂ Record.IsPlain records texts) (tokenless : ∀ text ∈ texts, '@' ∉ text.toList)
    (env : Environment) : resolveBody records env = (records, [], env) := by
  induction plain with
  | nil => rfl
  | cons first _ ih =>
    obtain ⟨free, others⟩ := List.forall_mem_cons.mp tokenless
    simp [resolveBody, Record.resolve_tokenless first.text free, ih others]

theorem Program.resolve_plain {p : Program} (header : p.header = []) {texts : List String}
    (plain : List.Forall₂ Record.IsPlain p.body texts) (tokenless : ∀ text ∈ texts, '@' ∉ text.toList)
    (env : Environment) : p.resolve env = (p, [], env) := by
  simp only [resolve, header, resolveHeader, resolveBody_plain plain tokenless env, List.append_nil]
  rw [← header]

namespace Preprocessor

variable (includer : Includer) (place : Place)

section Heading

variable {s : Preprocessor} (visible : s.branches.isActive = true) (unheaded : s.header = none)
  {name : String} (isName : IsName name) {n : Nat} (small : n < 2 ^ 63)

include visible unheaded isName small

theorem processLine_define (room : 2 ≤ s.env.maxDepth) :
    processLine includer place ("@define " ++ name ++ " = " ++ toString n) s =
      { s with env := s.env.set name (.int (Int64.ofNat n)) } := by
  have line : "@define " ++ name ++ " = " ++ toString n =
      Directive.define.word ++ " " ++ (name ++ " = " ++ toString n) := by
    rw [← String.toList_inj]
    simp [Directive.word]
  have reads := Line.ofString_argument .define (name ++ " = " ++ toString n)
  rw [← line, Environment.trim_definition isName n] at reads
  have heard : processLine includer place ("@define " ++ name ++ " = " ++ toString n) s =
      s.define place (name ++ " = " ++ toString n) := by
    rw [processLine, reads]
    simp [headedLine, unheaded, visible, visibleLine]
  have given : (name ++ " = " ++ toString n).isEmpty = false := by simp
  rw [heard, define, given, Environment.define_number isName small room]
  rfl

theorem processLine_program (positive : 1 ≤ n) (outside : s.enclosing? = none)
    (bound : s.env.get? name = some (.int (Int64.ofNat n))) (new : s.programs.get? name = none) :
    processLine includer place ("@program " ++ name) s = { s with
      current := some ⟨.start name (Int64.ofNat n) place.origin s.globalHeader s.env.bindings,
        place.level⟩ } := by
  have reads := Line.ofString_argument .program name
  rw [Text.trim_of_isIdentifier isName.identifier] at reads
  have heard : processLine includer place ("@program " ++ name) s = s.openProgram place name := by
    rw [processLine]
    change Line.ofString ("@program " ++ name) = _ at reads
    rw [reads]
    simp [headedLine, unheaded, visible, visibleLine]
  have word : Text.leadingWord name = name := by
    rw [Text.leadingWord, List.takeWhile_eq_self_iff.mpr isName.isWordChar_of_mem, String.ofList_toList]
  have given : name.isEmpty = false := by simpa using isName.toList_ne_nil
  have number : programNumber s.env name = .ok (Int64.ofNat n) := by
    have above : ¬ (Int64.ofNat n).toInt ≤ 0 := by
      rw [Int64.toInt_ofNat_of_lt small]
      omega
    simp only [programNumber, bound, Value.toInteger?, if_neg above]
  simp only [heard, openProgram, word, given, outside, number, warnOverwriting, new]
  rfl

end Heading

section Body

variable {s : Preprocessor} {opened : OpenProgram} (building : s.Building opened)

include building

theorem processLine_plain {line : String} (plain : Text.IsPlain line) (trimmed : Text.trim line = line)
    (lines : Nat) :
    ∃ records count, processLine includer place line { s with lines } =
        { s with lines, current := some (opened.grow records count) } ∧
      List.Forall₂ Record.IsPlain records ([line].filter (· ≠ "")) := by
  by_cases empty : line = ""
  · subst empty
    refine ⟨[], 0, ?_, .nil⟩
    have reads : Line.ofString "" = .blank := rfl
    rw [processLine, reads, opened.grow_nil, ← building.current]
  · obtain ⟨tokenless, -, uncommented⟩ := plain.resolve_left empty
    let t : PlainLine := ⟨line, empty, trimmed, tokenless, uncommented⟩
    refine ⟨[nextRecord place opened line], 1, ?_, ?_⟩
    · have inside := building.update lines s.switches
      rw [inside.processLine_eq includer place (Line.ofString_plain t) rfl]
      exact emit_unlabelled inside place (blockLabel?_plain t)
    · have kept : [line].filter (· ≠ "") = [line] := by simp [empty]
      rw [kept]
      exact .cons ⟨rfl, rfl⟩ .nil

theorem closeProgram_plain (closed : s.switches = []) (header : opened.program.header = [])
    {saved : Bindings} (before : opened.program.saved = some saved) {texts : List String}
    (records : List.Forall₂ Record.IsPlain opened.program.body texts)
    (tokenless : ∀ text ∈ texts, '@' ∉ text.toList) :
    s.closeProgram place = { s with
      env := s.env.restore saved
      current := none
      programs := (s.programs.insert { opened.program with saved := none, done := true }).2 } := by
  have eq := closeProgram_eq building.current place
  simp only [closed, reportSwitches, List.foldl_nil, before,
    Program.resolve_plain header records tokenless, reportFailures, restoreSaved] at eq
  rw [eq, ← closed]

end Body

theorem processLines_plain {s : Preprocessor} {opened : OpenProgram} (building : s.Building opened)
    (source : Source) (outer : Place) (k : Nat) {lines : List String}
    (plain : ∀ line ∈ lines, Text.IsPlain line)
    (trimmed : ∀ line ∈ lines, Text.trim line = line) :
    ∃ records count, processLines includer source outer k lines s =
        { s with lines := s.lines + lines.length, current := some (opened.grow records count) } ∧
      List.Forall₂ Record.IsPlain records (lines.filter (· ≠ "")) := by
  induction lines generalizing k s opened with
  | nil => exact ⟨[], 0, by rw [opened.grow_nil, ← building.current]; rfl, .nil⟩
  | cons line lines ih =>
    obtain ⟨plain, others⟩ := List.forall_mem_cons.mp plain
    obtain ⟨trimmed, trimmed'⟩ := List.forall_mem_cons.mp trimmed
    obtain ⟨records, count, eq, first⟩ := processLine_plain includer
      (⟨source.name, source.directory, k, line⟩ :: outer) building plain trimmed (s.lines + 1)
    rw [processLines_cons building.running, eq]
    have after : Building
        { s with lines := s.lines + 1, current := some (opened.grow records count) }
        (opened.grow records count) :=
      ⟨rfl, building.rejected, building.header, building.running, building.visible⟩
    obtain ⟨records', count', eq', rest⟩ := ih after (k + 1) others trimmed'
    refine ⟨records ++ records', count + count', ?_, ?_⟩
    · rw [eq', opened.grow_grow, List.length_cons, Nat.add_assoc s.lines, Nat.add_comm 1]
    · have split : (line :: lines).filter (· ≠ "") = [line].filter (· ≠ "") ++ lines.filter (· ≠ "") :=
        List.filter_append [line] lines
      rw [split]
      exact List.rel_append first rest

theorem processLines_blank (source : Source) (outer : Place) (k : Nat) {lines : List String}
    (blank : ∀ line ∈ lines, line = "") {s : Preprocessor} (running : s.aborted = false) :
    processLines includer source outer k lines s = { s with lines := s.lines + lines.length } := by
  induction lines generalizing k s with
  | nil => rfl
  | cons line lines ih =>
    obtain ⟨rfl, others⟩ := List.forall_mem_cons.mp blank
    have reads : Line.ofString "" = .blank := rfl
    rw [processLines_cons running, processLine, reads]
    dsimp only
    rw [ih (k + 1) others (s := { s with lines := s.lines + 1 }) running, List.length_cons,
      Nat.add_comm lines.length 1, Nat.add_assoc]

section Source

variable (source : Source) {lines blanks : List String} (plain : ∀ line ∈ lines, Text.IsPlain line)
  (trimmed : ∀ line ∈ lines, Text.trim line = line) (blank : ∀ line ∈ blanks, line = "")

include plain trimmed blank

theorem processLines_plain_body (outer : Place) (k : Nat) {s : Preprocessor} {opened : OpenProgram}
    (building : s.Building opened) (closed : s.switches = []) (header : opened.program.header = [])
    (empty : opened.program.body = []) {saved : Bindings} (before : opened.program.saved = some saved) :
    ∃ records count total,
      processLines includer source outer k (lines ++ "@endprogram" :: blanks) s =
        { s with
          env := s.env.restore saved
          current := none
          lines := total
          programs := (s.programs.insert
            { (opened.grow records count).program with saved := none, done := true }).2 } ∧
      List.Forall₂ Record.IsPlain records (lines.filter (· ≠ "")) := by
  obtain ⟨records, count, eq, texts⟩ := processLines_plain includer building source outer k plain trimmed
  have inside : Building { s with
      lines := s.lines + lines.length + 1, current := some (opened.grow records count) }
      (opened.grow records count) :=
    ⟨rfl, building.rejected, building.header, building.running, building.visible⟩
  have body : List.Forall₂ Record.IsPlain (opened.grow records count).program.body
      (lines.filter (· ≠ "")) := by
    simpa [OpenProgram.grow, empty] using texts
  have tokenless : ∀ text ∈ lines.filter (· ≠ ""), '@' ∉ text.toList := by
    intro text mem
    obtain ⟨mem, given⟩ := List.mem_filter.mp mem
    exact ((plain text mem).resolve_left (by simpa using given)).1
  have reads : Line.ofString "@endprogram" = .directive .endprogram "" := Line.ofString_word .endprogram
  have closing := inside.processLine_eq includer
    (⟨source.name, source.directory, k + lines.length, "@endprogram"⟩ :: outer) reads rfl
  rw [programLine, closeProgram_plain _ inside closed header before body tokenless] at closing
  refine ⟨records, count, s.lines + lines.length + 1 + blanks.length, ?_, texts⟩
  rw [processLines_append, eq, processLines_cons (s := { s with
    lines := s.lines + lines.length, current := some (opened.grow records count) }) building.running, closing]
  exact processLines_blank includer source outer _ blank building.running

variable (env : Environment) {name : String} (isName : IsName name) {n : Nat}
  (positive : 1 ≤ n) (small : n < 2 ^ 63) (room : 2 ≤ env.maxDepth)

include isName positive small room

theorem processLines_plain_program :
    ∃ (p : Program) (count : Nat),
      processLines includer source [] 1 (("@define " ++ name ++ " = " ++ toString n) ::
          ("@program " ++ name) :: (lines ++ "@endprogram" :: blanks)) (.start env) =
        { start (env.set name (.int (Int64.ofNat n))) with
          lines := count, programs := (Catalogue.empty.insert p).2 } ∧
      p.name = name ∧ p.number = Int64.ofNat n ∧ p.header = [] ∧
      List.Forall₂ Record.IsPlain p.body (lines.filter (· ≠ "")) := by
  have bound : (env.set name (.int (Int64.ofNat n))).get? name = some (.int (Int64.ofNat n)) := by
    simp [Environment.get?, Environment.set]
  rw [processLines_cons rfl, processLine_define includer _ rfl rfl isName small room,
    processLines_cons rfl, processLine_program includer _ rfl rfl isName small positive rfl bound rfl]
  obtain ⟨records, count, total, eq, texts⟩ := processLines_plain_body includer source plain trimmed blank
    [] 3 (s := { start (env.set name (.int (Int64.ofNat n))) with
      lines := 2
      current := some ⟨.start name (Int64.ofNat n) ⟨source.name, 2⟩ []
        (env.set name (.int (Int64.ofNat n))).bindings, 1⟩ }) ⟨rfl, rfl, rfl, rfl, rfl⟩ rfl rfl rfl rfl
  exact ⟨_, total, eq, rfl, rfl, rfl, texts⟩

end Source

end Preprocessor

theorem Preprocessor.processSource_of_closed {inclusion : Inclusion} {tree : FileTree} {source : Source}
    {env : Environment} {s : Preprocessor}
    (eq : processLines (includerIn inclusion tree inclusion.maxDepth) source [] 1
      (Text.sourceLines source.text) (.start env) = s)
    (rest : s.AtRest) (running : s.aborted = false) :
    processSource inclusion tree source (.start env) = s := by
  have ended : s.endFile (0 + 1) = s :=
    endFile_of_closed rest.branches rest.header (by simp [rest.current])
      (by simp [rest.switches]) (by simp [rest.rejected])
  have begun : { start env with branches := [] } = start env := rfl
  rw [processSource, if_neg (by simp [start]), enter_eq_processText, processText, begun, eq, running]
  change { s.endFile 1 with branches := [] } = s
  rw [ended, ← rest.branches]

theorem Directive.trim_line (d : Directive) (mid : String) {last : String} (given : last ≠ "")
    (unblank : ∀ c ∈ last.toList, Text.isBlank c = false) :
    Text.trim (d.word ++ mid ++ last) = d.word ++ mid ++ last := by
  obtain ⟨cs, word, others⟩ := d.word_toList
  have start : ∀ c ∈ d.word.toList, Text.isBlank c = false := by
    rw [word]
    exact List.forall_mem_cons.mpr ⟨by decide, others⟩
  refine Text.trim_framed mid (fun none => ?_) given start unblank
  rw [none] at word
  cases word

def plainProgram (name : String) (n : Nat) (lines : List String) : List String :=
  ["@define " ++ name ++ " = " ++ toString n, "@program " ++ name] ++ (lines ++ ["@endprogram"])

section

variable {name : String} (isName : IsName name) {n : Nat} {lines : List String}

include isName

theorem lineFeed_not_mem_plainProgram (single : ∀ line ∈ lines, '\n' ∉ line.toList) :
    ∀ line ∈ plainProgram name n lines, '\n' ∉ line.toList := by
  have word : '\n' ∉ name.toList := fun mem => absurd (isName.isWordChar_of_mem _ mem) (by decide)
  have number : '\n' ∉ Nat.toDigits 10 n := Nat.toList_repr ▸ not_mem_repr (by decide) n
  intro line mem
  simp only [plainProgram, List.mem_append, List.mem_cons, List.not_mem_nil, or_false] at mem
  rcases mem with (rfl | rfl) | mem | rfl
  · simp [word, number]
  · simp [word]
  · exact single line mem
  · decide

theorem trim_plainProgram (n : Nat) (lines : List String) :
    (plainProgram name n lines).map Text.trim = plainProgram name n (lines.map Text.trim) := by
  have first : Text.trim ("@define " ++ name ++ " = " ++ toString n) =
      "@define " ++ name ++ " = " ++ toString n := by
    have whole : "@define " ++ name ++ " = " ++ toString n =
        Directive.define.word ++ (" " ++ name ++ " = ") ++ toString n := by
      rw [← String.toList_inj]
      simp [Directive.word]
    rw [whole]
    exact Directive.define.trim_line _ (by simp) fun _ => isBlank_of_mem_repr
  have second : Text.trim ("@program " ++ name) = "@program " ++ name := by
    have whole : "@program " ++ name = Directive.program.word ++ " " ++ name := by
      rw [← String.toList_inj]
      simp [Directive.word]
    rw [whole]
    exact Directive.program.trim_line _ (by simpa using isName.toList_ne_nil)
      fun c mem => Text.isBlank_of_isWordChar (isName.isWordChar_of_mem c mem)
  have last : Text.trim "@endprogram" = "@endprogram" := by decide
  simp only [plainProgram, List.map_append, List.map_cons, List.map_nil, first, second, last]

end

/-- A line feed at the end of the text is followed by one more line, which is blank. -/
theorem sourceLines_plainProgram {name : String} (isName : IsName name) {n : Nat} {lines : List String}
    (single : ∀ line ∈ lines, '\n' ∉ line.toList) {text : String}
    (joined : text = "\n".intercalate (plainProgram name n lines) ∨
      text = "\n".intercalate (plainProgram name n lines) ++ "\n") :
    ∃ blanks : List String, (∀ line ∈ blanks, line = "") ∧
      Text.sourceLines text = plainProgram name n (lines.map Text.trim) ++ blanks := by
  have given : plainProgram name n lines ≠ [] := by simp [plainProgram]
  have fed := lineFeed_not_mem_plainProgram isName (n := n) single
  rw [← trim_plainProgram isName]
  rcases joined with rfl | rfl
  · refine ⟨[], by simp, ?_⟩
    rw [Text.sourceLines_intercalate given fed, List.append_nil]
  · refine ⟨[""], by simp, ?_⟩
    have longer : "\n".intercalate (plainProgram name n lines) ++ "\n" =
        "\n".intercalate (plainProgram name n lines ++ [""]) := by
      rw [String.intercalate_append_of_ne_nil given (by simp)]
      simp
    have fed' : ∀ line ∈ plainProgram name n lines ++ [""], '\n' ∉ line.toList := by
      intro line mem
      rcases List.mem_append.mp mem with mem | mem
      · exact fed line mem
      · rw [List.mem_singleton.mp mem]
        decide
    rw [longer, Text.sourceLines_intercalate (by simp) fed', List.map_append]
    rfl

theorem Layout.render_plain {layout : Layout} (terse : layout.annotated = false) {p : Program}
    (header : p.header = []) {texts : List String} (records : List.Forall₂ Record.IsPlain p.body texts)
    (written : ∀ text ∈ texts, text ≠ "" ∧ Text.trim text = text ∧ ';' ∉ text.toList) :
    layout.render p = "\r\n".intercalate
      ([layout.leader, "O" ++ toString p.number.toInt ++ " (" ++ p.name ++ ") ;"] ++
        texts.map (· ++ " ;") ++ [layout.trailer]) := by
  rw [render, Layout.lines, terse, header, Record.filterMap_render_plain records written]
  simp

open Preprocessor in
/-- A program of plain lines, numbered by a definition before it, is processed without a diagnostic and
written as it stands, with the blanks at the ends of its lines dropped. -/
theorem plain_text_passes_through (inclusion : Inclusion) (tree : FileTree) (env : Environment)
    (layout : Layout) (source : Source) (name : String) (n : Nat) (lines : List String)
    (isName : IsName name) (positive : 1 ≤ n) (small : n < 2 ^ 63) (room : 2 ≤ env.maxDepth)
    (terse : layout.annotated = false) (single : ∀ line ∈ lines, '\n' ∉ line.toList)
    (plain : ∀ line ∈ lines, Text.IsPlain (Text.trim line))
    (text : source.text = "\n".intercalate (plainProgram name n lines) ∨
      source.text = "\n".intercalate (plainProgram name n lines) ++ "\n") :
    (processSource inclusion tree source (.start env)).log = .empty ∧
      ∃ p, (processSource inclusion tree source (.start env)).programs.programs = [p] ∧
        p.name = name ∧ p.number.toInt = n ∧
        layout.render p = "\r\n".intercalate
          ([layout.leader, "O" ++ toString n ++ " (" ++ name ++ ") ;"] ++
            ((lines.map Text.trim).filter (· ≠ "")).map (· ++ " ;") ++ [layout.trailer]) := by
  obtain ⟨blanks, blank, read⟩ := sourceLines_plainProgram isName single text
  have trimmed : ∀ line ∈ lines.map Text.trim, Text.trim line = line := by
    simp [Text.trim_trim]
  have plain' : ∀ line ∈ lines.map Text.trim, Text.IsPlain line := by simpa using plain
  obtain ⟨p, count, eq, name_eq, number_eq, header, records⟩ := processLines_plain_program
    (includerIn inclusion tree inclusion.maxDepth) source plain' trimmed blank env isName positive small room
  have processed : processSource inclusion tree source (.start env) =
      { start (env.set name (.int (Int64.ofNat n))) with
        lines := count, programs := (Catalogue.empty.insert p).2 } := by
    refine processSource_of_closed ?_ ⟨rfl, rfl, rfl, rfl, rfl⟩ rfl
    rw [read, ← eq]
    simp [plainProgram]
  -- Nothing was reported on the way, and the program that was kept is the only one.
  rw [processed]
  have number : p.number.toInt = n := by rw [number_eq, Int64.toInt_ofNat_of_lt small]
  refine ⟨rfl, p, rfl, name_eq, number, ?_⟩
  rw [Layout.render_plain terse header records, number, name_eq]
  · rfl
  · intro text mem
    obtain ⟨mem, given⟩ := List.mem_filter.mp mem
    have given : text ≠ "" := by simpa using given
    exact ⟨given, trimmed text mem, ((plain' text mem).resolve_left given).2.1⟩

def facing : List String := ["  G90 G54\t", "", "X1 é\r"]

def facingSource : Source :=
  ⟨"face.gp", none, "@define FACE = 40\n@program FACE\n  G90 G54\t\n\nX1 é\r\n@endprogram\n"⟩

open Preprocessor in
theorem facing_passes_through :
    (processSource ⟨[], 0⟩ ⟨[], []⟩ facingSource (.start .empty)).log = .empty ∧
      ∃ p, (processSource ⟨[], 0⟩ ⟨[], []⟩ facingSource (.start .empty)).programs.programs = [p] ∧
        p.name = "FACE" ∧ p.number.toInt = 40 ∧
        Layout.render {} p = "%\r\nO40 (FACE) ;\r\nG90 G54 ;\r\nX1 é ;\r\n%" := by
  have text : facingSource.text = "\n".intercalate (plainProgram "FACE" 40 facing) ++ "\n" := by
    decide +kernel
  exact plain_text_passes_through ⟨[], 0⟩ ⟨[], []⟩ .empty {} facingSource "FACE" 40 facing
    ⟨by decide, by decide, by decide⟩ (by decide) (by decide) (by decide) rfl (by decide) (by decide)
    (.inr text)

end GcodePrep
