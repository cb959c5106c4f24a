import GcodePrep.Text.Split
import GcodePrep.Text.Word
import Mathlib.Data.List.DropRight

set_option autoImplicit false

/-!
# Lines joined to a text

Lines without line feeds, joined by line feeds, are read back as they are but for the blanks at their
ends. A line that neither begins nor ends with a blank has none to lose.
-/

namespace GcodePrep.Text

theorem dropBlanksEnd_trimmed (cs : List Char) : dropBlanksEnd (trimmed cs) = trimmed cs :=
  List.rdropWhile_idempotent isBlank (dropBlanks cs)

theorem dropBlanks_eq_self {cs : List Char} (first : ∀ c, cs.head? = some c → isBlank c = false) :
    dropBlanks cs = cs := by
  cases cs with
  | nil => rfl
  | cons c cs => exact List.dropWhile_cons_of_neg (by rw [first c rfl]; decide)

theorem dropBlanks_trimmed (cs : List Char) : dropBlanks (trimmed cs) = trimmed cs := by
  refine dropBlanks_eq_self fun c first => ?_
  obtain ⟨more, whole⟩ : trimmed cs <+: dropBlanks cs := List.rdropWhile_prefix isBlank _
  have visible : (cs.dropWhile isBlank).head? = some c := by
    rw [← dropBlanks, ← whole, List.head?_append, first, Option.some_or]
  exact not_of_head?_dropWhile visible

theorem trimmed_trimmed (cs : List Char) : trimmed (trimmed cs) = trimmed cs := by
  rw [trimmed, dropBlanks_trimmed, dropBlanksEnd_trimmed]

theorem trim_trim (s : String) : trim (trim s) = trim s := by
  simp only [trim, String.toList_ofList, trimmed_trimmed]

theorem trim_eq_self {s : String} (first : ∀ c, s.toList.head? = some c → isBlank c = false)
    (last : ∀ c, s.toList.getLast? = some c → isBlank c = false) : trim s = s := by
  have ending : dropBlanksEnd s.toList = s.toList := by
    refine List.rdropWhile_eq_self_iff.mpr fun given => ?_
    rw [last _ (List.getLast?_eq_some_getLast given)]
    decide
  rw [trim, trimmed, dropBlanks_eq_self first, ending, String.ofList_toList]

theorem trim_framed {s t : String} (mid : String) (given : s ≠ "") (given' : t ≠ "")
    (first : ∀ c ∈ s.toList, isBlank c = false) (last : ∀ c ∈ t.toList, isBlank c = false) :
    trim (s ++ mid ++ t) = s ++ mid ++ t := by
  refine trim_eq_self (fun c eq => first c ?_) (fun c eq => last c ?_)
  · rw [String.append_assoc, String.toList_append, List.head?_append_of_ne_nil _ (by simpa using given)] at eq
    exact List.mem_of_head? eq
  · rw [String.toList_append, List.getLast?_append_of_ne_nil _ (by simpa using given')] at eq
    exact List.mem_of_getLast? eq

theorem isBlank_of_isWordChar {c : Char} (h : isWordChar c = true) : isBlank c = false := by
  have between {lo hi : UInt32} (inside : lo ≤ c.val ∧ c.val ≤ hi) (low : 48 ≤ lo.toNat)
      (high : hi.toNat ≤ 122) : 48 ≤ c.toNat ∧ c.toNat ≤ 122 :=
    ⟨Nat.le_trans low (UInt32.le_iff_toNat_le.mp inside.1),
      Nat.le_trans (UInt32.le_iff_toNat_le.mp inside.2) high⟩
  have range : 48 ≤ c.toNat ∧ c.toNat ≤ 122 := by
    simp only [isWordChar, Char.isAlphanum, Bool.or_eq_true, beq_iff_eq] at h
    rcases h with (letter | digit) | rfl
    · rcases Bool.or_eq_true_iff.mp letter with upper | lower
      · exact between (of_decide_eq_true upper) (by decide) (by decide)
      · obtain ⟨low, high⟩ := Bool.and_eq_true_iff.mp lower
        exact between ⟨of_decide_eq_true low, of_decide_eq_true high⟩ (by decide) (by decide)
    · obtain ⟨low, high⟩ := Bool.and_eq_true_iff.mp digit
      exact between ⟨of_decide_eq_true low, of_decide_eq_true high⟩ (by decide) (by decide)
    · decide
  -- All ranges of blanks end before the digits or begin behind the letters.
  have apart : ∀ r ∈ blankRanges, r.2 < 48 ∨ 122 < r.1 := by decide
  rw [← Bool.not_eq_true]
  intro blank
  obtain ⟨r, mem, inside⟩ := List.any_eq_true.mp blank
  have outside := apart r mem
  simp only [Bool.and_eq_true, decide_eq_true_eq] at inside
  omega

theorem trim_of_isIdentifier {s : String} (h : isIdentifier s = true) : trim s = s := by
  have nonblank {c : Char} (mem : c ∈ s.toList) : isBlank c = false :=
    isBlank_of_isWordChar (isWordChar_of_isIdentifier h c mem)
  exact trim_eq_self (fun _ first => nonblank (List.mem_of_head? first))
    (fun _ last => nonblank (List.mem_of_getLast? last))

theorem piecesAt_of_not_mem {sep : Char} {cs : List Char} (h : sep ∉ cs) : piecesAt sep cs = [cs] := by
  induction cs with
  | nil => rfl
  | cons c cs ih =>
    obtain ⟨first, others⟩ := not_or.mp (List.mem_cons.not.mp h)
    simp [piecesAt, Ne.symm first, ih others]

theorem piecesAt_append {sep : Char} {cs : List Char} (h : sep ∉ cs) (rest : List Char) :
    piecesAt sep (cs ++ sep :: rest) = cs :: piecesAt sep rest := by
  induction cs with
  | nil => simp [piecesAt]
  | cons c cs ih =>
    obtain ⟨first, others⟩ := not_or.mp (List.mem_cons.not.mp h)
    simp [piecesAt, Ne.symm first, ih others]

theorem piecesAt_intercalate {sep : Char} {pieces : List (List Char)} (given : pieces ≠ [])
    (h : ∀ piece ∈ pieces, sep ∉ piece) : piecesAt sep (List.intercalate [sep] pieces) = pieces := by
  induction pieces with
  | nil => exact absurd rfl given
  | cons piece rest ih =>
    obtain ⟨first, others⟩ := List.forall_mem_cons.mp h
    cases rest with
    | nil => simpa using piecesAt_of_not_mem first
    | cons next rest =>
      rw [List.intercalate_cons_cons, List.append_assoc, List.singleton_append, piecesAt_append first,
        ih (List.cons_ne_nil _ _) others]

theorem sourceLines_intercalate {lines : List String} (given : lines ≠ [])
    (single : ∀ line ∈ lines, '\n' ∉ line.toList) :
    sourceLines ("\n".intercalate lines) = lines.map trim := by
  have chars : ("\n".intercalate lines).toList = List.intercalate ['\n'] (lines.map String.toList) :=
    String.toList_intercalate
  rw [sourceLines, chars, piecesAt_intercalate (by simpa using given) (by simpa using single), List.map_map]
  rfl

end GcodePrep.Text
