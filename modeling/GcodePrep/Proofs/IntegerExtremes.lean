import GcodePrep.Proofs.EvaluationRuns
import GcodePrep.Proofs.WordRounding

set_option autoImplicit false

/-!
# Extremes of integers

The operator `<` compares words as integers, the functions `min` and `max` compare them as binary64
numbers. Of several words these give the first one that rounds like the true extreme. It is the extreme
itself where the rounding keeps the words apart, as it does up to 2^53, and another word where it merges
them.
-/

namespace GcodePrep

open Binary64

namespace Function

/-- After rounding no word is ranked before this one, and none that stands before it is its equal. -/
structure Leads (rank : Int64 → Int) (ns : List Int64) (w : Int64) : Prop where
  least : ∀ n ∈ ns, nearestInt (rank w) ≤ nearestInt (rank n)
  first : ns.find? (fun n => nearestInt (rank n) = nearestInt (rank w)) = some w

namespace Leads

variable {rank : Int64 → Int} {best n w : Int64} {ns : List Int64}

theorem single (rank : Int64 → Int) (w : Int64) : Leads rank [w] w where
  least n mem := by
    cases List.mem_singleton.mp mem
    exact Int.le_refl _
  first := by simp

theorem beaten (h : Leads rank (n :: ns) w) (less : nearestInt (rank n) < nearestInt (rank best)) :
    Leads rank (best :: n :: ns) w := by
  have below := h.least n List.mem_cons_self
  constructor
  · intro k mem
    rcases List.mem_cons.mp mem with rfl | mem
    · omega
    · exact h.least k mem
  · rw [List.find?_cons_of_neg (by simp; omega)]
    exact h.first

theorem kept (h : Leads rank (best :: ns) w) (notLess : ¬nearestInt (rank n) < nearestInt (rank best)) :
    Leads rank (best :: n :: ns) w := by
  have below := h.least best List.mem_cons_self
  constructor
  · intro k mem
    rcases List.mem_cons.mp mem with rfl | mem
    · exact below
    · rcases List.mem_cons.mp mem with rfl | mem
      · omega
      · exact h.least k (List.mem_cons_of_mem _ mem)
  · have first := h.first
    rcases Decidable.em (nearestInt (rank best) = nearestInt (rank w)) with same | differ
    · rw [List.find?_cons_of_pos (by simpa using same)] at first ⊢
      exact first
    · rw [List.find?_cons_of_neg (by simpa using differ)] at first ⊢
      rw [List.find?_cons_of_neg (by simp; omega)]
      exact first

end Leads

def Prefers (beats : Float → Float → Bool) (rank : Int64 → Int) : Prop := ∀ a b : Int64,
  beats (Float.ofInt a.toInt) (Float.ofInt b.toInt) = true ↔ nearestInt (rank a) < nearestInt (rank b)

theorem prefers_less : Prefers (fun x y => x < y) Int64.toInt := by
  intro a b
  rw [decide_eq_true_iff]
  exact ofInt_lt_iff a b

theorem prefers_greater : Prefers (fun x y => x > y) (fun n => -n.toInt) := by
  intro a b
  rw [decide_eq_true_iff, nearestInt_neg, nearestInt_neg, Int.neg_lt_neg_iff]
  exact ofInt_lt_iff b a

section

variable {rank : Int64 → Int} {beats : Float → Float → Bool}

theorem bestOf_words (prefers : Prefers beats rank) (offset : Nat) (best : Int64) (ns : List Int64) :
    ∃ w, bestOf beats offset (some (.int best)) (ns.map .int) = .ok (some (.int w)) ∧
      Leads rank (best :: ns) w := by
  induction ns generalizing best with
  | nil => exact ⟨best, rfl, .single rank best⟩
  | cons n ns ih =>
    have step : bestOf beats offset (some (.int best)) ((n :: ns).map .int) =
        bestOf beats offset (some (if beats (Float.ofInt n.toInt) (Float.ofInt best.toInt) then .int n
          else .int best)) (ns.map .int) := rfl
    rcases Decidable.em (nearestInt (rank n) < nearestInt (rank best)) with less | notLess
    · obtain ⟨w, result, leads⟩ := ih n
      rw [step, if_pos ((prefers n best).mpr less)]
      exact ⟨w, result, leads.beaten less⟩
    · obtain ⟨w, result, leads⟩ := ih best
      rw [step, if_neg (mt (prefers n best).mp notLess)]
      exact ⟨w, result, leads.kept notLess⟩

/-- Rounding keeps the order, so the word kept rounds like any word that is truly ranked first. -/
theorem extreme_words (prefers : Prefers beats rank) (name : String) (offset : Nat) {m : Int64}
    {ns : List Int64} (mem : m ∈ ns) (least : ∀ n ∈ ns, rank m ≤ rank n) :
    ∃ w, extreme name beats (ns.map .int) offset = .ok (.int w) ∧
      ns.find? (fun n => nearestInt (rank n) = nearestInt (rank m)) = some w := by
  cases ns with
  | nil => cases mem
  | cons best ns =>
    obtain ⟨w, result, leads⟩ := bestOf_words prefers offset best ns
    have among : w ∈ best :: ns := List.mem_of_find?_eq_some leads.first
    have same : nearestInt (rank w) = nearestInt (rank m) :=
      Int.le_antisymm (leads.least m mem) (nearestInt_mono (least w among))
    refine ⟨w, ?_, ?_⟩
    · show (bestOf beats offset (some (.int best)) (ns.map .int) >>= _) = _
      rw [result]
      rfl
    · rw [← same]
      exact leads.first

theorem extreme_pair (prefers : Prefers beats rank) (name : String) (offset : Nat) (a c : Int64) :
    extreme name beats [.int a, .int c] offset =
      .ok (.int (if nearestInt (rank c) < nearestInt (rank a) then c else a)) := by
  have step : extreme name beats [.int a, .int c] offset =
      .ok (if beats (Float.ofInt c.toInt) (Float.ofInt a.toInt) then .int c else .int a) := rfl
  rw [step]
  simp only [prefers c a, apply_ite Value.int]

theorem extreme_pair_eq_iff (prefers : Prefers beats rank) (name : String) (offset : Nat) (a c : Int64) :
    extreme name beats [.int a, .int c] offset = .ok (.int (if rank c < rank a then c else a)) ↔
      ¬(rank c < rank a ∧ nearestInt (rank a) = nearestInt (rank c)) := by
  rw [extreme_pair prefers]
  rcases Int.lt_or_le (rank c) (rank a) with less | atLeast
  · have rounded : nearestInt (rank c) ≤ nearestInt (rank a) := nearestInt_mono (Int.le_of_lt less)
    have distinct : a ≠ c := by
      rintro rfl
      omega
    rw [if_pos less]
    rcases Int.lt_or_eq_of_le rounded with apart | merged
    · rw [if_pos apart]
      exact iff_of_true rfl fun both => by omega
    · rw [if_neg (by omega)]
      refine iff_of_false (fun eq => distinct ?_) fun neither => neither ⟨less, merged.symm⟩
      cases eq
      rfl
  · have rounded : nearestInt (rank a) ≤ nearestInt (rank c) := nearestInt_mono atLeast
    rw [if_neg (by omega), if_neg (by omega)]
    exact iff_of_true rfl fun both => by omega

end

def firstLike (m : Int64) (ns : List Int64) : Int64 :=
  (ns.find? fun n => nearestInt n.toInt = nearestInt m.toInt).getD m

theorem firstLike_of_small {m : Int64} {ns : List Int64} (mem : m ∈ ns)
    (small : ∀ n ∈ ns, n.toInt.natAbs ≤ 2 ^ 53) : firstLike m ns = m := by
  unfold firstLike
  cases found : ns.find? fun n => nearestInt n.toInt = nearestInt m.toInt with
  | none => rfl
  | some w =>
    have same : nearestInt w.toInt = nearestInt m.toInt := by simpa using List.find?_some found
    rw [nearestInt_eq_self (small w (List.mem_of_find?_eq_some found)),
      nearestInt_eq_self (small m mem)] at same
    exact Int64.toInt_inj.mp same

theorem call_max_words {m : Int64} {ns : List Int64} (mem : m ∈ ns)
    (greatest : ∀ n ∈ ns, n.toInt ≤ m.toInt) (offset : Nat) :
    call "max" (ns.map .int) offset = .ok (.int (firstLike m ns)) := by
  obtain ⟨w, result, first⟩ := extreme_words prefers_greater "max" offset mem
    fun n among => Int.neg_le_neg (greatest n among)
  simp only [nearestInt_neg, Int.neg_inj] at first
  rw [firstLike, first]
  exact result

theorem call_min_words {m : Int64} {ns : List Int64} (mem : m ∈ ns)
    (least : ∀ n ∈ ns, m.toInt ≤ n.toInt) (offset : Nat) :
    call "min" (ns.map .int) offset = .ok (.int (firstLike m ns)) := by
  obtain ⟨w, result, first⟩ := extreme_words prefers_less "min" offset mem least
  rw [firstLike, first]
  exact result

theorem call_max_pair_eq_iff (a c : Int64) (offset : Nat) :
    call "max" [.int a, .int c] offset = .ok (.int (if a.toInt < c.toInt then c else a)) ↔
      ¬(a.toInt < c.toInt ∧ nearestInt a.toInt = nearestInt c.toInt) := by
  have exact := extreme_pair_eq_iff prefers_greater "max" offset a c
  simp only [nearestInt_neg, Int.neg_inj, Int.neg_lt_neg_iff] at exact
  exact exact

theorem call_min_pair_eq_iff (a c : Int64) (offset : Nat) :
    call "min" [.int a, .int c] offset = .ok (.int (if c.toInt < a.toInt then c else a)) ↔
      ¬(c.toInt < a.toInt ∧ nearestInt a.toInt = nearestInt c.toInt) :=
  extreme_pair_eq_iff prefers_less "min" offset a c

end Function

namespace Expr

/-- The expression has this value under the bindings and leaves them as they are. -/
def Stands (e : Expr) (b : Bindings) (v : Value) : Prop := Eval.on e.eval b = (.ok v, b)

theorem on_call_pair {e₁ e₂ : Expr} {b : Bindings} {v₁ v₂ : Value} (h₁ : e₁.Stands b v₁)
    (h₂ : e₂.Stands b v₂) (name : String) (offset : Nat) :
    Eval.on (call name [e₁, e₂] offset).eval b = (Function.call name [v₁, v₂] offset, b) := by
  unfold Stands at h₁ h₂
  simp only [eval, evalAll, Eval.on_bind, h₁, h₂, Eval.on_liftExcept]
  rfl

theorem on_choice_by_order {e₁ e₂ yes no : Expr} {b : Bindings} {a c : Int64} {y n : Value}
    (h₁ : e₁.Stands b (.int a)) (h₂ : e₂.Stands b (.int c)) (hy : yes.Stands b y) (hn : no.Stands b n)
    (offset : Nat) : Eval.on (choice (binary .lt e₁ e₂ offset) yes no).eval b =
      (.ok (if a.toInt < c.toInt then y else n), b) := by
  have less : BinaryOp.apply .lt (.int a) (.int c) offset =
      .ok (.bool (compare a.toInt c.toInt).isLT) := rfl
  unfold Stands at h₁ h₂
  simp only [eval, Eval.on_bind, h₁, h₂, Eval.on_liftExcept, less, Value.isTruthy,
    Ordering.isLT_iff_eq_lt, Int.compare_eq_lt]
  split
  · exact hy
  · exact hn

theorem on_choice_less {e₁ e₂ yes no : Expr} {b : Bindings} {a c y n : Int64} (h₁ : e₁.Stands b (.int a))
    (h₂ : e₂.Stands b (.int c)) (hy : yes.Stands b (.int y)) (hn : no.Stands b (.int n)) (offset : Nat) :
    Eval.on (choice (binary .lt e₁ e₂ offset) yes no).eval b =
      (.ok (.int (if a.toInt < c.toInt then y else n)), b) := by
  rw [on_choice_by_order h₁ h₂ hy hn, apply_ite Value.int]

end Expr

namespace Function

/-- The functions give the first argument that rounds like the true extreme, which is the extreme itself
among words up to 2^53. On a pair they agree with a choice by `<` exactly where the choice does not take the
second of two words that round alike. -/
theorem extremes_agree_up_to_rounding (offset : Nat) :
    (∀ (ns : List Int64) (m : Int64), m ∈ ns → (∀ n ∈ ns, n.toInt ≤ m.toInt) →
      call "max" (ns.map .int) offset = .ok (.int (firstLike m ns))) ∧
    (∀ (ns : List Int64) (m : Int64), m ∈ ns → (∀ n ∈ ns, m.toInt ≤ n.toInt) →
      call "min" (ns.map .int) offset = .ok (.int (firstLike m ns))) ∧
    (∀ (ns : List Int64) (m : Int64), m ∈ ns → (∀ n ∈ ns, n.toInt.natAbs ≤ 2 ^ 53) →
      firstLike m ns = m) ∧
    ∀ (e₁ e₂ : Expr) (b : Bindings) (a c : Int64) (place : Nat), e₁.Stands b (.int a) →
      e₂.Stands b (.int c) →
      (Eval.on (Expr.call "max" [e₁, e₂] offset).eval b =
          Eval.on (Expr.choice (.binary .lt e₁ e₂ place) e₂ e₁).eval b ↔
        ¬(a.toInt < c.toInt ∧ nearestInt a.toInt = nearestInt c.toInt)) ∧
      (Eval.on (Expr.call "min" [e₁, e₂] offset).eval b =
          Eval.on (Expr.choice (.binary .lt e₂ e₁ place) e₂ e₁).eval b ↔
        ¬(c.toInt < a.toInt ∧ nearestInt a.toInt = nearestInt c.toInt)) := by
  refine ⟨fun ns m mem greatest => call_max_words mem greatest offset,
    fun ns m mem least => call_min_words mem least offset, fun ns m => firstLike_of_small, ?_⟩
  intro e₁ e₂ b a c place h₁ h₂
  rw [Expr.on_call_pair h₁ h₂, Expr.on_call_pair h₁ h₂, Expr.on_choice_less h₁ h₂ h₂ h₁,
    Expr.on_choice_less h₂ h₁ h₂ h₁]
  simp only [Prod.mk.injEq, and_true]
  exact ⟨call_max_pair_eq_iff a c offset, call_min_pair_eq_iff a c offset⟩

theorem extremes_of_neighbours :
    call "max" [.int 5, .int 9007199254740993, .int 9007199254740992] 0 =
      .ok (.int 9007199254740993) ∧
    call "min" [.int 9007199254740993, .int 9007199254740992] 0 = .ok (.int 9007199254740993) ∧
    firstLike (-7) [3, -7] = -7 ∧
    Eval.on (Expr.call "max" [.literal (.int 3) 4, .literal (.int 7) 7] 0).eval .empty =
      Eval.on (Expr.choice (.binary .lt (.literal (.int 3) 4) (.literal (.int 7) 7) 5)
        (.literal (.int 7) 7) (.literal (.int 3) 4)).eval .empty := by
  obtain ⟨greatest, least, small, pair⟩ := extremes_agree_up_to_rounding 0
  have max := greatest [5, 9007199254740993, 9007199254740992] 9007199254740993 (by decide) (by
    simp only [List.forall_mem_cons]
    exact ⟨by decide, by decide, by decide, nofun⟩)
  have min := least [9007199254740993, 9007199254740992] 9007199254740992 (by decide) (by
    simp only [List.forall_mem_cons]
    exact ⟨by decide, by decide, nofun⟩)
  have exact := small [3, -7] (-7) (by decide) (by
    simp only [List.forall_mem_cons]
    exact ⟨by decide, by decide, nofun⟩)
  have itself : firstLike 9007199254740993 [5, 9007199254740993, 9007199254740992] = 9007199254740993 := by
    decide
  have other : firstLike 9007199254740992 [9007199254740993, 9007199254740992] = 9007199254740993 := by
    decide
  have three : (Expr.literal (.int 3) 4).Stands .empty (.int 3) := rfl
  have seven : (Expr.literal (.int 7) 7).Stands .empty (.int 7) := rfl
  rw [itself] at max
  rw [other] at min
  exact ⟨max, min, exact, (pair _ _ _ 3 7 5 three seven).1.mpr (by decide)⟩

/-- The greater of two neighbours is not found: both round to the smaller one. -/
theorem neighbours_merged :
    Eval.on (Expr.evaluate "max(9007199254740992, 9007199254740993)" 64) .empty =
      (.ok (.int 9007199254740992), .empty) ∧
    Eval.on (Expr.evaluate
      "9007199254740992 < 9007199254740993 ? 9007199254740993 : 9007199254740992" 64) .empty =
      (.ok (.int 9007199254740993), .empty) := by
  constructor <;> rfl

end Function

end GcodePrep
