import GcodePrep.Proofs.FaultPlaces
import GcodePrep.Proofs.ParserSeams
import GcodePrep.Proofs.TokenSeams

set_option autoImplicit false

/-!
# Chaining is sequential composition

Two source texts with a semicolon between them are read and evaluated one after the other: the second
starts with the bindings the first leaves, and is not evaluated when the first fails. Nothing else is
different for it but the place in the source, which shows in the offset of its fault.
-/

namespace GcodePrep

namespace Expr

open Eval Grammar

theorem on_chain_one (e : Expr) (b : Bindings) : (chain [e]).eval.on b = e.eval.on b := by
  rw [eval, on_bind, evalAll, on_bind]
  rcases e.eval.on b with ⟨fault | v, c⟩ <;> rfl

theorem on_chain_cons (e : Expr) {es : List Expr} (more : es ≠ []) (b : Bindings) :
    (chain (e :: es)).eval.on b = match e.eval.on b with
      | (.ok _, c) => (chain es).eval.on c
      | (.error fault, c) => (.error fault, c) := by
  rw [eval, on_bind, evalAll, on_bind]
  rcases e.eval.on b with ⟨fault | v, c⟩
  · rfl
  · dsimp only
    rw [eval, on_bind, on_bind]
    rcases later : (evalAll es).on c with ⟨fault | vs, c'⟩
    · rfl
    · have some_values := evalAll_ne_nil more (congrArg Prod.fst later)
      obtain ⟨w, ws, rfl⟩ := List.exists_cons_of_ne_nil some_values
      rfl

theorem on_chain_append {es es' : List Expr} (some_items : es ≠ []) (more : es' ≠ []) (b : Bindings) :
    (chain (es ++ es')).eval.on b = match (chain es).eval.on b with
      | (.ok _, c) => (chain es').eval.on c
      | (.error fault, c) => (.error fault, c) := by
  induction es generalizing b with
  | nil => exact absurd rfl some_items
  | cons e es ih =>
    rw [List.cons_append, on_chain_cons e (by simp [more])]
    cases es with
    | nil => rw [List.nil_append, on_chain_one]
    | cons e' es =>
      rw [on_chain_cons e (List.cons_ne_nil _ _)]
      rcases e.eval.on b with ⟨fault | v, c⟩
      · rfl
      · exact ih (List.cons_ne_nil _ _) c

theorem on_sequenceTree {es : List Expr} (some_items : es ≠ []) (b : Bindings) :
    (sequenceTree es).eval.on b = (chain es).eval.on b := by
  match es, some_items with
  | [e], _ => exact (on_chain_one e b).symm
  | _ :: _ :: _, _ => rfl

theorem parse_eq_ok_iff {s : String} {depth : Nat} {e : Expr} :
    parse s depth = .ok e ↔
      ∃ ts, Token.lexemes s = .ok ts ∧ Parser.ofLexemes ⟨depth, s.utf8ByteSize⟩ ts = .ok e := by
  unfold parse
  cases Token.lexemes s <;> simp

theorem parse_join {s t : String} {depth : Nat} {e e' : Expr} (h : parse s depth = .ok e)
    (h' : parse t depth = .ok e') :
    ∃ items items', items ≠ [] ∧ items' ≠ [] ∧ e = sequenceTree items ∧ e' = sequenceTree items' ∧
      parse (s ++ ";" ++ t) depth =
        .ok (sequenceTree (items ++ shiftAll (s.utf8ByteSize + 1) items')) := by
  obtain ⟨ts, lexed, parsed⟩ := parse_eq_ok_iff.mp h
  obtain ⟨us, lexed', parsed'⟩ := parse_eq_ok_iff.mp h'
  obtain ⟨items, items', some_items, some_items', eq, eq', joined⟩ :=
    Parser.ofLexemes_join parsed parsed' (s ++ ";" ++ t).utf8ByteSize s.utf8ByteSize (s.utf8ByteSize + 1)
  exact ⟨items, items', some_items, some_items', eq, eq',
    parse_eq_ok_iff.mpr ⟨_, Token.lexemes_join lexed lexed', joined⟩⟩

theorem evaluate_eq {s : String} {depth : Nat} {e : Expr} (h : parse s depth = .ok e) :
    evaluate s depth = e.eval := by
  rw [evaluate, h]

theorem on_shift (n : Nat) (e : Expr) (b : Bindings) :
    (e.shift n).eval.on b = ((e.eval.on b).1.mapError (Fault.shift n), (e.eval.on b).2) := by
  have coupling : Coupling Eq e.names e.targets :=
    ⟨fun same name _ => by rw [same], fun same name _ v => by rw [same]⟩
  obtain ⟨same, after⟩ :=
    tracks_eval coupling n e (List.Subset.refl _) (List.Subset.refl _) b b rfl
  exact Prod.ext same after.symm

/-- Evaluating two accepted sources with a semicolon between them evaluates the first and then, if that
has a value, the second from where the first has left the environment. A fault of the first is kept as
it is; a fault of the second, which always has a place, is moved behind the first and the semicolon. -/
theorem evaluation_of_joined_sources (env : Environment) (depth : Nat) (s t : String) (e e' : Expr)
    (accepted : parse s depth = .ok e) (accepted' : parse t depth = .ok e') :
    (env.run (evaluate (s ++ ";" ++ t) depth) =
      match env.run (evaluate s depth) with
      | (.error fault, middle) => (.error fault, middle)
      | (.ok _, middle) => match middle.run (evaluate t depth) with
        | (.ok v, final) => (.ok v, final)
        | (.error fault, final) => (.error (fault.shift (s.utf8ByteSize + 1)), final)) ∧
    ∀ (middle : Environment) (fault : Fault), (middle.run (evaluate t depth)).1 = .error fault →
      ∃ offset, fault.offset = some offset ∧
        (fault.shift (s.utf8ByteSize + 1)).offset = some (offset + (s.utf8ByteSize + 1)) := by
  constructor
  · obtain ⟨items, items', some_items, some_items', rfl, rfl, joined⟩ := parse_join accepted accepted'
    have moved := on_shift (s.utf8ByteSize + 1) (chain items')
    rw [shift] at moved
    have some_moved : shiftAll (s.utf8ByteSize + 1) items' ≠ [] := by
      cases items' with
      | nil => exact absurd rfl some_items'
      | cons => nofun
    simp only [evaluate_eq accepted, evaluate_eq accepted', evaluate_eq joined, Environment.run_eq]
    rw [on_sequenceTree (by simp [some_items]), on_chain_append some_items some_moved,
      on_sequenceTree some_items]
    rcases (chain items).eval.on env.bindings with ⟨fault | v, b⟩
    · rfl
    · dsimp only
      rw [on_sequenceTree some_items', moved]
      rcases (chain items').eval.on b with ⟨fault | w, c⟩ <;> rfl
  · intro middle fault failed
    rw [evaluate_eq accepted'] at failed
    obtain ⟨offset, eq⟩ := located_eval e' (parse_filled accepted') middle.bindings fault failed
    exact ⟨offset, eq, by simp [Fault.shift, eq]⟩

/-- The first source ends in a separator and takes nine bytes in eight characters; the second begins with
one and fails at its second byte. -/
theorem joined_sources_fail_behind_first :
    parse "A = 'é';" 2 = .ok (.assign .set "A" (.literal (.str "é") 4) 0) ∧
      parse ";B" 2 = .ok (.symbol "B" 1) ∧
      (Environment.empty.run (evaluate "A = 'é';;;B" 2)).1 = .error (.atOffset (.undefined "B") 11) ∧
      (Environment.empty.run (evaluate "A = 'é';;;B" 2)).2.get? "A" = some (.str "é") := by
  have accepted : parse "A = 'é';" 2 = .ok (.assign .set "A" (.literal (.str "é") 4) 0) := rfl
  have accepted' : parse ";B" 2 = .ok (.symbol "B" 1) := rfl
  have joined := (evaluation_of_joined_sources .empty 2 _ _ _ _ accepted accepted').1
  have whole : "A = 'é';" ++ ";" ++ ";B" = "A = 'é';;;B" := rfl
  have size : "A = 'é';".utf8ByteSize = 9 := rfl
  simp only [whole, size, evaluate_eq accepted, evaluate_eq accepted'] at joined
  rw [joined]
  exact ⟨accepted, accepted', rfl, rfl⟩

end Expr

end GcodePrep
