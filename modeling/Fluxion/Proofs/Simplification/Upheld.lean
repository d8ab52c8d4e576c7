import Fluxion.Proofs.Arithmetic.Ordinary
import Fluxion.Proofs.Forest.Upheld
import Fluxion.Proofs.Simplification.Identity

/-!
# Invariants of simplification

A number that takes the place of a node is the result of an operation that raised no signal, or
it is 0 or 1. So a property of numbers that operations keep is kept by simplification, and with
it every invariant that the edits uphold.
-/

namespace Fluxion

variable [Elementary] {σ : Type} {P : Float → Prop} {fault : Fault → Prop}
  {inv : Forest → Prop} {f : Forest}

/-- Operations that raise no signal keep the property, and the numbers of identities and of
derivatives have it. -/
structure Stable (P : Float → Prop) : Prop where
  unary : ∀ (op : Unary) (x v : Float), P x → op.apply x = .ok v → P v
  binary : ∀ (op : Binary) (x y v : Float), P x → P y → op.apply x y = .ok v → P v
  brought : ∀ x : Float, x = 0 ∨ x = 1 ∨ x = 2 ∨ x = -1 → P x

theorem ordinary_stable : Stable Ordinary where
  unary _ _ _ hx h := Unary.ordinary_apply hx.1 h
  binary _ _ _ _ hx hy h := Binary.ordinary_apply hx.1 hy.1 h
  brought := by
    rintro x (rfl | rfl | rfl | rfl)
    all_goals decide

theorem true_stable : Stable fun _ => True := ⟨by simp, by simp, by simp⟩

theorem Forest.Numbers.reduct? (stable : Stable P) (h : f.Numbers P) {i : Nat} {v : Float}
    (hv : f.reduct? i = .ok (some (.number v))) : P v := by
  have number {j : Nat} {x : Float} (hx : f.number? j = some x) : P x := by
    unfold Forest.number? at hx
    split at hx
    · next y hy =>
      cases hx
      exact h j x hy
    · cases hx
  unfold Forest.reduct? at hv
  split at hv
  · next op a _ =>
    split at hv
    · next x hx =>
      obtain ⟨w, result, same⟩ := Except.map_eq_ok_iff.mp hv
      cases same
      exact stable.unary op x v (number hx) result
    · cases hv
  · next op a b _ =>
    split at hv
    · next x y hx hy =>
      obtain ⟨w, result, same⟩ := Except.map_eq_ok_iff.mp hv
      cases same
      exact stable.binary op x y v (number hx) (number hy) result
    · simp only [Except.ok.injEq, Option.map_eq_some_iff] at hv
      obtain ⟨e, identity, remainder⟩ := hv
      cases e with
      | constant c =>
        cases remainder
        apply stable.brought
        rcases Binary.constant_of_identity? identity with zero | one
        · exact Or.inl zero
        · exact Or.inr (Or.inl one)
      | left => cases remainder
      | right => cases remainder
  · cases hv

/-- The change keeps the invariant of the forest, and fails with these faults only. -/
abbrev Watch.Upholds {α : Type} (inv : Forest → Prop) (fault : Fault → Prop) (x : Watch σ α) :
    Prop :=
  Ensures (fun w => inv w.forest) (fun _ => True) fault x

omit [Elementary] in
theorem Watch.look_upholds {α : Type} (view : Forest → α) :
    (look view : Watch σ α).Upholds inv fault :=
  .act (.look fun _ _ => trivial)

namespace Upheld

variable (up : Upheld P fault inv) (stable : Stable P) (sink : Sink σ)

include up stable

theorem reduceNode (count i : Nat) : (Watch.reduceNode sink count i).Upholds inv fault := by
  have reduct : Ensures (fun w : Watched σ => inv w.forest)
      (fun r => ∀ v, r = .ok (some (.number v)) → P v) fault (Watch.look (·.reduct? i)) :=
    .act (.look fun f hf v hv => (up.numbers f hf).reduct? stable hv)
  refine reduct.bind fun r hr => ?_
  match r with
  | .error cause => exact .andThen (.report sink _) fun _ => .pure trivial
  | .ok none => exact .pure trivial
  | .ok (some (.node j)) =>
    exact .andThen (.act (up.replace i j)) fun _ => .pure trivial
  | .ok (some (.number v)) =>
    have replaced : (do Edit.replace i (← Edit.number v) : Edit Unit).Upholds inv fault :=
      .andThen (up.number v (hr v rfl)) fun j => up.replace i j
    exact .andThen (.act replaced) fun _ => .pure trivial

theorem simplifyPass : (Watch.simplifyPass sink).Upholds inv fault :=
  .andThen (.act up.rootIndex) fun _ => .andThen (Watch.look_upholds _) fun _ =>
    .foldlM (fun count _ i _ => up.reduceNode stable sink count i) trivial

theorem simplifyPasses (passes total : Nat) :
    (Watch.simplifyPasses sink passes total).Upholds inv fault := by
  induction passes generalizing total with
  | zero => exact .throw (up.faults _ nofun)
  | succ passes ih =>
    refine .andThen (up.simplifyPass stable sink) fun count => ?_
    by_cases settled : count = 0
    · rw [if_pos settled]
      exact .pure trivial
    · rw [if_neg settled]
      exact ih _

theorem simplify : (Watch.simplify sink).Upholds inv fault := by
  refine .andThen (Watch.look_upholds _) fun limit => ?_
  refine .andThen (up.simplifyPasses stable sink limit 0) fun total => ?_
  by_cases changed : total > 0
  · rw [if_pos changed]
    exact .andThen (.act up.rootIndex) fun root => .andThen (.report sink _) fun _ => .pure trivial
  · rw [if_neg changed]
    exact .pure trivial

end Upheld

end Fluxion
