import Fluxion.Derivative.Sequence
import Fluxion.Proofs.Derivative.Rule
import Fluxion.Proofs.Simplification.Upheld

/-!
# Invariants of differentiation

Recipes bring in small integers, and copies what was there before. All operations on the
derivatives of an expression keep an invariant that the edits uphold with such numbers. Where
compaction takes part, it has to be kept by compaction as well.
-/

namespace Fluxion

variable {σ : Type} {P : Float → Prop} {fault : Fault → Prop} {inv : Forest → Prop}

theorem Unary.numbers_recipe (op : Unary) :
    ∀ x ∈ op.recipe.numbers, x = 0 ∨ x = 1 ∨ x = 2 ∨ x = -1 := by
  cases op <;> decide

theorem Binary.numbers_recipe (op : Binary) (onLeft onRight : Bool) :
    ∀ x ∈ (op.recipe onLeft onRight).numbers, x = 0 ∨ x = 1 ∨ x = 2 ∨ x = -1 := by
  cases op <;> cases onLeft <;> cases onRight <;> decide

namespace Upheld

variable (up : Upheld P fault inv)

include up

theorem slopeOf (slopes : Array (Option Nat)) (i : Nat) :
    (Edit.slopeOf slopes i).Upholds inv fault := by
  unfold Edit.slopeOf
  split
  · exact .pure trivial
  · exact .throw up.missing

theorem follow {operand : Side → Nat} {slope : Side → Edit Nat} {recipe : Recipe}
    (slopes : ∀ side, (slope side).Upholds inv fault) (numbers : ∀ x ∈ recipe.numbers, P x) :
    (Edit.follow operand slope recipe).Upholds inv fault := by
  induction recipe with
  | number x => exact up.number x (numbers x (by simp [Recipe.numbers]))
  | operand side => exact up.copy (operand side)
  | slope side => exact slopes side
  | unary op r ih => exact .andThen (ih numbers) (up.applyUnary op)
  | binary op r s ihr ihs =>
    rw [Recipe.numbers, List.forall_mem_append] at numbers
    exact .andThen (ihr numbers.1) fun a => .andThen (ihs numbers.2) fun b =>
      up.applyBinary op a b
  | rightFirst op r s ihr ihs =>
    rw [Recipe.numbers, List.forall_mem_append] at numbers
    exact .andThen (ihs numbers.2) fun b => .andThen (ihr numbers.1) fun a =>
      up.applyBinary op a b

theorem definedKey (symbol : Char) : (Edit.definedKey symbol).Upholds inv fault := by
  intro f hf
  cases found : f.registry.findSymbol? symbol with
  | some e => simpa only [Edit.definedKey, Forest.definedKey, found] using ⟨hf, trivial⟩
  | none =>
    simpa only [Edit.definedKey, Forest.definedKey, found] using ⟨hf, up.faults _ nofun⟩

variable [Elementary] (stable : Stable P) (sink : Sink σ)

include stable

theorem deriveNode (key : Key) (depends : Array Bool) (slopes : Array (Option Nat)) (i : Nat) :
    (Watch.deriveNode sink key depends slopes i).Upholds inv fault := by
  refine .andThen (Watch.look_upholds _) fun c? => ?_
  match c? with
  | none => exact .throw up.missing
  | some (.number _) => exact .act (up.number 0 (stable.brought 0 (Or.inl rfl)))
  | some (.var k) =>
    refine .act (up.number _ (stable.brought _ ?_))
    by_cases same : k = key
    · exact Or.inr (Or.inl (if_pos same))
    · exact Or.inl (if_neg same)
  | some (.unary op a) =>
    have followed (a' : Nat) :
        (Edit.follow (fun _ => a) (fun _ => pure a') op.recipe).Upholds inv fault :=
      up.follow (fun _ => .pure trivial) fun x hx => stable.brought x (op.numbers_recipe x hx)
    exact .andThen (.act (up.slopeOf slopes a)) fun a' =>
      .andThen (.act (followed a')) fun d => .andThen (.report sink _) fun _ => .pure trivial
  | some (.binary op a b) =>
    have followed : (Edit.follow (onSides a b) (fun side => .slopeOf slopes (onSides a b side))
        (op.recipe (Forest.flag depends a) (Forest.flag depends b))).Upholds inv fault :=
      up.follow (fun side => up.slopeOf slopes _) fun x hx =>
        stable.brought x (op.numbers_recipe _ _ x hx)
    exact .andThen (.act followed) fun d => .andThen (.report sink _) fun _ => .pure trivial

theorem derive (i : Nat) (key : Key) : (Watch.derive sink i key).Upholds inv fault := by
  refine .andThen (Watch.look_upholds _) fun order => ?_
  refine .andThen (Watch.look_upholds _) fun depends => ?_
  refine .andThen (Watch.look_upholds _) fun demanded => ?_
  refine .andThen (Watch.look_upholds _) fun size => ?_
  refine .andThen (.foldlM (fun slopes _ j _ => ?_) trivial) fun slopes =>
    .act (up.slopeOf slopes i)
  unfold Watch.deriveDemanded
  by_cases demand : Forest.flag demanded j
  · rw [if_pos demand]
    exact .andThen (up.deriveNode stable sink key depends slopes j) fun _ => .pure trivial
  · rw [if_neg demand]
    exact .pure trivial

theorem differentiate (i : Nat) (key : Key) :
    (Watch.differentiate sink i key).Upholds inv fault :=
  .andThen (.act (up.requireAbsent i)) fun _ => .andThen (up.derive stable sink i key) fun d =>
    .andThen (.act (up.replace i d)) fun _ => .andThen (.report sink _) fun _ => .pure trivial

theorem differentiateRoot (symbol : Char) :
    (Watch.differentiateRoot sink symbol).Upholds inv fault :=
  .andThen (.act (up.definedKey symbol)) fun key => .andThen (.act up.rootIndex) fun root =>
    .discard (up.differentiate stable sink root key)

/-! ### Sequences of derivatives -/

variable (compact : ∀ f, inv f → inv f.compact)

include compact

theorem advance (symbol : Char) : (Watch.advance sink symbol).Upholds inv fault :=
  .andThen (up.differentiateRoot stable sink symbol) fun _ =>
    .andThen (.discard (up.simplify stable sink)) fun _ =>
      .act fun f hf => ⟨compact f hf, trivial⟩

theorem advanceTimes (symbol : Char) (n : Nat) :
    (Watch.advanceTimes sink symbol n).Upholds inv fault := by
  induction n with
  | zero => exact .pure trivial
  | succ n ih =>
    exact .andThen (up.advance stable sink compact symbol) fun _ =>
      .andThen (.act up.rootIndex) fun _ => .andThen (.report sink _) fun _ => ih

theorem differentiateTimes (symbol : Char) (n : Nat) :
    (Watch.differentiateTimes sink symbol n).Upholds inv fault :=
  .andThen (.discard (.act (up.definedKey symbol))) fun _ =>
    .andThen (.act up.rootIndex) fun _ => .andThen (.report sink _) fun _ =>
      .andThen (.discard (up.simplify stable sink)) fun _ =>
        up.advanceTimes stable sink compact symbol n

/-- The forests that are collected have the invariant. -/
theorem collect (symbol : Char) (n : Nat) : Ensures (fun w : Watched σ => inv w.forest)
    (fun gs => ∀ g ∈ gs, inv g) fault (Watch.collect sink symbol n) := by
  induction n with
  | zero => exact .pure (by simp)
  | succ n ih =>
    have now : Ensures (fun w : Watched σ => inv w.forest) inv fault (Watch.look id) :=
      .act (.look fun _ hf => hf)
    refine .andThen (up.advance stable sink compact symbol) fun _ => now.bind fun f hf => ?_
    refine ih.bind fun gs hgs => .pure ?_
    rw [List.forall_mem_cons]
    exact ⟨hf, hgs⟩

/-- Lists of derivatives. -/
theorem derivatives {f : Forest} {symbol : Char} {n : Nat} {notes notes' : σ} {gs : List Forest}
    (hf : inv f) (made : f.derivatives sink symbol n notes = .ok gs notes') : ∀ g ∈ gs, inv g := by
  have work : Ensures (fun w : Watched σ => inv w.forest) (fun gs => ∀ g ∈ gs, inv g) fault
      (do
        discard (Watch.act (.definedKey symbol))
        discard (Watch.simplify sink)
        Watch.collect sink symbol n) :=
    .andThen (.discard (.act (up.definedKey symbol))) fun _ =>
      .andThen (.discard (up.simplify stable sink)) fun _ =>
        up.collect stable sink compact symbol n
  obtain ⟨⟨gs', g⟩, notes₁, aside, made⟩ := bind_eq_ok made
  cases made
  have after := work ⟨f, notes⟩ hf
  rw [Watch.aside_eq_ok aside] at after
  exact after.2

end Upheld

end Fluxion
