import Fluxion.Proofs.Sequencing
import Fluxion.Simplification
import Fluxion.Term

/-!
# Simplification of terms

What a pass does, as recursion on the term: operands first, then their operator. Each
replacement makes the term smaller, so passes are repeated only so often.
-/

namespace Fluxion

namespace Term

variable {ν : Type}

def number? : Term ν → Option Float
  | number x => some x
  | _ => none

theorem number?_eq_some {t : Term ν} {x : Float} : t.number? = some x ↔ t = number x := by
  cases t <;> simp [number?]

theorem number?_eq_none_of_notBoth {s t : Term ν}
    (notBoth : ∀ x y, s = number x → t ≠ number y) : s.number? = none ∨ t.number? = none := by
  cases hs : s.number? with
  | none => exact Or.inl rfl
  | some x =>
    cases ht : t.number? with
    | none => exact Or.inr rfl
    | some y => exact absurd (number?_eq_some.mp ht) (notBoth x y (number?_eq_some.mp hs))

theorem size_pos (t : Term ν) : 0 < t.size := by
  cases t <;> simp [size]

variable [Elementary]

/-- What the visit of its top leaves of the term, if it is replaced; or the signal that
folding it raises. -/
def remainder? : Term ν → Except NumericFault (Option Remainder)
  | unary op t =>
    match t.number? with
    | some x => (op.apply x).map fun v => some (.constant v)
    | none => .ok none
  | binary op s t =>
    match s.number?, t.number? with
    | some x, some y => (op.apply x y).map fun v => some (.constant v)
    | x?, y? => .ok (op.identity? x? y?)
  | _ => .ok none

/-- The number or the operand that is left. -/
def leave : Term ν → Remainder → Term ν
  | _, .constant v => number v
  | binary _ s _, .left => s
  | binary _ _ t, .right => t
  | t, _ => t

/-- The term after the visit of its top. -/
def reduce (t : Term ν) : Term ν :=
  match t.remainder? with
  | .ok (some r) => t.leave r
  | _ => t

/-- The replacements at the visit of its top, none or one. -/
def reductions (t : Term ν) : Nat :=
  match t.remainder? with
  | .ok (some _) => 1
  | _ => 0

/-- The term after one pass. -/
def pass : Term ν → Term ν
  | unary op t => (unary op t.pass).reduce
  | binary op s t => (binary op s.pass t.pass).reduce
  | leaf => leaf

/-- The replacements of one pass. -/
def passReductions : Term ν → Nat
  | unary op t => t.passReductions + (unary op t.pass).reductions
  | binary op s t =>
    t.passReductions + s.passReductions + (binary op s.pass t.pass).reductions
  | _ => 0

/-- The term after passes that are repeated until one of them replaces nothing. -/
def settle : Nat → Term ν → Term ν
  | 0, t => t
  | passes + 1, t => if t.passReductions = 0 then t.pass else settle passes t.pass

/-- What holds at every visit of a pass, which finds an operator on what its operands have
become. -/
def EveryTop (P : Term ν → Prop) : Term ν → Prop
  | unary op t => t.EveryTop P ∧ P (unary op t.pass)
  | binary op s t => t.EveryTop P ∧ s.EveryTop P ∧ P (binary op s.pass t.pass)
  | _ => True

/-- A replacement has one of two causes: an operation on numbers that raises no signal, or
an identity. -/
theorem remainder?_unary {op : Unary} {t : Term ν} {r : Remainder}
    (h : (unary op t).remainder? = .ok (some r)) :
    ∃ x v, t = number x ∧ op.apply x = .ok v ∧ r = .constant v := by
  rw [remainder?] at h
  split at h
  · next x hx =>
    obtain ⟨v, hv, same⟩ := Except.map_eq_ok_iff.mp h
    exact ⟨x, v, number?_eq_some.mp hx, hv, (Option.some.inj same).symm⟩
  · simp at h

theorem remainder?_binary {op : Binary} {s t : Term ν} {r : Remainder}
    (h : (binary op s t).remainder? = .ok (some r)) :
    (∃ x y v, s = number x ∧ t = number y ∧ op.apply x y = .ok v ∧ r = .constant v) ∨
    ((∀ x y, s = number x → t ≠ number y) ∧ op.identity? s.number? t.number? = some r) := by
  rw [remainder?] at h
  split at h
  · next x y hx hy =>
    obtain ⟨v, hv, same⟩ := Except.map_eq_ok_iff.mp h
    exact Or.inl ⟨x, y, v, number?_eq_some.mp hx, number?_eq_some.mp hy, hv,
      (Option.some.inj same).symm⟩
  · next notBoth =>
    refine Or.inr ⟨fun x y hs ht => ?_, by simpa using h⟩
    exact notBoth x y (number?_eq_some.mpr hs) (number?_eq_some.mpr ht)

/-- Where one operand is not a number, all depends on the identities. -/
theorem remainder?_of_number?_eq_none {op : Binary} {s t : Term ν}
    (h : s.number? = none ∨ t.number? = none) :
    (binary op s t).remainder? = .ok (op.identity? s.number? t.number?) := by
  rw [remainder?]
  split
  · next x y hx hy =>
    rcases h with h | h
    · rw [h] at hx
      cases hx
    · rw [h] at hy
      cases hy
  · rfl

theorem size_leave {t : Term ν} {r : Remainder} (h : t.remainder? = .ok (some r)) :
    (t.leave r).size + 1 ≤ t.size := by
  cases t with
  | number x => simp [remainder?] at h
  | var n => simp [remainder?] at h
  | unary op t =>
    obtain ⟨x, v, rfl, -, rfl⟩ := remainder?_unary h
    simp [leave, size]
  | binary op s t =>
    have hs := s.size_pos
    have ht := t.size_pos
    cases r <;> simp only [leave, size] <;> omega

theorem size_reduce (t : Term ν) : t.reduce.size + t.reductions ≤ t.size := by
  unfold reduce reductions
  split
  · next r h => exact size_leave h
  · exact Nat.le_refl _

/-- Every replacement makes the term smaller. -/
theorem size_pass (t : Term ν) : t.pass.size + t.passReductions ≤ t.size := by
  induction t with
  | number x => simp [pass, passReductions]
  | var n => simp [pass, passReductions]
  | unary op t ih =>
    have top := (unary op t.pass).size_reduce
    rw [pass, passReductions]
    simp only [size] at top ⊢
    omega
  | binary op s t ihs iht =>
    have top := (binary op s.pass t.pass).size_reduce
    rw [pass, passReductions]
    simp only [size] at top ⊢
    omega

/-! ### One pass is enough -/

/-- The visit of the top either finds nothing to replace or leaves a part of the term. -/
theorem reduce_cases (t : Term ν) : (t.reductions = 0 ∧ t.reduce = t) ∨
    ∃ r, t.remainder? = .ok (some r) ∧ t.reduce = t.leave r := by
  unfold reductions reduce
  split
  · next r h => exact Or.inr ⟨r, h, rfl⟩
  · exact Or.inl ⟨rfl, rfl⟩

theorem names_reduce_subset (t : Term ν) : t.reduce.names ⊆ t.names := by
  rcases t.reduce_cases with ⟨-, same⟩ | ⟨r, hr, left⟩
  · rw [same]
    exact List.Subset.refl _
  · rw [left]
    cases t with
    | number x => cases hr
    | var n => cases hr
    | unary op t =>
      obtain ⟨x, v, -, -, rfl⟩ := remainder?_unary hr
      exact List.nil_subset _
    | binary op s t =>
      cases r with
      | constant v => exact List.nil_subset _
      | left => exact List.subset_append_left _ _
      | right => exact List.subset_append_right _ _

/-- A pass brings in no variable. -/
theorem names_pass_subset (t : Term ν) : t.pass.names ⊆ t.names := by
  induction t with
  | number x => exact List.Subset.refl _
  | var n => exact List.Subset.refl _
  | unary op t ih => exact List.Subset.trans (names_reduce_subset (unary op t.pass)) ih
  | binary op s t ihs iht =>
    refine List.Subset.trans (names_reduce_subset (binary op s.pass t.pass)) ?_
    exact List.append_subset.mpr ⟨List.subset_append_of_subset_left _ ihs,
      List.subset_append_of_subset_right _ iht⟩

theorem pass_of_passReductions {t : Term ν} (h : t.passReductions = 0) : t.pass = t := by
  induction t with
  | number x => rfl
  | var n => rfl
  | unary op t ih =>
    rw [passReductions, Nat.add_eq_zero_iff] at h
    have same := ih h.1
    rw [same] at h
    rw [pass, same]
    rcases (unary op t).reduce_cases with ⟨-, same⟩ | ⟨r, hr, -⟩
    · exact same
    · simp [reductions, hr] at h
  | binary op s t ihs iht =>
    rw [passReductions, Nat.add_eq_zero_iff, Nat.add_eq_zero_iff] at h
    have sameLeft := ihs h.1.2
    have sameRight := iht h.1.1
    rw [sameLeft, sameRight] at h
    rw [pass, sameLeft, sameRight]
    rcases (binary op s t).reduce_cases with ⟨-, same⟩ | ⟨r, hr, -⟩
    · exact same
    · simp [reductions, hr] at h

/-- A pass visits a node after its operands, and leaves nothing to replace. -/
theorem passReductions_pass (t : Term ν) : t.pass.passReductions = 0 := by
  induction t with
  | number x => rfl
  | var n => rfl
  | unary op t ih =>
    rw [pass]
    rcases (unary op t.pass).reduce_cases with ⟨none, same⟩ | ⟨r, hr, left⟩
    · rw [same, passReductions, pass_of_passReductions ih, ih, none]
    · obtain ⟨x, v, -, -, rfl⟩ := remainder?_unary hr
      rw [left]
      rfl
  | binary op s t ihs iht =>
    rw [pass]
    rcases (binary op s.pass t.pass).reduce_cases with ⟨none, same⟩ | ⟨r, -, left⟩
    · rw [same, passReductions, pass_of_passReductions ihs, pass_of_passReductions iht, ihs, iht,
        none]
    · rw [left]
      cases r with
      | constant v => rfl
      | left => exact ihs
      | right => exact iht

theorem settle_succ (passes : Nat) (t : Term ν) : t.settle (passes + 1) = t.pass := by
  rw [settle]
  split
  · rfl
  · cases passes with
    | zero => rfl
    | succ passes =>
      rw [settle, if_pos t.passReductions_pass, pass_of_passReductions t.passReductions_pass]

end Term

end Fluxion
