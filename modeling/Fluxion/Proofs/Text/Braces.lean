import Mathlib.Data.List.Basic

/-!
# Balanced braces

A text is balanced in its braces if every brace that opens is closed and none is closed that was not
opened. A balanced text in braces ends where the brace is closed, whatever follows.
-/

namespace Fluxion

/-- A character that is no brace. -/
def Bare (c : Char) : Prop := c ≠ '\x7b' ∧ c ≠ '\x7d'

instance : DecidablePred Bare := fun c =>
  inferInstanceAs (Decidable (c ≠ '\x7b' ∧ c ≠ '\x7d'))

inductive Balanced : List Char → Prop where
  | nil : Balanced []
  | cons {c : Char} {cs : List Char} (bare : Bare c) (rest : Balanced cs) : Balanced (c :: cs)
  | group {as bs : List Char} (inner : Balanced as) (rest : Balanced bs) :
      Balanced ('\x7b' :: (as ++ '\x7d' :: bs))

namespace Balanced

variable {as bs rs ss : List Char}

theorem of_bare (h : ∀ c ∈ as, Bare c) : Balanced as := by
  induction as with
  | nil => exact nil
  | cons c cs ih => exact cons (h c (by simp)) (ih fun d hd => h d (by simp [hd]))

theorem append (h : Balanced as) (h' : Balanced bs) : Balanced (as ++ bs) := by
  induction h with
  | nil => exact h'
  | cons bare rest ih => exact cons bare ih
  | group inner rest _ ih =>
    rw [List.cons_append, List.append_assoc, List.cons_append]
    exact group inner ih

/-- Two balanced texts end at the same closing brace. -/
theorem cut (h : Balanced as) (h' : Balanced bs) (same : as ++ '\x7d' :: rs = bs ++ '\x7d' :: ss) :
    as = bs ∧ rs = ss := by
  induction h generalizing bs rs ss with
  | nil =>
    cases h' with
    | nil => exact ⟨rfl, (List.cons.inj same).2⟩
    | cons bare rest => exact absurd (List.cons.inj same).1.symm bare.2
    | group inner rest => exact absurd (List.cons.inj same).1 (by decide)
  | cons bare rest ih =>
    cases h' with
    | nil => exact absurd (List.cons.inj same).1 bare.2
    | cons bare' rest' =>
      obtain ⟨rfl, tails⟩ := List.cons.inj same
      obtain ⟨rfl, ends⟩ := ih rest' tails
      exact ⟨rfl, ends⟩
    | group inner rest' => exact absurd (List.cons.inj same).1 bare.1
  | group inner rest ihInner ihRest =>
    cases h' with
    | nil => exact absurd (List.cons.inj same).1 (by decide)
    | cons bare rest' => exact absurd (List.cons.inj same).1.symm bare.1
    | group inner' rest' =>
      simp only [List.cons_append, List.append_assoc, List.cons.injEq, true_and] at same
      obtain ⟨rfl, tails⟩ := ihInner inner' same
      obtain ⟨rfl, ends⟩ := ihRest rest' tails
      exact ⟨rfl, ends⟩

end Balanced

end Fluxion
