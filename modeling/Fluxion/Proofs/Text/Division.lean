import Mathlib.Data.List.Basic

/-!
# Where texts divide

A text is divided in one way only at the first occurrence of a character, and into lines in one way
only. The text of a number that is counted with consists of digits.
-/

namespace Fluxion

theorem eq_of_append_cons {α : Type} {c : α} {as bs rs ss : List α} (left : c ∉ as) (right : c ∉ bs)
    (same : as ++ c :: rs = bs ++ c :: ss) : as = bs ∧ rs = ss := by
  induction as generalizing bs with
  | nil =>
    cases bs with
    | nil => exact ⟨rfl, (List.cons.inj same).2⟩
    | cons b bs => exact absurd (by simp [(List.cons.inj same).1]) right
  | cons a as ih =>
    cases bs with
    | nil => exact absurd (by simp [(List.cons.inj same).1]) left
    | cons b bs =>
      obtain ⟨rfl, rest⟩ := List.cons.inj same
      obtain ⟨rfl, tails⟩ := ih (fun h => left (by simp [h])) (fun h => right (by simp [h])) rest
      exact ⟨rfl, tails⟩

theorem eq_of_flatMap_lines {ls ms : List (List Char)} (left : ∀ l ∈ ls, '\n' ∉ l)
    (right : ∀ l ∈ ms, '\n' ∉ l)
    (same : ls.flatMap (· ++ ['\n']) = ms.flatMap (· ++ ['\n'])) : ls = ms := by
  induction ls generalizing ms with
  | nil =>
    cases ms with
    | nil => rfl
    | cons m ms => simp at same
  | cons l ls ih =>
    cases ms with
    | nil => simp at same
    | cons m ms =>
      simp only [List.flatMap_cons, List.append_assoc, List.singleton_append] at same
      obtain ⟨rfl, rest⟩ := eq_of_append_cons (left l (by simp)) (right m (by simp)) same
      rw [ih (fun l h => left l (by simp [h])) (fun m h => right m (by simp [h])) rest]

theorem notMem_toDigits {c : Char} (h : c.isDigit = false) (n : Nat) : c ∉ Nat.toDigits 10 n := by
  intro mem
  rw [Nat.isDigit_of_mem_toDigits (by decide) (by decide) mem] at h
  cases h

theorem eq_of_toDigits {m n : Nat} (h : Nat.toDigits 10 m = Nat.toDigits 10 n) : m = n := by
  have read (n : Nat) : Nat.ofDigitChars 10 (Nat.toDigits 10 n) 0 = n :=
    Nat.ofDigitChars_toDigits (by decide) (by decide)
  rw [← read m, h, read n]

end Fluxion
