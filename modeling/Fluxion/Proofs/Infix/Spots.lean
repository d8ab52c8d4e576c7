import Fluxion.Proofs.Infix.Grammar
import Fluxion.Proofs.Text.Lexemes
import Mathlib

/-!
# The tokens at the front of a text

After blanks, which carry no token, a text goes on with a token: the characters that spell it,
and in the case of a run what follows, which must not lengthen it.
-/

namespace Fluxion.Infix

open Lexeme

/-- The token is spelled by the characters `u` if `r` comes after them. -/
inductive Spelled : Token → List Char → List Char → Prop where
  | digits {u r : List Char} (ne : u ≠ []) (run : ∀ c ∈ u, c.isDigit = true)
    (stop : ∀ c ∈ r.head?, c.isDigit = false) : Spelled (.digits u) u r
  | word {u r : List Char} (ne : u ≠ []) (run : ∀ c ∈ u, c.isAlpha = true)
    (stop : ∀ c ∈ r.head?, c.isAlpha = false) : Spelled (.word (String.ofList u)) u r
  | operator {r : List Char} (op : Binary) : Spelled (.operator op) op.token.toList r
  | opening {r : List Char} : Spelled .opening ['('] r
  | closing {r : List Char} : Spelled .closing [')'] r
  | newline {r : List Char} : Spelled .newline ['\n'] r
  | formFeed {r : List Char} : Spelled .formFeed ['\x0c'] r
  | other {r : List Char} {c : Char} (alone : joint c = .alone)
    (unknown : Token.ofText (String.ofList [c]) = .other) : Spelled .other [c] r

/-! ### How characters join -/

variable {c : Char} {bs cs u r : List Char} {n : Nat} {tok : Token}

theorem joint_blank (h : c = ' ' ∨ c = '\t' ∨ c = '\r') : joint c = .separate := if_pos h

/-- A blank is not part of a run. -/
theorem apart_of_blank (h : c = ' ' ∨ c = '\t' ∨ c = '\r') :
    c.isDigit = false ∧ c.isAlpha = false := by
  rcases h with rfl | rfl | rfl <;> decide

theorem joint_digit (h : c.isDigit = true) : joint c = .join 0 := by
  have nonblank : ¬ (c = ' ' ∨ c = '\t' ∨ c = '\r') := fun blank => by
    simp [(apart_of_blank blank).1] at h
  rw [joint, if_neg nonblank, if_pos h]

theorem joint_alpha (h : c.isAlpha = true) : joint c = .join 1 := by
  have nonblank : ¬ (c = ' ' ∨ c = '\t' ∨ c = '\r') := fun blank => by
    simp [(apart_of_blank blank).2] at h
  have nondigit : ¬ c.isDigit = true := by
    intro hd
    simp only [Char.isAlpha, Char.isUpper, Char.isLower, Char.isDigit, Bool.or_eq_true,
      Bool.and_eq_true, decide_eq_true_eq, UInt32.le_iff_toNat_le] at h hd
    rcases h with h | h
    · exact absurd (Nat.le_trans h.1 hd.2) (by decide)
    · exact absurd (Nat.le_trans h.1 hd.2) (by decide)
  rw [joint, if_neg nonblank, if_neg nondigit, if_pos h]

theorem isDigit_of_joint (h : joint c = .join 0) : c.isDigit = true := by
  unfold joint at h
  split at h
  · cases h
  · split at h
    · assumption
    · split at h <;> cases h

theorem isAlpha_of_joint (h : joint c = .join 1) : c.isAlpha = true := by
  unfold joint at h
  split at h
  · cases h
  · split at h
    · cases h
    · split at h
      · assumption
      · cases h

theorem joint_cases (c : Char) :
    (c = ' ' ∨ c = '\t' ∨ c = '\r') ∨ c.isDigit = true ∨ c.isAlpha = true ∨
      joint c = .alone := by
  unfold joint
  split
  · next h => exact Or.inl h
  · split
    · next h => exact Or.inr (Or.inl h)
    · split
      · next h => exact Or.inr (Or.inr (Or.inl h))
      · exact Or.inr (Or.inr (Or.inr rfl))

/-- A character that stands alone spells a token. -/
theorem spelled_alone (h : joint c = .alone) (r : List Char) :
    Spelled (.ofText (String.ofList [c])) [c] r := by
  have digit : ¬ c.isDigit = true := fun hd => by simp [joint_digit hd] at h
  have alpha : ¬ c.isAlpha = true := fun ha => by simp [joint_alpha ha] at h
  rcases eq_or_ne c '(' with rfl | opening
  · exact .opening
  rcases eq_or_ne c ')' with rfl | closing
  · exact .closing
  rcases eq_or_ne c '\n' with rfl | newline
  · exact .newline
  rcases eq_or_ne c '\x0c' with rfl | formFeed
  · exact .formFeed
  rcases eq_or_ne c '+' with rfl | add
  · exact .operator .add
  rcases eq_or_ne c '-' with rfl | sub
  · exact .operator .sub
  rcases eq_or_ne c '*' with rfl | mul
  · exact .operator .mul
  rcases eq_or_ne c '/' with rfl | div
  · exact .operator .div
  rcases eq_or_ne c '^' with rfl | pow
  · exact .operator .pow
  have unknown : Token.ofText (String.ofList [c]) = .other := by
    simp [Token.ofText, opening, closing, newline, formFeed, add, sub, mul, div, pow, digit,
      alpha]
  rw [unknown]
  exact .other h unknown

/-! ### The tokens of a text -/

/-- The tokens of what stands at the offset `n` and after it. -/
def spotsFrom (n : Nat) (cs : List Char) : List Spot :=
  (lexemesFrom joint n cs).map fun l => ⟨l.start, .ofText l.text⟩

theorem spots_eq (text : String) : spots text = spotsFrom 0 text.toList := by
  rw [spots, spotsFrom, lexemes_eq]

theorem spotsFrom_blanks (h : Blanks bs) (n : Nat) (cs : List Char) :
    spotsFrom n (bs ++ cs) = spotsFrom (n + width bs) cs := by
  induction bs generalizing n with
  | nil => rfl
  | cons b bs ih =>
    have first : joint b = .separate := joint_blank (h b List.mem_cons_self)
    rw [List.cons_append, spotsFrom, lexemesFrom_separate n first, width_cons, ← Nat.add_assoc]
    exact ih (fun c hc => h c (List.mem_cons_of_mem b hc)) _

theorem spotsFrom_of_blanks (h : Blanks bs) (n : Nat) : spotsFrom n bs = [] := by
  have none := spotsFrom_blanks h n []
  rwa [List.append_nil] at none

/-- No run begins like a token of a single character. -/
theorem ofText_run {k : Nat} (h : joint c = .join k) (u : List Char) :
    Token.ofText (String.ofList (c :: u)) =
      if c.isDigit then .digits (c :: u)
      else if c.isAlpha then .word (String.ofList (c :: u)) else .other := by
  rw [Token.ofText, String.toList_ofList]
  split
  case h_10 front =>
    cases front
    rfl
  all_goals
    rename_i front
    cases front <;> cases h

theorem ofText_digits (ne : u ≠ []) (run : ∀ c ∈ u, c.isDigit = true) :
    Token.ofText (String.ofList u) = .digits u := by
  cases u with
  | nil => exact absurd rfl ne
  | cons c u =>
    have first := run c List.mem_cons_self
    rw [ofText_run (joint_digit first), if_pos first]

theorem ofText_word (ne : u ≠ []) (run : ∀ c ∈ u, c.isAlpha = true) :
    Token.ofText (String.ofList u) = .word (String.ofList u) := by
  cases u with
  | nil => exact absurd rfl ne
  | cons c u =>
    have first := run c List.mem_cons_self
    have digit : ¬ c.isDigit = true := by
      intro hd
      have := (joint_digit hd).symm.trans (joint_alpha first)
      cases this
    rw [ofText_run (joint_alpha first), if_neg digit, if_pos first]

/-- The first token is the one that is spelled. -/
theorem spotsFrom_spelled (h : Spelled tok u r) (n : Nat) :
    spotsFrom n (u ++ r) = ⟨n, tok⟩ :: spotsFrom (n + width u) r := by
  have single (c : Char) (alone : joint c = .alone) (r : List Char) : spotsFrom n ([c] ++ r) =
      ⟨n, .ofText (String.ofList [c])⟩ :: spotsFrom (n + width [c]) r := by
    rw [List.singleton_append, spotsFrom, lexemesFrom_alone n alone]
    rfl
  cases h with
  | digits ne run stop =>
    rw [spotsFrom, lexemesFrom_run n ne (fun c hc => joint_digit (run c hc)), List.map_cons,
      ofText_digits ne run]
    · rfl
    · intro c hc he
      have := stop c hc
      rw [isDigit_of_joint he] at this
      cases this
  | word ne run stop =>
    rw [spotsFrom, lexemesFrom_run n ne (fun c hc => joint_alpha (run c hc)), List.map_cons,
      ofText_word ne run]
    · rfl
    · intro c hc he
      have := stop c hc
      rw [isAlpha_of_joint he] at this
      cases this
  | operator op => cases op <;> exact single _ (by decide) r
  | opening => exact single _ (by decide) r
  | closing => exact single _ (by decide) r
  | newline => exact single _ (by decide) r
  | formFeed => exact single _ (by decide) r
  | other alone unknown =>
    rw [single _ alone, unknown]

/-- A text has nothing but blanks or goes on with a token. -/
theorem spotsFrom_cases (cs : List Char) : Blanks cs ∨ ∃ bs tok u r,
    cs = bs ++ (u ++ r) ∧ Blanks bs ∧ Spelled tok u r := by
  induction cs with
  | nil => exact Or.inl .nil
  | cons c cs ih =>
    rcases joint_cases c with blank | digit | alpha | alone
    · rcases ih with blanks | ⟨bs, tok, u, r, rfl, blanks, spelled⟩
      · exact Or.inl (blanks.cons blank)
      · exact Or.inr ⟨c :: bs, tok, u, r, rfl, blanks.cons blank, spelled⟩
    · obtain ⟨u, r, eq, ne, run, stop⟩ := exists_run Char.isDigit digit cs
      exact Or.inr ⟨[], _, u, r, eq, .nil, .digits ne run stop⟩
    · obtain ⟨u, r, eq, ne, run, stop⟩ := exists_run Char.isAlpha alpha cs
      exact Or.inr ⟨[], _, u, r, eq, .nil, .word ne run stop⟩
    · exact Or.inr ⟨[], _, [c], cs, rfl, .nil, spelled_alone alone cs⟩

theorem Spelled.ne_nil (h : Spelled tok u r) : u ≠ [] := by
  cases h with
  | digits ne run stop => exact ne
  | word ne run stop => exact ne
  | operator op => cases op <;> decide
  | opening => exact List.cons_ne_nil _ _
  | closing => exact List.cons_ne_nil _ _
  | newline => exact List.cons_ne_nil _ _
  | formFeed => exact List.cons_ne_nil _ _
  | other alone unknown => exact List.cons_ne_nil _ _

/-- A text is taken apart token by token. -/
theorem spotsFrom_induction {P : List Char → Prop} (blanks : ∀ bs, Blanks bs → P bs)
    (token : ∀ bs tok u r, Blanks bs → Spelled tok u r → P r → P (bs ++ (u ++ r)))
    (cs : List Char) : P cs := by
  induction length : cs.length using Nat.strong_induction_on generalizing cs with
  | _ k ih =>
    rcases spotsFrom_cases cs with none | ⟨bs, tok, u, r, rfl, before, spelled⟩
    · exact blanks cs none
    · have shorter : r.length < k := by
        have := List.length_pos_iff.mpr spelled.ne_nil
        simp only [List.length_append] at length
        omega
      exact token bs tok u r before spelled (ih _ shorter r rfl)

theorem length_spotsFrom_le (n : Nat) (cs : List Char) : (spotsFrom n cs).length ≤ cs.length := by
  induction cs using spotsFrom_induction generalizing n with
  | blanks bs blanks =>
    rw [spotsFrom_of_blanks blanks]
    exact Nat.zero_le _
  | token bs tok u r blanks spelled ih =>
    have := List.length_pos_iff.mpr spelled.ne_nil
    have := ih (n + width bs + width u)
    rw [spotsFrom_blanks blanks, spotsFrom_spelled spelled]
    simp only [List.length_cons, List.length_append]
    omega

theorem length_spots_le (text : String) : (spots text).length ≤ text.utf8ByteSize := by
  rw [spots_eq, utf8ByteSize_eq]
  exact (length_spotsFrom_le 0 _).trans (length_le_width _)

end Fluxion.Infix
