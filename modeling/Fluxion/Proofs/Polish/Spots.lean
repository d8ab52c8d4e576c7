import Fluxion.Polish.Writer
import Fluxion.Proofs.Decimal.Numerals
import Fluxion.Proofs.Text.Lexemes
import Fluxion.Text.Alphabetic

/-!
# The tokens of a written term

A written term has one space between its tokens, and no token breaks up or runs into the next
one: parentheses stand alone, and the words have no character that separates. So its tokens
are found again in the text.
-/

namespace Fluxion

theorem not_isBlank_of_isAlphabetic {c : Char} (h : isAlphabetic c = true) :
    isBlank c = false := by
  have outside : ∀ n ∈ [9, 10, 11, 12, 13, 0x20, 0x85, 0xA0, 0x1680, 0x2000, 0x2001, 0x2002,
      0x2003, 0x2004, 0x2005, 0x2006, 0x2007, 0x2008, 0x2009, 0x200A, 0x2028, 0x2029, 0x202F,
      0x205F, 0x3000], (alphabeticPoints.place n % 2 == 1) = false := by
    decide +kernel
  rw [← Bool.not_eq_true]
  intro blank
  have listed := outside c.toNat (by
    simp only [isBlank, Bool.or_eq_true, Bool.and_eq_true, decide_eq_true_eq,
      beq_iff_eq] at blank
    simp only [List.mem_cons, List.not_mem_nil, or_false]
    omega)
  exact absurd (h.symm.trans listed) (by decide)

namespace Polish

open Lexeme

/-- A token that is one in a text: a parenthesis, or a word of characters that join. -/
inductive Spelled : Token → Prop where
  | opening : Spelled .opening
  | closing : Spelled .closing
  | word {text : String} (ne : text.toList ≠ []) (run : ∀ c ∈ text.toList, joint c = .join 0) :
    Spelled (.word text)

/-! ### How characters join -/

variable {c : Char} {r : List Char} {n : Nat} {k : Token} {ks rest : List Token}

theorem joint_eq_join (blank : isBlank c = false) (opening : c ≠ '(') (closing : c ≠ ')') :
    joint c = .join 0 := by
  simp [joint, blank, opening, closing]

theorem joint_alphabetic (h : isAlphabetic c = true) : joint c = .join 0 := by
  refine joint_eq_join (not_isBlank_of_isAlphabetic h) ?_ ?_
  all_goals
    rintro rfl
    exact absurd h (by decide +kernel)

theorem joint_numeral (h : IsNumeral c) : joint c = .join 0 := by
  rcases h with digit | letter
  · have range : 48 ≤ c.toNat ∧ c.toNat ≤ 57 := by
      simpa [Char.isDigit, UInt32.le_iff_toNat_le] using digit
    refine joint_eq_join ?_ ?_ ?_
    · simp only [isBlank, Bool.or_eq_false_iff, Bool.and_eq_false_iff, decide_eq_false_iff_not,
        beq_eq_false_iff_ne]
      omega
    all_goals
      rintro rfl
      exact absurd digit (by decide)
  · simp only [List.mem_cons, List.not_mem_nil, or_false] at letter
    rcases letter with rfl | rfl | rfl | rfl | rfl | rfl | rfl <;> decide

/-! ### The tokens of a text -/

/-- The tokens of what stands at the offset `n` and after it. -/
def spotsFrom (n : Nat) (cs : List Char) : List Spot :=
  (lexemesFrom joint n cs).map fun l => ⟨l.start, .ofText l.text⟩

theorem spots_eq (text : String) : spots text = spotsFrom 0 text.toList := by
  rw [spots, spotsFrom, lexemes_eq]

theorem spotsFrom_blank (h : isBlank c = true) (n : Nat) (cs : List Char) :
    spotsFrom n (c :: cs) = spotsFrom (n + c.utf8Size) cs := by
  rw [spotsFrom, lexemesFrom_separate n (by simp [joint, h])]
  rfl

theorem spotsFrom_opening (n : Nat) (cs : List Char) :
    spotsFrom n ('(' :: cs) = ⟨n, .opening⟩ :: spotsFrom (n + 1) cs := by
  rw [spotsFrom, lexemesFrom_alone n (by decide)]
  rfl

theorem spotsFrom_closing (n : Nat) (cs : List Char) :
    spotsFrom n (')' :: cs) = ⟨n, .closing⟩ :: spotsFrom (n + 1) cs := by
  rw [spotsFrom, lexemesFrom_alone n (by decide)]
  rfl

/-- A word does not look like a parenthesis. -/
theorem ofText_word {text : String} (run : ∀ c ∈ text.toList, joint c = .join 0) :
    Token.ofText text = .word text := by
  have opening : text ≠ "(" := by
    rintro rfl
    exact absurd (run '(' (by decide)) (by decide)
  have closing : text ≠ ")" := by
    rintro rfl
    exact absurd (run ')' (by decide)) (by decide)
  rw [Token.ofText, if_neg opening, if_neg closing]

/-- The first token is the one that is spelled, if what follows does not lengthen it. -/
theorem spotsFrom_spelled (h : Spelled k) (stop : ∀ c ∈ r.head?, joint c ≠ .join 0) (n : Nat) :
    spotsFrom n (k.text.toList ++ r) = ⟨n, k⟩ :: spotsFrom (n + width k.text.toList) r := by
  cases h with
  | opening => exact spotsFrom_opening n r
  | closing => exact spotsFrom_closing n r
  | @word text ne run =>
    change spotsFrom n (text.toList ++ r) = _
    rw [spotsFrom, lexemesFrom_run n ne run stop, List.map_cons, String.ofList_toList,
      ofText_word run]
    rfl

/-- Separated by spaces, tokens that are spelled are found again. -/
theorem tokens_spotsFrom (h : ∀ k ∈ ks, Spelled k) (n : Nat) :
    (spotsFrom n ([' '].intercalate (ks.map fun k => k.text.toList))).map Spot.token = ks := by
  induction ks generalizing n with
  | nil => rfl
  | cons k ks ih =>
    have spelled := h k List.mem_cons_self
    have others := fun k hk => h k (List.mem_cons_of_mem _ hk)
    cases ks with
    | nil =>
      have last := spotsFrom_spelled spelled (r := []) (by simp) n
      rw [List.append_nil] at last
      rw [List.map_singleton, List.intercalate_singleton, last]
      rfl
    | cons l ks =>
      have tail := ih others (n + width k.text.toList + ' '.utf8Size)
      have stop : ∀ c ∈ (' ' :: [' '].intercalate ((l :: ks).map fun k => k.text.toList)).head?,
          joint c ≠ .join 0 := by
        rintro c ⟨⟩
        decide
      rw [List.map_cons] at tail stop ⊢
      rw [List.map_cons, List.intercalate_cons_cons, List.append_assoc, List.singleton_append,
        spotsFrom_spelled spelled stop, spotsFrom_blank (by decide), List.map_cons, tail]

/-! ### The tokens of a term -/

theorem spelled_numeral (x : Float) : Spelled (.word (decimalText x)) :=
  .word (decimalText_ne_empty x) fun _ hc => joint_numeral (isNumeral_of_mem_decimalText hc)

theorem spelled_of_all {text : String} (ne : text.toList ≠ [])
    (run : text.toList.all (joint · = .join 0) = true) : Spelled (.word text) :=
  .word ne (by simpa using run)

theorem spelled_nil : Spelled (.word "nil") := spelled_of_all (by decide) (by decide)

theorem spelled_operator (op : Operator) : Spelled (.word op.token) := by
  rcases op with op | op <;> cases op <;> exact spelled_of_all (by decide) (by decide)

theorem spelled_symbol (h : isAlphabetic c = true) : Spelled (.word c.toString) := by
  have single : c.toString.toList = [c] := String.toList_singleton c
  refine .word (by simp) ?_
  rw [single]
  intro d hd
  rw [List.mem_singleton.mp hd]
  exact joint_alphabetic h

/-- What follows a payload without operands. -/
theorem spelled_leaf (h : Spelled k) (tail : ∀ k ∈ rest, Spelled k) :
    ∀ l ∈ Token.opening :: k :: .word "nil" :: .word "nil" :: .closing :: rest, Spelled l := by
  simp only [List.forall_mem_cons]
  exact ⟨.opening, h, spelled_nil, spelled_nil, .closing, tail⟩

theorem spelled_tokensOnto {t : Term Char} (symbols : ∀ c ∈ t.names, isAlphabetic c = true)
    (tail : ∀ k ∈ rest, Spelled k) : ∀ k ∈ tokensOnto t rest, Spelled k := by
  induction t generalizing rest with
  | number x => exact spelled_leaf (spelled_numeral x) tail
  | var c => exact spelled_leaf (spelled_symbol (symbols c (by simp [Term.names]))) tail
  | unary op t ih =>
    rw [tokensOnto, List.forall_mem_cons, List.forall_mem_cons]
    refine ⟨.opening, spelled_operator (.unary op), ih symbols ?_⟩
    rw [List.forall_mem_cons, List.forall_mem_cons]
    exact ⟨spelled_nil, .closing, tail⟩
  | binary op s t ihs iht =>
    rw [Term.names, List.forall_mem_append] at symbols
    rw [tokensOnto, List.forall_mem_cons, List.forall_mem_cons]
    refine ⟨.opening, spelled_operator (.binary op), ihs symbols.1 (iht symbols.2 ?_)⟩
    rw [List.forall_mem_cons]
    exact ⟨.closing, tail⟩

/-- Reading finds the tokens that were written. -/
theorem tokens_spots_write {t : Term Char} (symbols : ∀ c ∈ t.names, isAlphabetic c = true) :
    (spots (write t)).map Spot.token = tokens t := by
  have spelled : ∀ k ∈ tokens t, Spelled k := spelled_tokensOnto symbols (by simp)
  have text : (write t).toList = [' '].intercalate ((tokens t).map fun k => k.text.toList) := by
    rw [write, String.toList_intercalate, List.map_map]
    rfl
  rw [spots_eq, text, tokens_spotsFrom spelled]

end Polish

end Fluxion
