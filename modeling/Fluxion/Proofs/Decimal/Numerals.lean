import Fluxion.Decimal.Layout
import Fluxion.Decimal.Reading
import Fluxion.Operator
import Fluxion.Proofs.Arithmetic.Zero

/-!
# Numerals

The text of a number has few characters: digits, the point, the sign, and the letters of the
infinities and of what is no number. What reads as a number is neither the token of an
operator nor a single character other than a digit.
-/

namespace Fluxion

/-- The characters of the texts of numbers. -/
def IsNumeral (c : Char) : Prop := c.isDigit = true ∨ c ∈ ['.', '-', 'i', 'n', 'f', 'N', 'a']

namespace Layout

theorem mem_point {cs : List Char} {shift : Int} {c : Char} (h : c ∈ plain.point cs shift) :
    c ∈ cs ∨ c = '0' ∨ c = '.' := by
  simp only [point, plain, Bool.false_eq_true, if_false, List.append_nil] at h
  split at h
  · rcases List.mem_append.mp h with h | h
    · exact Or.inl h
    · exact Or.inr (Or.inl (List.eq_of_mem_replicate h))
  · split at h
    · rcases List.mem_append.mp h with h | h
      · exact Or.inl (List.mem_of_mem_take h)
      · rcases List.mem_cons.mp h with h | h
        · exact Or.inr (Or.inr h)
        · exact Or.inl (List.mem_of_mem_drop h)
    · simp only [List.cons_append, List.mem_cons, List.mem_append, List.mem_replicate] at h
      tauto

theorem mem_magnitude {x : Magnitude} {c : Char} (h : c ∈ plain.magnitude x) :
    c.isDigit = true ∨ c = '.' := by
  have pointed {cs : List Char} {shift : Int} (digits : ∀ d ∈ cs, d.isDigit = true)
      (h : c ∈ plain.point cs shift) : c.isDigit = true ∨ c = '.' := by
    rcases mem_point h with h | rfl | rfl
    · exact Or.inl (digits c h)
    · exact Or.inl rfl
    · exact Or.inr rfl
  rw [magnitude] at h
  split at h
  · exact pointed (by simp) h
  · exact pointed (fun d hd => Nat.isDigit_of_mem_toDigits (by decide) (by decide) hd) h

theorem point_ne_nil (layout : Layout) (cs : List Char) (ne : cs ≠ []) (shift : Int) :
    layout.point cs shift ≠ [] := by
  rw [point]
  split
  · simp [ne]
  · dsimp only
    split <;> simp

theorem magnitude_ne_nil (x : Magnitude) : plain.magnitude x ≠ [] := by
  rw [magnitude]
  split
  · exact point_ne_nil _ _ (by simp) _
  · exact point_ne_nil _ _ Nat.toDigits_ne_nil _

end Layout

/-- The text of a number that is one is that of an infinity, or has digits and points only, behind
the sign. -/
theorem exists_body {x : Float} (number : x.isNaN = false) : ∃ sign body : List Char,
    (decimalText x).toList = sign ++ body ∧ (sign = [] ∨ sign = ['-']) ∧ body ≠ [] ∧
      (body = ['i', 'n', 'f'] ∨ ∀ c ∈ body, c.isDigit = true ∨ c = '.') := by
  refine ⟨if x.toBits >>> 63 = 1 then ['-'] else [],
    if x.isInf then ['i', 'n', 'f'] else Layout.plain.magnitude (.ofBits x.toBits), ?_, ?_, ?_, ?_⟩
  · rw [decimalText, Layout.write, if_neg (by rw [number]; exact Bool.false_ne_true),
      String.toList_ofList]
  · split <;> simp
  · split <;> simp [Layout.magnitude_ne_nil]
  · split
    · exact Or.inl rfl
    · exact Or.inr fun c => Layout.mem_magnitude

theorem isNumeral_of_mem_decimalText {x : Float} {c : Char} (h : c ∈ (decimalText x).toList) :
    IsNumeral c := by
  cases number : x.isNaN with
  | true =>
    have letters : c ∈ ['N', 'a', 'N'] := by
      rwa [decimalText, Layout.write, if_pos number] at h
    simp only [List.mem_cons, List.not_mem_nil, or_false] at letters
    exact Or.inr (by simp; tauto)
  | false =>
    obtain ⟨sign, body, text, signs, -, rest⟩ := exists_body number
    rw [text, List.mem_append] at h
    rcases h with h | h
    · rcases signs with rfl | rfl
      · cases h
      · exact Or.inr (by simp_all)
    · rcases rest with rfl | rest
      · exact Or.inr (by simp_all; tauto)
      · rcases rest c h with digit | rfl
        · exact Or.inl digit
        · exact Or.inr (by simp)

/-- The text of what is no number is that of no number. -/
theorem decimalText_ne_nan {x : Float} (number : x.isNaN = false) : decimalText x ≠ "NaN" := by
  intro same
  obtain ⟨sign, body, text, signs, -, rest⟩ := exists_body number
  have letters : sign ++ body = ['N', 'a', 'N'] := by rw [← text, same]; rfl
  rcases signs with rfl | rfl
  · rcases rest with rfl | rest
    · cases letters
    · rw [List.nil_append] at letters
      exact absurd (rest 'N' (by simp [letters])) (by decide)
  · cases letters

/-- A number whose text is a single character is a digit. -/
theorem isDigit_of_decimalText {x : Float} {c : Char} (single : (decimalText x).toList = [c]) :
    c.isDigit = true ∨ c = '.' := by
  cases number : x.isNaN with
  | true =>
    rw [decimalText, Layout.write, if_pos number] at single
    cases single
  | false =>
    obtain ⟨sign, body, text, signs, ne, rest⟩ := exists_body number
    rw [text] at single
    rcases signs with rfl | rfl
    · rw [List.nil_append] at single
      subst single
      rcases rest with letters | rest
      · cases letters
      · exact rest c (by simp)
    · exact absurd (List.cons.inj single).2 ne

theorem decimalText_ne_empty (x : Float) : (decimalText x).toList ≠ [] := by
  rw [decimalText, Layout.write]
  split
  · decide
  · rw [String.toList_ofList]
    split <;> split <;> simp [Layout.magnitude_ne_nil]

namespace Decimal

theorem read?_token (op : Operator) : read? op.token = none := by
  rcases op with op | op <;> cases op <;> rfl

theorem scan?_singleton {c : Char} (h : c.isDigit = false) : scan? [c] = none := by
  by_cases point : c = '.'
  · subst point
    rfl
  · simp only [scan?, h, List.takeWhile_cons, List.dropWhile_cons, Bool.false_eq_true, if_false,
      true_and]
    split
    · next heq => exact absurd (List.cons.inj heq).1 point
    · rfl

theorem unsigned?_singleton {c : Char} (h : c.isDigit = false) : unsigned? [c] = none := by
  have short (s : String) (long : s.toList.length ≠ 1) :
      String.ofList ([c].map Char.toLower) ≠ s := by
    rintro rfl
    simp at long
  rw [unsigned?]
  split
  · next heq => exact absurd heq (short _ (by decide))
  · next heq => exact absurd heq (short _ (by decide))
  · next heq => exact absurd heq (short _ (by decide))
  · rw [scan?_singleton h]
    rfl

theorem isDigit_of_read? {c : Char} {x : Float} (h : read? (String.ofList [c]) = some x) :
    c.isDigit = true := by
  rw [← Bool.not_eq_false]
  intro letter
  rw [read?, String.toList_ofList] at h
  split at h
  · next heq =>
    cases heq
    cases h
  · next heq =>
    cases heq
    cases h
  · rw [unsigned?_singleton letter] at h
    cases h

end Decimal

/-- There is one number that is none. -/
theorem eq_of_isNaN {x : Float} (h : x.isNaN = true) : x = 0 / 0 := by
  rw [Float.isNaN_eq_decide_eq_nan, decide_eq_true_eq] at h
  exact h

end Fluxion
