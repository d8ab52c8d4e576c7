import Fluxion.Proofs.Decimal.Numerals
import Fluxion.Proofs.Polish.Reading
import Fluxion.Proofs.Registry
import Fluxion.Proofs.Text.Braces
import Fluxion.Proofs.Text.Division
import Fluxion.Typesetting

/-!
# The texts of phrases

The text of an operation is made of fixed parts and of the texts of its operands, each in braces.
What stands in front of the first brace names the function, or else the part between the operands
names the operation. No text begins like a left parenthesis, so it can be seen whether an operand
has been put in parentheses.
-/

namespace Fluxion

/-- In front of the first brace. -/
def Unary.lead : Unary → String
  | sqrt => "\\sqrt"
  | exp => "e^"
  | ln => "\\ln\\left("
  | sin => "\\sin\\left("
  | cos => "\\cos\\left("
  | tan => "\\tan\\left("
  | cot => "\\cot\\left("
  | sinh => "\\sinh\\left("
  | cosh => "\\cosh\\left("
  | tanh => "\\tanh\\left("
  | arcsin => "\\arcsin\\left("
  | arccos => "\\arccos\\left("
  | arctan => "\\arctan\\left("
  | arccot => "\\operatorname"

/-- From the first brace to the operand. -/
def Unary.after : Unary → String
  | arccot => "arccot\x7d\\left(\x7b"
  | _ => ""

/-- What follows the operand, behind its brace. -/
def Unary.closing : Unary → String
  | sqrt | exp => ""
  | _ => "\\right)"

/-- In front of the first brace. -/
def Binary.lead : Binary → String
  | div => "\\dfrac"
  | add | sub | mul | pow => ""

/-- Between the operands. -/
def Binary.joint : Binary → String
  | add => " + "
  | sub => " - "
  | mul => "\\cdot"
  | div => ""
  | pow => "^"

theorem notMem_of_all {text : String} (bare : text.toList.all (fun c => Bare c) = true) :
    '\x7b' ∉ text.toList := by
  intro brace
  have notBrace : Bare '\x7b' := by simpa using List.all_eq_true.mp bare _ brace
  exact notBrace.1 rfl

namespace Unary

def ofLead? (text : String) : Option Unary := all.find? fun op => op.lead == text

theorem ofLead?_lead (op : Unary) : ofLead? op.lead = some op := by
  cases op <;> decide

theorem lead_injective : Function.Injective lead := by
  intro op op' same
  have found := ofLead?_lead op
  rwa [same, ofLead?_lead, Option.some.injEq, eq_comm] at found

theorem all_bare_lead (op : Unary) : op.lead.toList.all (fun c => Bare c) = true := by
  cases op <;> rfl

end Unary

namespace Binary

theorem ofLead?_lead (op : Binary) : Unary.ofLead? op.lead = none := by
  cases op <;> decide

theorem eq_of_lead {op op' : Binary} (lead : op.lead = op'.lead) (joint : op.joint = op'.joint) :
    op = op' := by
  revert lead joint
  cases op <;> cases op' <;> simp [Binary.lead, Binary.joint]

theorem all_bare_lead (op : Binary) : op.lead.toList.all (fun c => Bare c) = true := by
  cases op <;> rfl

theorem notMem_joint (op : Binary) : '\x7b' ∉ op.joint.toList := by
  apply notMem_of_all
  cases op <;> rfl

end Binary

namespace Phrase

variable {p q : Phrase}

/-- An operand is written as it is or in parentheses. -/
theorem operand_cases (p : Phrase) (delimit : Form → Bool) :
    p.operand delimit = p.text ∨ p.operand delimit = parenthesised p.text := by
  rw [operand]
  split
  · exact .inr rfl
  · exact .inl rfl

/-- The text does not begin like a left parenthesis. -/
def Begun (p : Phrase) : Prop := ¬ ['\\', 'l', 'e'] <+: p.text.toList

theorem text_of_operand {d d' : Form → Bool} (h : p.Begun) (h' : q.Begun)
    (same : p.operand d = q.operand d') : p.text = q.text := by
  have opens (p : Phrase) : ['\\', 'l', 'e'] <+: (parenthesised p.text).toList :=
    ⟨['f', 't', '('] ++ p.text.toList ++ ['\\', 'r', 'i', 'g', 'h', 't', ')'], by
      simp [parenthesised]⟩
  rcases p.operand_cases d with left | left <;> rcases q.operand_cases d' with right | right <;>
    rw [left, right] at same
  · exact same
  · exact absurd (same ▸ opens q) h
  · exact absurd (same ▸ opens p) h'
  · simpa [parenthesised] using same

/-! ### Balance -/

theorem balanced_of_all {s : String} (h : s.toList.all (fun c => Bare c) = true) :
    Balanced s.toList :=
  .of_bare (by simpa using h)

theorem balanced_append {s t : String} (h : Balanced s.toList) (h' : Balanced t.toList) :
    Balanced (s ++ t).toList := by
  rw [String.toList_append]
  exact h.append h'

theorem balanced_braced {s : String} (h : Balanced s.toList) : Balanced (braced s).toList := by
  simpa [braced] using h.group .nil

theorem balanced_parenthesised {s : String} (h : Balanced s.toList) :
    Balanced (parenthesised s).toList :=
  balanced_append (balanced_append (balanced_of_all rfl) h) (balanced_of_all rfl)

theorem balanced_operand (h : Balanced p.text.toList) (delimit : Form → Bool) :
    Balanced (p.operand delimit).toList := by
  rcases p.operand_cases delimit with same | same <;> rw [same]
  · exact h
  · exact balanced_parenthesised h

theorem balanced_command {name : String} (bare : Balanced name.toList)
    (h : Balanced p.text.toList) : Balanced (command name p).toList :=
  balanced_append (balanced_append (balanced_of_all rfl) bare)
    (balanced_parenthesised (balanced_braced h))

theorem balanced_unary (op : Unary) (h : Balanced p.text.toList) :
    Balanced (unary op p).text.toList := by
  have command {name : String} (bare : name.toList.all (fun c => Bare c) = true) :=
    balanced_command (balanced_of_all bare) h
  cases op with
  | sqrt => exact balanced_append (balanced_of_all rfl) (balanced_braced h)
  | exp => exact balanced_append (balanced_of_all rfl) (balanced_braced (balanced_operand h _))
  | arccot =>
    exact balanced_command
      (balanced_append (balanced_of_all rfl) (balanced_braced (balanced_of_all rfl))) h
  | _ => exact command rfl

theorem balanced_binary (op : Binary) (h : Balanced p.text.toList) (h' : Balanced q.text.toList) :
    Balanced (binary op p q).text.toList := by
  have left (d : Form → Bool) := balanced_braced (balanced_operand h d)
  have right (d : Form → Bool) := balanced_braced (balanced_operand h' d)
  cases op with
  | div => exact balanced_append (balanced_append (balanced_of_all rfl) (left _)) (right _)
  | _ => exact balanced_append (balanced_append (left _) (balanced_of_all rfl)) (right _)

/-! ### Parts -/

theorem toList_unary (op : Unary) (p : Phrase) : ∃ d, (unary op p).text.toList =
    op.lead.toList ++ '\x7b' :: (op.after.toList ++
      ((p.operand d).toList ++ '\x7d' :: op.closing.toList)) := by
  have whole : p.operand (fun _ => false) = p.text := rfl
  cases op with
  | exp =>
    exact ⟨delimitInExponential, by
      simp [unary, Unary.lead, Unary.after, Unary.closing, braced]⟩
  | _ =>
    exact ⟨fun _ => false, by
      simp [unary, command, Unary.lead, Unary.after, Unary.closing, braced, parenthesised, whole]⟩

theorem toList_binary (op : Binary) (p q : Phrase) : ∃ d d', (binary op p q).text.toList =
    op.lead.toList ++ '\x7b' :: ((p.operand d).toList ++
      '\x7d' :: (op.joint.toList ++ '\x7b' :: ((q.operand d').toList ++ ['\x7d']))) := by
  obtain ⟨d, hd⟩ : ∃ d, p.base = p.operand d := ⟨_, rfl⟩
  cases op with
  | add | sub =>
    exact ⟨delimitInSum, delimitInSum, by simp [binary, Binary.lead, Binary.joint, braced]⟩
  | mul =>
    exact ⟨delimitInProduct, delimitInProduct, by
      simp [binary, Binary.lead, Binary.joint, braced]⟩
  | div =>
    exact ⟨delimitInQuotient, delimitInQuotient, by
      simp [binary, Binary.lead, Binary.joint, braced]⟩
  | pow =>
    exact ⟨d, delimitInExponent, by simp [binary, Binary.lead, Binary.joint, braced, hd]⟩

/-! ### Beginnings -/

theorem begun_of_notMem (h : '\\' ∉ p.text.toList) : p.Begun :=
  fun begins => h (begins.subset List.mem_cons_self)

theorem begun_unary (op : Unary) (p : Phrase) : (unary op p).Begun := by
  obtain ⟨d, text⟩ := toList_unary op p
  rw [Begun, text]
  cases op <;> simp [Unary.lead, List.cons_prefix_cons]

theorem begun_binary (op : Binary) (p q : Phrase) : (binary op p q).Begun := by
  obtain ⟨d, d', text⟩ := toList_binary op p q
  rw [Begun, text]
  cases op <;> simp [Binary.lead, List.cons_prefix_cons]

/-! ### Leaves -/

theorem bare_of_isNumeral {c : Char} (h : IsNumeral c) : Bare c ∧ c ≠ '\\' := by
  have letters : ∀ d ∈ ['.', '-', 'i', 'n', 'f', 'N', 'a'], Bare d ∧ d ≠ '\\' := by
    simp [Bare]
  rcases h with digit | letter
  · refine ⟨⟨?_, ?_⟩, ?_⟩ <;> rintro rfl <;> exact absurd digit (by decide)
  · exact letters c letter

theorem bare_of_isAlphabetic {c : Char} (h : isAlphabetic c = true) : Bare c ∧ c ≠ '\\' := by
  refine ⟨⟨?_, ?_⟩, ?_⟩ <;> rintro rfl <;> exact absurd h (by decide +kernel)

/-- A variable is written as its symbol or with its key as an index. -/
theorem toList_variableName {r : Registry} (h : r.Alphabetic) (key : Key) :
    (∃ c, isAlphabetic c = true ∧ key = .ofSymbol c ∧ (variableName r key).toList = [c]) ∨
      (variableName r key).toList =
        "v_".toList ++ '\x7b' :: (Nat.toDigits 10 key.toNat ++ ['\x7d']) := by
  rw [variableName]
  cases found : r.find? key with
  | some e =>
    have own : Key.ofSymbol e.symbol = key := Registry.key_of_find? found
    exact .inl ⟨e.symbol, h.of_find? found, own.symm, by simp⟩
  | none => exact .inr (by simp [braced])

end Phrase

/-! ### Terms -/

namespace Term

variable {r r' : Registry} {s t : Term Key}

/-- The phrase of a term. -/
def phrase (r : Registry) : Term Key → Phrase
  | number x => ⟨.number x, decimalText x⟩
  | var key => ⟨.name, Phrase.variableName r key⟩
  | unary op t => .unary op (t.phrase r)
  | binary op s t => .binary op (s.phrase r) (t.phrase r)

theorem foldM_typesetting (r : Registry) (t : Term Key) :
    t.foldM (typesetting r) = .ok (t.phrase r) := by
  induction t with
  | number x => rfl
  | var key => rfl
  | unary op t ih =>
    rw [foldM, ih]
    rfl
  | binary op s t ihs iht =>
    rw [foldM, ihs, iht]
    rfl

theorem balanced_phrase (h : r.Alphabetic) (t : Term Key) :
    Balanced (t.phrase r).text.toList := by
  induction t with
  | number x =>
    exact .of_bare fun c hc => (Phrase.bare_of_isNumeral (isNumeral_of_mem_decimalText hc)).1
  | var key =>
    rcases Phrase.toList_variableName h key with ⟨c, letter, -, text⟩ | text <;> rw [phrase, text]
    · exact .cons (Phrase.bare_of_isAlphabetic letter).1 .nil
    · refine (Phrase.balanced_of_all rfl).append (.group (.of_bare fun c hc => ?_) .nil)
      have digit := Nat.isDigit_of_mem_toDigits (by decide) (by decide) hc
      exact (Phrase.bare_of_isNumeral (.inl digit)).1
  | unary op t ih => exact Phrase.balanced_unary op ih
  | binary op s t ihs iht => exact Phrase.balanced_binary op ihs iht

theorem begun_phrase (h : r.Alphabetic) (t : Term Key) : (t.phrase r).Begun := by
  cases t with
  | number x =>
    refine Phrase.begun_of_notMem fun hc => ?_
    exact (Phrase.bare_of_isNumeral (isNumeral_of_mem_decimalText hc)).2 rfl
  | var key =>
    apply Phrase.begun_of_notMem
    rcases Phrase.toList_variableName h key with ⟨c, letter, -, text⟩ | text <;> rw [phrase, text]
    · simpa using (Phrase.bare_of_isAlphabetic letter).2.symm
    · have digits : '\\' ∉ Nat.toDigits 10 key.toNat := notMem_toDigits rfl _
      simpa using digits
  | unary op t => exact Phrase.begun_unary op _
  | binary op s t => exact Phrase.begun_binary op _ _

end Term

end Fluxion
