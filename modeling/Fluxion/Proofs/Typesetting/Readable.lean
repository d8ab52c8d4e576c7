import Fluxion.Proofs.Forest.Numbers
import Fluxion.Proofs.Forest.Unfolding
import Fluxion.Proofs.Typesetting.Phrases

/-!
# Markup can be read back

Two expressions with the same markup are the same, if numbers that are printed alike are. The part
of the markup in front of the first brace tells the functions and the quotient from each other and
from the leaves, the part between the operands tells the other operations, and braces and
parentheses show where an operand ends.
-/

namespace Fluxion

/-- Different numbers of the two lists are printed differently. -/
def Distinguished (xs ys : List Float) : Prop :=
  ∀ x ∈ xs, ∀ y ∈ ys, x.isNaN = false → y.isNaN = false → decimalText x = decimalText y → x = y

namespace Term

open Phrase

variable {r r' : Registry} {s t : Term Key}

theorem number_of_text {x y : Float} (h : Distinguished [x] [y])
    (same : decimalText x = decimalText y) : x = y := by
  have nan {x : Float} (number : x.isNaN = true) : decimalText x = "NaN" := by
    rw [decimalText, Layout.write, if_pos number]
  cases left : x.isNaN with
  | false =>
    cases right : y.isNaN with
    | false => exact h x (by simp) y (by simp) left right same
    | true => exact absurd (same.trans (nan right)) (decimalText_ne_nan left)
  | true =>
    cases right : y.isNaN with
    | false => exact absurd (same.symm.trans (nan left)) (decimalText_ne_nan right)
    | true => rw [eq_of_isNaN left, eq_of_isNaN right]

theorem key_of_text {key key' : Key} (h : r.Alphabetic) (h' : r'.Alphabetic)
    (same : (variableName r key).toList = (variableName r' key').toList) : key = key' := by
  rcases toList_variableName h key with ⟨c, -, rfl, text⟩ | text <;>
    rcases toList_variableName h' key' with ⟨c', -, rfl, text'⟩ | text' <;> rw [text, text'] at same
  · rw [(List.cons.inj same).1]
  · cases same
  · cases same
  · have digits : Nat.toDigits 10 key.toNat = Nat.toDigits 10 key'.toNat := by simpa using same
    exact UInt64.toNat_inj.mp (eq_of_toDigits digits)

theorem number_ne_variable (h : r.Alphabetic) (x : Float) (key : Key) :
    (decimalText x).toList ≠ (variableName r key).toList := by
  rcases toList_variableName h key with ⟨c, letter, -, text⟩ | text <;> rw [text] <;> intro same
  · rcases isDigit_of_decimalText same with digit | rfl
    · rw [not_isAlphabetic_of_isDigit digit] at letter
      cases letter
    · exact absurd letter (by decide +kernel)
  · have brace : '\x7b' ∈ (decimalText x).toList := by simp [same]
    exact (bare_of_isNumeral (isNumeral_of_mem_decimalText brace)).1.1 rfl

/-! ### What is in front of the first brace -/

def lead? (r : Registry) : Term Key → Option String
  | number _ => none
  | var key => if (r.find? key).isSome then none else some "v_"
  | unary op _ => some op.lead
  | binary op _ _ => some op.lead

theorem lead?_var_ne_unary (r : Registry) (key : Key) (op : Unary) :
    (var key).lead? r ≠ some op.lead := by
  rw [lead?]
  split
  · exact nofun
  · intro same
    have found : Unary.ofLead? "v_" = some op := Option.some.inj same ▸ Unary.ofLead?_lead op
    have none : Unary.ofLead? "v_" = none := rfl
    rw [none] at found
    cases found

theorem lead?_var_ne_binary (r : Registry) (key : Key) (op : Binary) :
    (var key).lead? r ≠ some op.lead := by
  rw [lead?]
  split
  · exact nofun
  · cases op <;> decide

theorem lead_ne (op : Unary) (op' : Binary) : some op.lead ≠ some op'.lead := by
  intro same
  have found := Unary.ofLead?_lead op
  rw [Option.some.inj same, Binary.ofLead?_lead] at found
  cases found

theorem notMem_of_lead?_eq_none (h : r.Alphabetic) (unled : t.lead? r = none) :
    '\x7b' ∉ (t.phrase r).text.toList := by
  cases t with
  | number x =>
    exact fun brace => (bare_of_isNumeral (isNumeral_of_mem_decimalText brace)).1.1 rfl
  | var key =>
    rw [phrase, variableName]
    cases found : r.find? key with
    | some e =>
      have letter := (bare_of_isAlphabetic (h.of_find? found)).1.1
      simpa using letter.symm
    | none => simp [lead?, found] at unled
  | unary op t => cases unled
  | binary op s t => cases unled

theorem exists_of_lead?_eq_some {lead : String} (led : t.lead? r = some lead) :
    '\x7b' ∉ lead.toList ∧ ∃ rest, (t.phrase r).text.toList = lead.toList ++ '\x7b' :: rest := by
  cases t with
  | number x => cases led
  | var key =>
    rw [phrase, variableName]
    cases found : r.find? key with
    | some e => simp [lead?, found] at led
    | none =>
      have name : lead = "v_" := by simpa [lead?, found, eq_comm] using led
      subst name
      exact ⟨notMem_of_all rfl, _, by simp [braced]; rfl⟩
  | unary op t =>
    cases led
    obtain ⟨d, text⟩ := toList_unary op (t.phrase r)
    exact ⟨notMem_of_all op.all_bare_lead, _, text⟩
  | binary op s t =>
    cases led
    obtain ⟨d, d', text⟩ := toList_binary op (s.phrase r) (t.phrase r)
    exact ⟨notMem_of_all op.all_bare_lead, _, text⟩

theorem lead?_eq (h : r.Alphabetic) (h' : r'.Alphabetic)
    (same : (s.phrase r).text = (t.phrase r').text) : s.lead? r = t.lead? r' := by
  cases left : s.lead? r with
  | none =>
    cases right : t.lead? r' with
    | none => rfl
    | some lead =>
      obtain ⟨-, rest, text⟩ := exists_of_lead?_eq_some right
      have absent := notMem_of_lead?_eq_none h left
      rw [same, text] at absent
      simp at absent
  | some lead =>
    obtain ⟨free, rest, text⟩ := exists_of_lead?_eq_some left
    cases right : t.lead? r' with
    | none =>
      have absent := notMem_of_lead?_eq_none h' right
      rw [← same, text] at absent
      simp at absent
    | some lead' =>
      obtain ⟨free', rest', text'⟩ := exists_of_lead?_eq_some right
      rw [same, text'] at text
      rw [String.toList_inj.mp (eq_of_append_cons free' free text).1]

/-! ### Operands -/

theorem operand_of_unary {p q : Phrase} {op : Unary} (balanced : Balanced p.text.toList)
    (balanced' : Balanced q.text.toList) (begun : p.Begun) (begun' : q.Begun)
    (same : (Phrase.unary op p).text = (Phrase.unary op q).text) : p.text = q.text := by
  obtain ⟨d, text⟩ := toList_unary op p
  obtain ⟨d', text'⟩ := toList_unary op q
  rw [same, text'] at text
  have rests := List.append_cancel_left (List.cons.inj (List.append_cancel_left text)).2
  have operands := (balanced_operand balanced' d').cut (balanced_operand balanced d) rests
  exact text_of_operand begun begun' (String.toList_inj.mp operands.1).symm

theorem operands_of_binary {p q p' q' : Phrase} {op op' : Binary}
    (balanced : Balanced p.text.toList) (balanced' : Balanced p'.text.toList) (begun : p.Begun)
    (begun' : p'.Begun) (begunRight : q.Begun) (begunRight' : q'.Begun)
    (lead : op.lead = op'.lead)
    (same : (Phrase.binary op p q).text = (Phrase.binary op' p' q').text) :
    op = op' ∧ p.text = p'.text ∧ q.text = q'.text := by
  obtain ⟨d, e, text⟩ := toList_binary op p q
  obtain ⟨d', e', text'⟩ := toList_binary op' p' q'
  rw [same, text', lead] at text
  have rests := (List.cons.inj (List.append_cancel_left text)).2
  obtain ⟨left, rests⟩ := (balanced_operand balanced' d').cut (balanced_operand balanced d) rests
  obtain ⟨joint, rests⟩ := eq_of_append_cons op'.notMem_joint op.notMem_joint rests
  have right := String.toList_inj.mp (List.append_cancel_right rests)
  exact ⟨Binary.eq_of_lead lead (String.toList_inj.mp joint).symm,
    text_of_operand begun begun' (String.toList_inj.mp left).symm,
    text_of_operand begunRight begunRight' right.symm⟩

theorem eq_of_text (h : r.Alphabetic) (h' : r'.Alphabetic)
    (numbers : Distinguished s.numbers t.numbers)
    (same : (s.phrase r).text = (t.phrase r').text) : s = t := by
  have leads := lead?_eq h h' same
  induction s generalizing t with
  | number x =>
    cases t with
    | number y => rw [number_of_text numbers same]
    | var key => exact absurd (congrArg String.toList same) (number_ne_variable h' x key)
    | unary op t => cases leads
    | binary op s t => cases leads
  | var key =>
    cases t with
    | number y => exact absurd (congrArg String.toList same).symm (number_ne_variable h y key)
    | var key' => rw [key_of_text h h' (congrArg String.toList same)]
    | unary op t => exact absurd leads (lead?_var_ne_unary r key op)
    | binary op s t => exact absurd leads (lead?_var_ne_binary r key op)
  | unary op s ih =>
    cases t with
    | number y => cases leads
    | var key => exact absurd leads.symm (lead?_var_ne_unary r' key op)
    | unary op' t =>
      obtain rfl := Unary.lead_injective (Option.some.inj leads)
      have operand := operand_of_unary (s.balanced_phrase h) (t.balanced_phrase h')
        (s.begun_phrase h) (t.begun_phrase h') same
      rw [ih (t := t) numbers operand (lead?_eq h h' operand)]
    | binary op' t u => exact absurd leads (lead_ne op op')
  | binary op s u ihs ihu =>
    cases t with
    | number y => cases leads
    | var key => exact absurd leads.symm (lead?_var_ne_binary r' key op)
    | unary op' t => exact absurd leads.symm (lead_ne op' op)
    | binary op' t v =>
      obtain ⟨rfl, left, right⟩ := operands_of_binary (s.balanced_phrase h) (t.balanced_phrase h')
        (s.begun_phrase h) (t.begun_phrase h') (u.begun_phrase h) (v.begun_phrase h')
        (Option.some.inj leads) same
      have numbersLeft : Distinguished s.numbers t.numbers := fun x hx y hy =>
        numbers x (by simp [Term.numbers, hx]) y (by simp [Term.numbers, hy])
      have numbersRight : Distinguished u.numbers v.numbers := fun x hx y hy =>
        numbers x (by simp [Term.numbers, hx]) y (by simp [Term.numbers, hy])
      rw [ihs numbersLeft left (lead?_eq h h' left), ihu numbersRight right (lead?_eq h h' right)]

end Term

theorem Tree.Fits.exists_number {cells : Array Cell} {t : Tree} (h : t.Fits cells) {x : Float}
    (hx : x ∈ t.term.numbers) : ∃ m ∈ t.nodes, cells[m]? = some (.number x) := by
  induction t with
  | number i y =>
    cases List.mem_singleton.mp hx
    exact ⟨i, by simp, h.cell⟩
  | var i key => cases hx
  | unary i op t ih =>
    obtain ⟨m, within, cell⟩ := ih h.2 hx
    exact ⟨m, by simp [within], cell⟩
  | binary i op s t ihs iht =>
    rcases List.mem_append.mp hx with hx | hx
    · obtain ⟨m, within, cell⟩ := iht h.2.2 hx
      exact ⟨m, by simp [within], cell⟩
    · obtain ⟨m, within, cell⟩ := ihs h.2.1 hx
      exact ⟨m, by simp [within], cell⟩

namespace Forest

theorem markup?_eq {f : Forest} {t : Tree} (fits : t.Fits f.cells) :
    f.markup? t.top = some (t.term.phrase f.registry).text := by
  rw [markup?, program_eq fits, Algebra.run_program, Term.foldM_typesetting]

/-- Two nodes with the same markup unfold to the same term, in whichever forests they are, if
numbers below them that are printed alike are the same number or both no number. -/
theorem markup_readable (f g : Forest) (i j : Nat) (acyclic : f.AcyclicFrom i)
    (acyclic' : g.AcyclicFrom j) (alphabetic : f.registry.Alphabetic)
    (alphabetic' : g.registry.Alphabetic)
    (distinguished : ∀ m n x y, f.Reaches i m → g.Reaches j n →
      f.cells[m]? = some (.number x) → g.cells[n]? = some (.number y) →
      x.isNaN = false → y.isNaN = false → decimalText x = decimalText y → x = y) :
    ∃ (s t : Term Key) (text text' : String), f.term? i = some s ∧ g.term? j = some t ∧
      f.markup? i = some text ∧ g.markup? j = some text' ∧ (text = text' → s = t) := by
  obtain ⟨u, rfl, fits⟩ := acyclic.exists_tree
  obtain ⟨v, rfl, fits'⟩ := acyclic'.exists_tree
  refine ⟨_, _, _, _, term?_eq fits, term?_eq fits', markup?_eq fits, markup?_eq fits', ?_⟩
  refine Term.eq_of_text alphabetic alphabetic' fun x hx y hy => ?_
  obtain ⟨m, below, cell⟩ := fits.exists_number hx
  obtain ⟨n, below', cell'⟩ := fits'.exists_number hy
  exact distinguished m n x y (reachable_of_mem_nodes fits below)
    (reachable_of_mem_nodes fits' below') cell cell'

/-- The forest of `sin(x) ^ -2`. -/
def powerOfSine : Forest where
  cells := #[.var (.ofSymbol 'x'), .unary .sin 0, .number (-2), .binary .pow 1 2]
  parents := #[some 1, some 3, some 3, none]
  root := some 3
  registry := ⟨[⟨'x', none⟩]⟩

example :
    powerOfSine.markup = "\x7b\\left(\\sin\\left(\x7bx\x7d\\right)\\right)\x7d^\x7b-2\x7d" := by
  decide +kernel

/-- The same expression below a sum, between whose operands it is shared. -/
def sumOfPowers : Forest where
  cells := #[.number (-2), .var (.ofSymbol 'x'), .unary .sin 1, .binary .pow 2 0, .binary .add 3 3]
  parents := #[some 3, some 2, some 3, some 4, none]
  root := some 4
  registry := ⟨[⟨'y', some 1⟩, ⟨'x', none⟩]⟩

theorem markup_readable_powerOfSine :
    powerOfSine.AcyclicFrom 3 ∧ sumOfPowers.AcyclicFrom 3 ∧ powerOfSine.registry.Alphabetic ∧
      sumOfPowers.registry.Alphabetic ∧ powerOfSine.markup? 3 = sumOfPowers.markup? 3 ∧
      powerOfSine.term? 3 = sumOfPowers.term? 3 := by
  have fits : (Tree.binary 3 .pow (.unary 1 .sin (.var 0 (.ofSymbol 'x')))
    (.number 2 (-2))).Fits powerOfSine.cells := ⟨rfl, ⟨rfl, rfl⟩, rfl⟩
  have fits' : (Tree.binary 3 .pow (.unary 2 .sin (.var 1 (.ofSymbol 'x')))
    (.number 0 (-2))).Fits sumOfPowers.cells := ⟨rfl, ⟨rfl, rfl⟩, rfl⟩
  have alphabetic : powerOfSine.registry.Alphabetic :=
    .of_isAlpha (by simp [Registry.symbols, powerOfSine])
  have alphabetic' : sumOfPowers.registry.Alphabetic :=
    .of_isAlpha (by simp [Registry.symbols, sumOfPowers])
  have same : powerOfSine.markup? 3 = sumOfPowers.markup? 3 := by decide +kernel
  have number {m : Nat} {x : Float} (cell : powerOfSine.cells[m]? = some (.number x)) :
      x = -2 := by
    have mem : Cell.number x ∈ powerOfSine.cells := Array.mem_of_getElem? cell
    simpa [powerOfSine] using mem
  have number' {n : Nat} {y : Float} (cell : sumOfPowers.cells[n]? = some (.number y)) :
      y = -2 := by
    have mem : Cell.number y ∈ sumOfPowers.cells := Array.mem_of_getElem? cell
    simpa [sumOfPowers] using mem
  obtain ⟨s, t, text, text', hs, ht, written, written', readable⟩ :=
    markup_readable powerOfSine sumOfPowers 3 3 (acyclicFrom_of_fits fits)
      (acyclicFrom_of_fits fits') alphabetic alphabetic' fun m n x y _ _ cell cell' _ _ _ =>
        (number cell).trans (number' cell').symm
  rw [written, written'] at same
  refine ⟨acyclicFrom_of_fits fits, acyclicFrom_of_fits fits', alphabetic, alphabetic', ?_, ?_⟩
  · rw [written, written', same]
  · rw [hs, ht, readable (Option.some.inj same)]

end Forest

end Fluxion
