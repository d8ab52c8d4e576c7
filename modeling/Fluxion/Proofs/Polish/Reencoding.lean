import Fluxion.Proofs.Forest.Agreement
import Fluxion.Proofs.Polish.Rereading

/-!
# The tokens of a text that is written again

What is written for a forest that was read in prefix notation has the tokens of the text, except
that a number gets the text of its value and that a symbol is replaced by the first one that has
its key. So the second of two symbols with one key is lost, and no other. Two texts are read as
equivalent forests only if their tokens agree in the same sense.
-/

namespace Fluxion

namespace Polish

/-- The tokens of a text. -/
def tokensIn (text : String) : List Token := (spots text).map Spot.token

/-- The symbol that the token stands for, if it is the payload of a variable. -/
def Token.symbol? (k : Token) : Option Char :=
  match payload? k.text with
  | some (.symbol c) => some c
  | _ => none

/-- The symbols of a text, one for each occurrence. -/
def symbolsIn (text : String) : List Char := (tokensIn text).filterMap Token.symbol?

/-- A number gets the text of its value, and a symbol is replaced by another. -/
def Token.rewritten (other : Char → Char) (k : Token) : Token :=
  match payload? k.text with
  | some (.number x) => .word (decimalText x)
  | some (.symbol c) => .word (other c).toString
  | _ => k

/-- The same token, or equal numbers, or symbols with one key. -/
inductive Token.Alike : Token → Token → Prop where
  | same (k : Token) : Alike k k
  | number {k l : Token} {x y : Float} (left : payload? k.text = some (.number x))
    (right : payload? l.text = some (.number y)) (equal : (x == y) = true) : Alike k l
  | symbol {k l : Token} {c d : Char} (left : payload? k.text = some (.symbol c))
    (right : payload? l.text = some (.symbol d)) (key : Key.ofSymbol c = Key.ofSymbol d) :
    Alike k l

variable {w v : String} {ks ls : List Token} {s t : Term Char} {other : Char → Char}

/-! ### Single tokens -/

theorem operator_of_payload? {op : Operator} (h : payload? w = some (.operator op)) :
    op.token = w := by
  obtain ⟨op, token, ⟨⟩⟩ | ⟨c, -, -, ⟨⟩⟩ | ⟨x, -, ⟨⟩⟩ := payload?_cases h
  exact Operator.token_of_ofToken? token

theorem rewritten_of_none {k : Token} (h : payload? k.text = none) : k.rewritten other = k := by
  rw [Token.rewritten, h]

theorem rewritten_number {x : Float} (h : payload? w = some (.number x)) :
    (Token.word w).rewritten other = .word (decimalText x) := by
  rw [Token.rewritten, Token.text, h]

theorem rewritten_symbol {c : Char} (h : payload? w = some (.symbol c)) :
    (Token.word w).rewritten other = .word (other c).toString := by
  rw [Token.rewritten, Token.text, h]

theorem rewritten_operator {op : Operator} (h : payload? w = some (.operator op)) :
    (Token.word w).rewritten other = .word op.token := by
  rw [Token.rewritten, Token.text, h, operator_of_payload? h]

/-- The tokens that are no payloads are written as they are. -/
theorem rewritten_frame (other : Char → Char) : Token.opening.rewritten other = .opening ∧
    Token.closing.rewritten other = .closing ∧
    (Token.word "nil").rewritten other = .word "nil" :=
  ⟨rewritten_of_none payload?_opening, rewritten_of_none payload?_closing,
    rewritten_of_none payload?_nil⟩

theorem symbol?_of_none {k : Token} (h : payload? k.text = none) : k.symbol? = none := by
  rw [Token.symbol?, h]

theorem symbol?_number {x : Float} (h : payload? w = some (.number x)) :
    (Token.word w).symbol? = none := by
  rw [Token.symbol?, Token.text, h]

theorem symbol?_symbol {c : Char} (h : payload? w = some (.symbol c)) :
    (Token.word w).symbol? = some c := by
  rw [Token.symbol?, Token.text, h]

theorem symbol?_operator {op : Operator} (h : payload? w = some (.operator op)) :
    (Token.word w).symbol? = none := by
  rw [Token.symbol?, Token.text, h]

theorem symbol?_frame : Token.opening.symbol? = none ∧ Token.closing.symbol? = none ∧
    (Token.word "nil").symbol? = none :=
  ⟨symbol?_of_none payload?_opening, symbol?_of_none payload?_closing,
    symbol?_of_none payload?_nil⟩

theorem rewritten_eq_iff {k : Token} :
    k.rewritten other = k.rewritten id ↔ ∀ c ∈ k.symbol?, other c = c := by
  unfold Token.rewritten Token.symbol?
  cases payload? k.text with
  | none => simp
  | some p =>
    cases p with
    | number x => simp
    | symbol c => simp
    | operator op => simp

theorem map_rewritten_eq_iff : ks.map (Token.rewritten other) = ks.map (Token.rewritten id) ↔
    ∀ c ∈ ks.filterMap Token.symbol?, other c = c := by
  simp only [List.map_inj_left, rewritten_eq_iff, List.mem_filterMap, Option.mem_def]
  constructor
  · rintro same c ⟨k, hk, symbol⟩
    exact same k hk c symbol
  · intro same k hk c symbol
    exact same c ⟨k, hk, symbol⟩

/-! ### The tokens of a subtree -/

theorem Written.rewritten (h : Written ks t) (other : Char → Char) :
    ks.map (Token.rewritten other) = tokens (t.map other) := by
  obtain ⟨opening, closing, nothing⟩ := rewritten_frame other
  induction h with
  | number reads =>
    simp only [List.map_cons, List.map_nil, opening, closing, nothing, rewritten_number reads]
    rfl
  | var reads =>
    simp only [List.map_cons, List.map_nil, opening, closing, nothing, rewritten_symbol reads]
    rfl
  | unary reads operand ih =>
    simp only [List.map_cons, List.map_append, List.map_nil, opening, closing, nothing,
      rewritten_operator reads, ih, ← tokensOnto_eq]
    rfl
  | binary reads left right ihl ihr =>
    simp only [List.map_cons, List.map_append, List.map_nil, opening, closing,
      rewritten_operator reads, ihl, ihr, List.append_assoc, ← tokensOnto_eq]
    rfl

theorem Written.symbols (h : Written ks t) : ks.filterMap Token.symbol? = t.names := by
  obtain ⟨opening, closing, nothing⟩ := symbol?_frame
  induction h with
  | number reads => simp [opening, closing, nothing, symbol?_number reads, Term.names]
  | var reads => simp [opening, closing, nothing, symbol?_symbol reads, Term.names]
  | unary reads operand ih =>
    simp [opening, closing, nothing, symbol?_operator reads, Term.names, ih]
  | binary reads left right ihl ihr =>
    simp [opening, closing, symbol?_operator reads, Term.names, ihl, ihr]

theorem Written.alike (left : Written ks s) (right : Written ls t)
    (agree : (s.map Key.ofSymbol).agrees (t.map Key.ofSymbol) = true) :
    List.Forall₂ Token.Alike ks ls := by
  have rest (ks : List Token) : List.Forall₂ Token.Alike ks ks :=
    List.forall₂_same.mpr fun k _ => .same k
  induction left generalizing ls t with
  | number reads =>
    cases right with
    | number reads' =>
      exact .cons (.same _) (.cons (.number reads reads' agree) (rest _))
    | var reads' => cases agree
    | unary reads' operand' => cases agree
    | binary reads' left' right' => cases agree
  | var reads =>
    cases right with
    | var reads' =>
      have key := by simpa [Term.map, Term.agrees] using agree
      exact .cons (.same _) (.cons (.symbol reads reads' key) (rest _))
    | number reads' => cases agree
    | unary reads' operand' => cases agree
    | binary reads' left' right' => cases agree
  | unary reads operand ih =>
    cases right with
    | unary reads' operand' =>
      simp only [Term.map, Term.agrees, Bool.and_eq_true, decide_eq_true_eq] at agree
      obtain ⟨rfl, operands⟩ := agree
      rw [← operator_of_payload? reads, ← operator_of_payload? reads']
      exact .cons (.same _) (.cons (.same _) (List.rel_append (ih operand' operands) (rest _)))
    | number reads' => cases agree
    | var reads' => cases agree
    | binary reads' left' right' => cases agree
  | binary reads left right ihl ihr =>
    cases right with
    | binary reads' left' right' =>
      simp only [Term.map, Term.agrees, Bool.and_eq_true, decide_eq_true_eq] at agree
      obtain ⟨⟨rfl, lefts⟩, rights⟩ := agree
      rw [← operator_of_payload? reads, ← operator_of_payload? reads']
      exact .cons (.same _) (.cons (.same _) (List.rel_append
        (List.rel_append (ihl left' lefts) (ihr right' rights)) (rest _)))
    | number reads' => cases agree
    | var reads' => cases agree
    | unary reads' operand' => cases agree

end Polish

namespace Forest

open Polish

variable {f : Forest} {t : Term Char} {text : String}

theorem Read.tokensIn_polish (h : f.Read t) :
    tokensIn (write (t.map f.registry.named)) = tokens (t.map f.registry.named) := by
  refine tokens_spots_write ?_
  rw [Term.names_map, List.forall_mem_map]
  intro c hc
  exact h.isAlphabetic _ (h.named_mem hc)

/-- The text that is written for a forest has the tokens of the one that was read, up to the
spelling of numbers, if and only if no two symbols of the text have one key. -/
theorem tokens_polish (made : ofPolish text = .ok f) :
    (∃ written, f.polish = .ok written ∧
      tokensIn written = (tokensIn text).map (Token.rewritten f.registry.named) ∧
      (tokensIn written = (tokensIn text).map (Token.rewritten id) ↔
        ∀ c ∈ symbolsIn text, ∀ d ∈ symbolsIn text, Key.ofSymbol c = Key.ofSymbol d → c = d)) ∧
    ∀ (text' : String) (g : Forest), ofPolish text' = .ok g → f.equivalent g = true →
      List.Forall₂ Token.Alike (tokensIn text) (tokensIn text') := by
  obtain ⟨t, read, -⟩ := Except.bind_eq_ok made
  have written : Written (tokensIn text) t := written_of_read read
  have read : f.Read t := .ofPolish read made
  have symbols : symbolsIn text = t.names := written.symbols
  constructor
  · refine ⟨_, read.polish, ?_, ?_⟩
    · rw [read.tokensIn_polish]
      exact (written.rewritten _).symm
    · rw [read.tokensIn_polish, ← written.rewritten, map_rewritten_eq_iff, written.symbols, symbols,
        ← Registry.named_eq_self_iff, read.laid.registry]
  · intro text' g made' equivalent
    obtain ⟨u, read', -⟩ := Except.bind_eq_ok made'
    have written' := written_of_read read'
    have read' : g.Read u := .ofPolish read' made'
    refine written.alike written' ?_
    rw [equivalent_eq read.laid.fits read'.laid.fits read.laid.root read'.laid.root,
      Term.term_laid, Term.term_laid] at equivalent
    exact equivalent

theorem key_confused : Key.ofSymbol 'é' = Key.ofSymbol 'Ĉ' := by decide

/-- The second factor is written with the symbol of the first one. -/
theorem tokens_polish_confused :
    let text := "( * ( é nil nil ) ( Ĉ nil nil ) )"
    ofPolish text = .ok confused ∧
      ∃ written, confused.polish = .ok written ∧
        tokensIn written = (tokensIn text).map (Token.rewritten confused.registry.named) ∧
        tokensIn written ≠ (tokensIn text).map (Token.rewritten id) := by
  intro text
  obtain ⟨⟨written, polish, rewritten, kept⟩, -⟩ := tokens_polish ofPolish_confused
  have symbols : symbolsIn text = ['é', 'Ĉ'] := by decide +kernel
  refine ⟨ofPolish_confused, written, polish, rewritten, ?_⟩
  intro same
  have one := kept.mp same 'é' (by simp [text, symbols]) 'Ĉ' (by simp [text, symbols]) key_confused
  exact absurd one (by decide)

end Forest

end Fluxion
