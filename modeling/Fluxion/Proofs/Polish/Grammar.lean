import Fluxion.Polish.Reader
import Fluxion.Proofs.Sequencing

/-!
# The grammar of prefix notation

Which tokens are written for which terms, regardless of how they are read. What the reader has
taken at any time are the tokens of the subtrees that are open, of which the outermost comes
first, and then those of the operands that it has for the innermost one.
-/

namespace Fluxion.Polish

/-- What a payload stands for. -/
inductive Payload where
  | operator (op : Operator)
  | symbol (c : Char)
  | number (value : Float)

def payload? (w : String) : Option Payload :=
  match Operator.ofToken? w with
  | some op => some (.operator op)
  | none =>
    let number := (Decimal.read? w).map Payload.number
    match w.toList with
    | [c] => if isAlphabetic c then some (.symbol c) else number
    | _ => number

/-- The tokens of a subtree and its term. -/
inductive Written : List Token → Term Char → Prop where
  | number {w : String} {x : Float} (reads : payload? w = some (.number x)) :
    Written [.opening, .word w, .word "nil", .word "nil", .closing] (.number x)
  | var {w : String} {c : Char} (reads : payload? w = some (.symbol c)) :
    Written [.opening, .word w, .word "nil", .word "nil", .closing] (.var c)
  | unary {w : String} {op : Unary} {ks : List Token} {t : Term Char}
    (reads : payload? w = some (.operator (.unary op))) (operand : Written ks t) :
    Written (.opening :: .word w :: (ks ++ [.word "nil", .closing])) (.unary op t)
  | binary {w : String} {op : Binary} {ks ls : List Token} {s t : Term Char}
    (reads : payload? w = some (.operator (.binary op))) (left : Written ks s)
    (right : Written ls t) :
    Written (.opening :: .word w :: (ks ++ ls ++ [.closing])) (.binary op s t)

/-- The tokens of what stands in the place of an operand. -/
inductive Supplied : List Token → Option (Term Char) → Prop where
  | nil : Supplied [.word "nil"] none
  | term {ks : List Token} {t : Term Char} (written : Written ks t) : Supplied ks (some t)

/-- The tokens of subtrees that are open, of which the innermost is listed first. -/
inductive Opened : List Token → List Pending → Prop where
  | nil : Opened [] []
  | bare {ks : List Token} {pending : List Pending} (outer : Opened ks pending)
    (start site : Nat) (k : Token) :
    Opened (ks ++ [.opening, k]) (⟨start, site, k.text, none⟩ :: pending)
  | left {ks ls : List Token} {pending : List Pending} {o : Operand} (outer : Opened ks pending)
    (start site : Nat) (k : Token) (operand : Supplied ls o.term?) :
    Opened (ks ++ .opening :: k :: ls) (⟨start, site, k.text, some o⟩ :: pending)

/-- The reader is in the state after these tokens. -/
def State.After (ks : List Token) : State → Prop
  | operand pending => Opened ks pending
  | payload _ pending => ∃ outer, ks = outer ++ [.opening] ∧ Opened outer pending
  | closing _ t pending => ∃ outer ls, ks = outer ++ ls ∧ Opened outer pending ∧
      Written (ls ++ [.closing]) t
  | complete t => Written ks t

variable {text w : String} {start site : Nat} {t : Term Char} {o l r : Operand} {k : Token}
  {ks ls rs : List Token} {p : Pending} {pending : List Pending} {state state' : State}
  {s : Spot} {ss : List Spot}

/-! ### What a payload means -/

theorem payload?_closing : payload? ")" = none := by decide +kernel

theorem payload?_opening : payload? "(" = none := by decide +kernel

theorem payload?_nil : payload? "nil" = none := rfl

/-- Parentheses are no payloads. -/
theorem word_of_payload? {p : Payload} (h : payload? k.text = some p) : k = .word k.text := by
  cases k with
  | opening => cases payload?_opening.symm.trans h
  | closing => cases payload?_closing.symm.trans h
  | word text => rfl

theorem payload?_operator {op : Operator} (h : Operator.ofToken? w = some op) :
    payload? w = some (.operator op) := by
  simp only [payload?, h]

/-- A payload is the token of an operator, a single letter, or else a numeral. -/
theorem payload?_cases {p : Payload} (h : payload? w = some p) :
    (∃ op, Operator.ofToken? w = some op ∧ p = .operator op) ∨
      (∃ c, w.toList = [c] ∧ isAlphabetic c = true ∧ p = .symbol c) ∨
      ∃ x, Decimal.read? w = some x ∧ p = .number x := by
  have numeral (h : (Decimal.read? w).map Payload.number = some p) :
      ∃ x, Decimal.read? w = some x ∧ p = .number x := by
    obtain ⟨x, reads, rfl⟩ := Option.map_eq_some_iff.mp h
    exact ⟨x, reads, rfl⟩
  unfold payload? at h
  split at h
  · next op token =>
    cases h
    exact Or.inl ⟨op, token, rfl⟩
  · dsimp only at h
    split at h
    · next c single =>
      split at h
      · next letter =>
        cases h
        exact Or.inr (Or.inl ⟨c, single, letter, rfl⟩)
      · exact Or.inr (Or.inr (numeral h))
    · exact Or.inr (Or.inr (numeral h))

theorem isAlphabetic_of_payload? {c : Char} (h : payload? w = some (.symbol c)) :
    w = c.toString ∧ isAlphabetic c = true := by
  obtain ⟨op, -, ⟨⟩⟩ | ⟨d, single, letter, ⟨⟩⟩ | ⟨x, -, ⟨⟩⟩ := payload?_cases h
  refine ⟨?_, letter⟩
  rw [← w.ofList_toList, single]
  rfl

theorem payload?_symbol {c : Char} (token : Operator.ofToken? w = none) (single : w.toList = [c])
    (letter : isAlphabetic c = true) : payload? w = some (.symbol c) := by
  simp [payload?, token, single, letter]

theorem payload?_number {x : Float} (token : Operator.ofToken? w = none)
    (other : ∀ c, w.toList = [c] → isAlphabetic c ≠ true) (reads : Decimal.read? w = some x) :
    payload? w = some (.number x) := by
  simp only [payload?, token, reads]
  split
  · next c single =>
    rw [if_neg (other c single)]
    rfl
  · rfl

theorem leaf_of_letter {c : Char} (single : w.toList = [c]) (letter : isAlphabetic c = true)
    (site : Nat) : leaf site w = .ok (.var c) := by
  simp only [leaf, single, letter, if_true]

theorem leaf_of_other (other : ∀ c, w.toList = [c] → isAlphabetic c ≠ true) (site : Nat) :
    leaf site w = (Decimal.read? w).elim
      (.error (.malformed site "operator, number or variable")) fun x => .ok (.number x) := by
  unfold leaf
  dsimp only
  split
  · next c single =>
    rw [if_neg (other c single)]
    cases Decimal.read? w <;> rfl
  · cases Decimal.read? w <;> rfl

/-- A payload without operands is a number or a symbol. -/
theorem payload?_leaf (token : Operator.ofToken? w = none) (h : leaf site w = .ok t) :
    (∃ x, payload? w = some (.number x) ∧ t = .number x) ∨
      ∃ c, payload? w = some (.symbol c) ∧ t = .var c := by
  by_cases symbol : ∃ c, w.toList = [c] ∧ isAlphabetic c = true
  · obtain ⟨c, single, letter⟩ := symbol
    rw [leaf_of_letter single letter] at h
    cases h
    exact Or.inr ⟨c, payload?_symbol token single letter, rfl⟩
  · have other (c) (single : w.toList = [c]) : isAlphabetic c ≠ true :=
      fun letter => symbol ⟨c, single, letter⟩
    rw [leaf_of_other other] at h
    cases reads : Decimal.read? w with
    | none =>
      rw [reads] at h
      cases h
    | some x =>
      rw [reads] at h
      cases h
      exact Or.inl ⟨x, payload?_number token other reads, rfl⟩

/-! ### What the reader has taken -/

theorem Supplied.eq_nil (h : Supplied ks none) : ks = [.word "nil"] := by
  cases h
  rfl

theorem Supplied.written (h : Supplied ks (some t)) : Written ks t := by
  cases h
  assumption

theorem written_build (h : build ⟨start, site, k.text, some l⟩ l r = .ok t)
    (left : Supplied ls l.term?) (right : Supplied rs r.term?) :
    Written (.opening :: k :: (ls ++ rs ++ [.closing])) t := by
  unfold build at h
  split at h
  · next op token =>
    have reads := payload?_operator token
    rw [word_of_payload? reads]
    split at h
    · cases h
    · next hl hr =>
      cases h
      rw [hl] at left
      rw [hr] at right
      rw [right.eq_nil, List.append_assoc]
      exact .unary reads left.written
    · cases h
    · cases h
    · next hl hr =>
      cases h
      rw [hl] at left
      rw [hr] at right
      exact .binary reads left.written right.written
  · next token =>
    split at h
    · cases h
    · next hl =>
      split at h
      · cases h
      · next hr =>
        rw [Bool.not_eq_true, Option.isSome_eq_false_iff, Option.isNone_iff_eq_none] at hl hr
        rw [hl] at left
        rw [hr] at right
        rw [left.eq_nil, right.eq_nil]
        rcases payload?_leaf token h with ⟨x, reads, rfl⟩ | ⟨c, reads, rfl⟩
        · rw [word_of_payload? reads]
          exact .number reads
        · rw [word_of_payload? reads]
          exact .var reads

theorem after_supply (opened : Opened ks pending) (operand : Supplied ls o.term?)
    (h : supply o pending = .ok state) : state.After (ks ++ ls) := by
  cases opened with
  | nil =>
    simp only [supply] at h
    split at h
    · next t present =>
      cases h
      rw [present] at operand
      exact operand.written
    · cases h
  | bare outer start site k =>
    cases h
    rw [List.append_assoc]
    exact .left outer start site k operand
  | @left outer ls' pending l opened start site k left =>
    obtain ⟨t, built, h⟩ := Except.bind_eq_ok h
    cases h
    refine ⟨outer, .opening :: k :: (ls' ++ ls), by simp, opened, ?_⟩
    exact written_build built left operand

theorem after_step (before : state.After ks) (h : step state s = .ok state') :
    state'.After (ks ++ [s.token]) := by
  cases state with
  | operand pending =>
    simp only [step] at h
    split at h
    · next token =>
      cases h
      exact ⟨ks, by rw [token], before⟩
    · split at h
      · next token =>
        rw [token]
        exact after_supply before .nil h
      · cases h
  | payload start pending =>
    obtain ⟨outer, rfl, opened⟩ := before
    cases h
    rw [List.append_assoc]
    exact .bare opened start s.start s.token
  | closing start t pending =>
    obtain ⟨outer, ls, rfl, opened, written⟩ := before
    simp only [step] at h
    split at h
    · next token =>
      rw [token, List.append_assoc]
      exact after_supply opened (.term written) h
    · cases h
  | complete t => cases h

theorem after_foldlM (before : state.After ks) (h : ss.foldlM step state = .ok state') :
    state'.After (ks ++ ss.map Spot.token) := by
  induction ss generalizing state ks with
  | nil =>
    cases h
    rwa [List.map_nil, List.append_nil]
  | cons s ss ih =>
    rw [List.foldlM_cons] at h
    obtain ⟨next, taken, rest⟩ := Except.bind_eq_ok h
    have after := ih (after_step before taken) rest
    rwa [List.append_assoc] at after

/-- The tokens of a text that is read are those of one subtree. -/
theorem written_of_read (h : read text = .ok t) : Written ((spots text).map Spot.token) t := by
  obtain ⟨state, taken, finish⟩ := Except.bind_eq_ok h
  have start : (State.operand []).After [] := .nil
  have after := after_foldlM start taken
  cases state with
  | complete u =>
    cases finish
    exact after
  | operand pending => cases finish
  | payload start pending => cases finish
  | closing start u pending => cases finish

theorem Written.isAlphabetic (h : Written ks t) : ∀ c ∈ t.names, isAlphabetic c = true := by
  induction h with
  | number reads => simp [Term.names]
  | var reads =>
    intro c hc
    rw [Term.names, List.mem_singleton] at hc
    rw [hc]
    exact (isAlphabetic_of_payload? reads).2
  | unary reads operand ih => exact ih
  | binary reads left right ihl ihr =>
    rw [Term.names, List.forall_mem_append]
    exact ⟨ihl, ihr⟩

end Fluxion.Polish
