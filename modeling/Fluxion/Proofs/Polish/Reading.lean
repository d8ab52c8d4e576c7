import Fluxion.Proofs.Polish.Grammar
import Fluxion.Proofs.Polish.Spots

/-!
# Reading what was written

Wherever an operand is due, the reader takes the tokens of a subtree to the term that they are
written for, and what is open around it stays open. A payload can mean one thing only: the
tokens of operators are no numbers, a number is no letter, and a letter is no operator.
-/

namespace Fluxion

/-- Every symbol is alphabetic, and every number is what its text reads as. -/
def Term.Legible : Term Char → Prop
  | .number x => Decimal.read? (decimalText x) = some x
  | .var c => isAlphabetic c = true
  | .unary _ t => t.Legible
  | .binary _ s t => s.Legible ∧ t.Legible

theorem Term.Legible.isAlphabetic {t : Term Char} (h : t.Legible) :
    ∀ c ∈ t.names, isAlphabetic c = true := by
  induction t with
  | number x => simp [Term.names]
  | var c =>
    have symbol : Fluxion.isAlphabetic c = true := h
    simpa [Term.names] using symbol
  | unary op t ih => exact ih h
  | binary op s t ihs iht =>
    rw [Term.names, List.forall_mem_append]
    exact ⟨ihs h.1, iht h.2⟩

theorem not_isAlphabetic_of_isDigit {c : Char} (h : c.isDigit = true) :
    isAlphabetic c = false := by
  have outside : ∀ n ∈ List.range' 48 10, (alphabeticPoints.place n % 2 == 1) = false := by
    decide +kernel
  refine outside c.toNat (List.mem_range'_1.mpr ?_)
  simpa [Char.isDigit, UInt32.le_iff_toNat_le, Nat.lt_succ_iff] using h

namespace Operator

theorem ofToken?_token (op : Operator) : ofToken? op.token = some op := by
  rcases op with op | op <;> cases op <;> decide

theorem token_of_ofToken? {text : String} {op : Operator} (h : ofToken? text = some op) :
    op.token = text := by
  simpa using List.find?_some h

theorem not_isAlphabetic_of_token {op : Operator} {c : Char} (h : op.token = c.toString) :
    isAlphabetic c = false := by
  have single : op.token.toList = [c] := by
    rw [h]
    exact String.toList_singleton c
  rcases op with op | op
  · cases op <;> cases single <;> decide +kernel
  · cases op <;> cases single

end Operator

namespace Polish

variable {t left right : Term Char} {start site n m : Nat} {w : String} {x : Float} {c : Char}
  {pending : List Pending} {k : Token} {ks rest : List Token} {ss : List Spot}

/-! ### What a payload means -/

theorem ofToken?_numeral (h : Decimal.read? (decimalText x) = some x) :
    Operator.ofToken? (decimalText x) = none := by
  rw [Option.eq_none_iff_forall_ne_some]
  intro op token
  rw [← Operator.token_of_ofToken? token, Decimal.read?_token] at h
  cases h

theorem payload?_numeral (h : Decimal.read? (decimalText x) = some x) :
    payload? (decimalText x) = some (.number x) := by
  refine payload?_number (ofToken?_numeral h) ?_ h
  intro c single letter
  have text : decimalText x = String.ofList [c] := by rw [← single, String.ofList_toList]
  rw [text] at h
  rw [not_isAlphabetic_of_isDigit (Decimal.isDigit_of_read? h)] at letter
  cases letter

theorem ofToken?_symbol (h : isAlphabetic c = true) : Operator.ofToken? c.toString = none := by
  rw [Option.eq_none_iff_forall_ne_some]
  intro op token
  rw [Operator.not_isAlphabetic_of_token (Operator.token_of_ofToken? token)] at h
  cases h

theorem payload?_letter (h : isAlphabetic c = true) : payload? c.toString = some (.symbol c) :=
  payload?_symbol (ofToken?_symbol h) (String.toList_singleton c) h

/-- Only an operator has a token that is an operator's. -/
theorem ofToken?_eq_none {p : Payload} (reads : payload? w = some p)
    (other : ∀ op, p ≠ .operator op) : Operator.ofToken? w = none := by
  rw [Option.eq_none_iff_forall_ne_some]
  intro op token
  rw [payload?_operator token, Option.some.injEq] at reads
  exact other op reads.symm

theorem leaf_of_symbol (reads : payload? w = some (.symbol c)) : leaf site w = .ok (.var c) := by
  obtain ⟨op, -, ⟨⟩⟩ | ⟨d, single, letter, ⟨⟩⟩ | ⟨x, -, ⟨⟩⟩ := payload?_cases reads
  exact leaf_of_letter single letter site

theorem leaf_of_number (reads : payload? w = some (.number x)) :
    leaf site w = .ok (.number x) := by
  have token := ofToken?_eq_none reads nofun
  have other (d) (single : w.toList = [d]) : isAlphabetic d ≠ true := by
    intro letter
    rw [payload?_symbol token single letter] at reads
    cases reads
  obtain ⟨op, -, ⟨⟩⟩ | ⟨d, -, -, ⟨⟩⟩ | ⟨y, numeral, ⟨⟩⟩ := payload?_cases reads
  rw [leaf_of_other other, numeral]
  rfl

theorem build_leaf (token : Operator.ofToken? w = none) (h : leaf site w = .ok t)
    (left? : Option Operand) :
    build ⟨start, site, w, left?⟩ ⟨n, none⟩ ⟨m, none⟩ = .ok t := by
  simp only [build, token]
  exact h

theorem build_unary {op : Unary} (token : Operator.ofToken? w = some (.unary op))
    (left? : Option Operand) :
    build ⟨start, site, w, left?⟩ ⟨n, some t⟩ ⟨m, none⟩ = .ok (.unary op t) := by
  simp only [build, token]

theorem build_binary {op : Binary} (token : Operator.ofToken? w = some (.binary op))
    (left? : Option Operand) :
    build ⟨start, site, w, left?⟩ ⟨n, some left⟩ ⟨m, some right⟩ =
      .ok (.binary op left right) := by
  simp only [build, token]

/-! ### What the reader does with a token -/

theorem supply_left (o : Operand) (pending : List Pending) :
    supply o (⟨start, site, w, none⟩ :: pending) =
      .ok (.operand (⟨start, site, w, some o⟩ :: pending)) := rfl

theorem supply_right {l o : Operand} (h : build ⟨start, site, w, some l⟩ l o = .ok t)
    (pending : List Pending) :
    supply o (⟨start, site, w, some l⟩ :: pending) = .ok (.closing start t pending) := by
  simp only [supply, h]
  rfl

theorem exists_spot (h : ss.map Spot.token = k :: rest) :
    ∃ (n : Nat) (ss' : List Spot), ss = ⟨n, k⟩ :: ss' ∧ ss'.map Spot.token = rest := by
  obtain ⟨s, ss', rfl, rfl, tail⟩ := List.map_eq_cons_iff.mp h
  exact ⟨s.start, ss', rfl, tail⟩

/-- The front of a subtree, up to its first operand. -/
theorem foldlM_front (h : ss.map Spot.token = .opening :: .word w :: rest)
    (pending : List Pending) :
    ∃ (start site : Nat) (ss' : List Spot), ss'.map Spot.token = rest ∧
      ss.foldlM step (.operand pending) =
        ss'.foldlM step (.operand (⟨start, site, w, none⟩ :: pending)) := by
  obtain ⟨start, ss₁, rfl, h₁⟩ := exists_spot h
  obtain ⟨site, ss₂, rfl, h₂⟩ := exists_spot h₁
  exact ⟨start, site, ss₂, h₂, rfl⟩

/-- The last operand of a subtree is `nil`. -/
theorem foldlM_nil {l : Operand} (h : ss.map Spot.token = .word "nil" :: .closing :: rest)
    (start site : Nat) (built : ∀ n, build ⟨start, site, w, some l⟩ l ⟨n, none⟩ = .ok t)
    (pending : List Pending) :
    ∃ ss' : List Spot, ss'.map Spot.token = rest ∧
      ss.foldlM step (.operand (⟨start, site, w, some l⟩ :: pending)) =
        (supply ⟨start, some t⟩ pending >>= fun state => ss'.foldlM step state) := by
  obtain ⟨n, ss₁, rfl, h₁⟩ := exists_spot h
  obtain ⟨m, ss₂, rfl, h₂⟩ := exists_spot h₁
  refine ⟨ss₂, h₂, ?_⟩
  have first : step (.operand (⟨start, site, w, some l⟩ :: pending)) ⟨n, .word "nil"⟩ =
      .ok (.closing start t pending) := supply_right (built n) pending
  rw [List.foldlM_cons, first]
  rfl

theorem foldlM_leaf
    (h : ss.map Spot.token = .opening :: .word w :: .word "nil" :: .word "nil" :: .closing :: rest)
    (token : Operator.ofToken? w = none) (leaf : ∀ site, leaf site w = .ok t)
    (pending : List Pending) :
    ∃ (start : Nat) (ss' : List Spot), ss'.map Spot.token = rest ∧
      ss.foldlM step (.operand pending) =
        (supply ⟨start, some t⟩ pending >>= fun state => ss'.foldlM step state) := by
  obtain ⟨start, site, ss₁, h₁, front⟩ := foldlM_front h pending
  obtain ⟨n, ss₂, rfl, h₂⟩ := exists_spot h₁
  have built (m : Nat) : build ⟨start, site, w, some ⟨n, none⟩⟩ ⟨n, none⟩ ⟨m, none⟩ = .ok t :=
    build_leaf token (leaf site) _
  obtain ⟨ss₃, h₃, back⟩ := foldlM_nil h₂ start site built pending
  exact ⟨start, ss₃, h₃, front.trans back⟩

theorem ofToken?_of_payload? {op : Operator} (reads : payload? w = some (.operator op)) :
    Operator.ofToken? w = some op := by
  obtain ⟨op', token, ⟨⟩⟩ | ⟨d, -, -, ⟨⟩⟩ | ⟨x, -, ⟨⟩⟩ := payload?_cases reads
  exact token

/-- Where an operand is due, the tokens of a subtree supply its term. -/
theorem foldlM_written (written : Written ks t) (h : ss.map Spot.token = ks ++ rest)
    (pending : List Pending) :
    ∃ (start : Nat) (ss' : List Spot), ss'.map Spot.token = rest ∧
      ss.foldlM step (.operand pending) =
        (supply ⟨start, some t⟩ pending >>= fun state => ss'.foldlM step state) := by
  induction written generalizing ss rest pending with
  | number reads =>
    exact foldlM_leaf h (ofToken?_eq_none reads nofun) (fun _ => leaf_of_number reads) pending
  | var reads =>
    exact foldlM_leaf h (ofToken?_eq_none reads nofun) (fun _ => leaf_of_symbol reads) pending
  | @unary w op ks t reads operand ih =>
    have token := ofToken?_of_payload? reads
    rw [List.cons_append, List.cons_append, List.append_assoc] at h
    obtain ⟨start, site, ss₁, h₁, front⟩ := foldlM_front h pending
    obtain ⟨n, ss₂, h₂, taken⟩ := ih h₁ (⟨start, site, w, none⟩ :: pending)
    rw [supply_left] at taken
    obtain ⟨ss₃, h₃, back⟩ := foldlM_nil h₂ start site (fun m => build_unary token _) pending
    exact ⟨start, ss₃, h₃, front.trans (taken.trans back)⟩
  | @binary w op ks ls s t reads left right ihl ihr =>
    have token := ofToken?_of_payload? reads
    rw [List.cons_append, List.cons_append, List.append_assoc, List.append_assoc] at h
    obtain ⟨start, site, ss₁, h₁, front⟩ := foldlM_front h pending
    obtain ⟨n, ss₂, h₂, left⟩ := ihl h₁ (⟨start, site, w, none⟩ :: pending)
    rw [supply_left] at left
    obtain ⟨m, ss₃, h₃, right⟩ := ihr h₂ (⟨start, site, w, some ⟨n, some s⟩⟩ :: pending)
    rw [supply_right (build_binary token _)] at right
    obtain ⟨last, ss₄, rfl, h₄⟩ := exists_spot h₃
    exact ⟨start, ss₄, h₄, front.trans (left.trans right)⟩

theorem read_of_written {text : String} (written : Written ((spots text).map Spot.token) t) :
    read text = .ok t := by
  obtain ⟨start, ss, none, taken⟩ := foldlM_written written (List.append_nil _).symm []
  rw [List.map_eq_nil_iff] at none
  subst none
  rw [read, taken]
  rfl

/-- Reading succeeds exactly on the tokens of one subtree. -/
theorem read_iff {text : String} : read text = .ok t ↔ Written ((spots text).map Spot.token) t :=
  ⟨written_of_read, read_of_written⟩

/-! ### The tokens of a term -/

theorem tokensOnto_eq (t : Term Char) (rest : List Token) :
    tokensOnto t rest = tokens t ++ rest := by
  induction t generalizing rest with
  | number x => rfl
  | var c => rfl
  | unary op t ih =>
    rw [tokens, tokensOnto, tokensOnto, ih, ih [_, _]]
    simp
  | binary op s t ihs iht =>
    rw [tokens, tokensOnto, tokensOnto, ihs, iht, ihs (tokensOnto t _), iht [_]]
    simp

theorem written_tokens (legible : t.Legible) : Written (tokens t) t := by
  induction t with
  | number x => exact .number (payload?_numeral legible)
  | var c => exact .var (payload?_letter legible)
  | unary op t ih =>
    rw [tokens, tokensOnto, tokensOnto_eq]
    exact .unary (payload?_operator (Operator.ofToken?_token (.unary op))) (ih legible)
  | binary op s t ihs iht =>
    rw [tokens, tokensOnto, tokensOnto_eq, tokensOnto_eq, ← List.append_assoc]
    exact .binary (payload?_operator (Operator.ofToken?_token (.binary op))) (ihs legible.1)
      (iht legible.2)

theorem read_write (legible : t.Legible) : read (write t) = .ok t := by
  apply read_of_written
  rw [tokens_spots_write legible.isAlphabetic]
  exact written_tokens legible

end Polish

end Fluxion
