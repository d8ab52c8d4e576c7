import Fluxion.Proofs.Infix.Spots

/-!
# What is written is read

A text of the grammar is read as a whole if what comes after it cannot continue it: an operator
that binds less tightly, a closing parenthesis, a newline or the end.
-/

namespace Fluxion.Infix

open Lexeme

/-- What may come after a text of the given level without being part of it. -/
inductive Ends (level : Nat) : List Char → Prop where
  | blanks {bs : List Char} (blanks : Blanks bs) : Ends level bs
  | closing {bs r : List Char} (blanks : Blanks bs) : Ends level (bs ++ ([')'] ++ r))
  | newline {bs r : List Char} (blanks : Blanks bs) : Ends level (bs ++ (['\n'] ++ r))
  | operator {bs r : List Char} (op : Binary) (loose : op.precedence ≤ level)
    (blanks : Blanks bs) : Ends level (bs ++ (op.token.toList ++ r))

/-- The reading takes every text of the given level off the front of a text that is not longer
than `size`. -/
def Complete (size : Nat) (reading : Reading) (depth level : Nat) : Prop :=
  ∀ ⦃u : List Char⦄ ⦃t : Term Char⦄, Written depth level u t →
    ∀ (n : Nat) ⦃r : List Char⦄, Ends level r → (u ++ r).length ≤ size →
      reading (spotsFrom n (u ++ r)) = .ok (t, spotsFrom (n + width u) r)

variable {depth level size n bound : Nat} {bs cs es r u : List Char} {c : Char} {t : Term Char}
  {operand : Reading} {nested : Nat → Reading}

theorem Ends.mono {level' : Nat} (h : Ends level r) (le : level ≤ level') : Ends level' r := by
  cases h with
  | blanks blanks => exact .blanks blanks
  | closing blanks => exact .closing blanks
  | newline blanks => exact .newline blanks
  | operator op loose blanks => exact .operator op (Nat.le_trans loose le) blanks

theorem head?_blanks_append (blanks : Blanks bs) (h : c ∈ (bs ++ r).head?) :
    (c = ' ' ∨ c = '\t' ∨ c = '\r') ∨ c ∈ r.head? := by
  cases bs with
  | nil => exact Or.inr h
  | cons b bs =>
    rw [List.cons_append, List.head?_cons, Option.mem_some_iff] at h
    exact Or.inl (h ▸ blanks b List.mem_cons_self)

/-- No run goes on there. -/
theorem Ends.apart (h : Ends level r) (hc : c ∈ r.head?) :
    c.isDigit = false ∧ c.isAlpha = false := by
  cases h with
  | blanks blanks => exact apart_of_blank (blanks c (List.mem_of_mem_head? hc))
  | closing blanks =>
    rcases head?_blanks_append blanks hc with h | h
    · exact apart_of_blank h
    · cases h
      decide
  | newline blanks =>
    rcases head?_blanks_append blanks hc with h | h
    · exact apart_of_blank h
    · cases h
      decide
  | operator op loose blanks =>
    rcases head?_blanks_append blanks hc with h | h
    · exact apart_of_blank h
    · cases op <;> cases h <;> decide

/-! ### Chains of operations -/

theorem joinRest_ends (h : Ends level r) (lhs : Term Char) :
    joinRest (level + 1) operand bound lhs (spotsFrom n r) = .ok (lhs, spotsFrom n r) := by
  cases bound with
  | zero => rfl
  | succ bound =>
    cases h with
    | blanks blanks =>
      rw [spotsFrom_of_blanks blanks]
      rfl
    | closing blanks =>
      rw [spotsFrom_blanks blanks, spotsFrom_spelled .closing]
      rfl
    | newline blanks =>
      rw [spotsFrom_blanks blanks, spotsFrom_spelled .newline]
      rfl
    | operator op loose blanks =>
      have ne : op.precedence ≠ level + 1 := by omega
      rw [spotsFrom_blanks blanks, spotsFrom_spelled (.operator op), joinRest, if_neg ne]

/-- A chain that is read up to `r` has joined the operations before `r`. -/
theorem chain_written (h : Written depth level u t) (loose : level < 3)
    (complete : Complete size operand depth (level + 1)) (n : Nat) (ends : Ends (level + 1) r)
    (length : (u ++ r).length ≤ size) :
    ∃ bound, r.length ≤ bound ∧ chain size (level + 1) operand (spotsFrom n (u ++ r)) =
      joinRest (level + 1) operand bound t (spotsFrom (n + width u) r) := by
  induction h generalizing r with
  | digits => omega
  | letter => omega
  | group => omega
  | call => omega
  | @operand depth level cs t _ tighter =>
    refine ⟨size, by simp at length; omega, ?_⟩
    rw [chain, complete tighter n ends length]
    rfl
  | @operation depth level cs bs ds s t op precedence left blanks right ih =>
    have more : Ends (level + 1) (bs ++ (op.token.toList ++ (ds ++ r))) :=
      .operator op (Nat.le_of_eq precedence) blanks
    obtain ⟨bound, enough, eq⟩ := ih loose complete more (by simpa using length)
    have single : op.token.toList.length = 1 := by cases op <;> rfl
    simp only [List.length_append, single] at enough length
    cases bound with
    | zero => omega
    | succ bound =>
      refine ⟨bound, by omega, ?_⟩
      rw [List.append_assoc, List.append_assoc, List.append_assoc, eq, spotsFrom_blanks blanks,
        spotsFrom_spelled (.operator op), joinRest, if_pos precedence,
        complete right _ ends (by simp only [List.length_append]; omega)]
      simp only [width_append, ← Nat.add_assoc]
      rfl

theorem complete_chain (loose : level < 3)
    (complete : Complete size operand depth (level + 1)) :
    Complete size (chain size (level + 1) operand) depth level := by
  intro u t written n r ends length
  have tighter := ends.mono (Nat.le_succ level)
  obtain ⟨bound, -, eq⟩ := chain_written written loose complete n tighter length
  rw [eq]
  exact joinRest_ends ends t

/-! ### Primaries -/

/-- What is read inside of groups at the given depth is any expression that nests less deep. -/
def CompleteInside (size : Nat) (nested : Nat → Reading) (depth : Nat) : Prop :=
  ∀ ⦃d : Nat⦄, depth = d + 1 → ∀ start, Complete size (nested start) d 0

theorem expect_spelled {token : Token} {expected : String} (blanks : Blanks bs)
    (spelled : Spelled token u r) :
    expect size token expected (spotsFrom n (bs ++ (u ++ r))) =
      .ok (spotsFrom (n + width bs + width u) r) := by
  rw [spotsFrom_blanks blanks, spotsFrom_spelled spelled, expect, if_pos rfl]

theorem group_written (complete : CompleteInside size nested (depth + 1)) (start : Nat)
    (inner : Written depth 0 cs t) (close : Blanks es)
    (length : (cs ++ (es ++ ([')'] ++ r))).length ≤ size) :
    group size nested start (spotsFrom n (cs ++ (es ++ ([')'] ++ r)))) =
      .ok (t, spotsFrom (n + width (cs ++ es ++ [')'])) r) := by
  rw [group, complete rfl start inner n (.closing close) length]
  change (expect size .closing "')'" (spotsFrom (n + width cs) (es ++ ([')'] ++ r))) >>= _) = _
  rw [expect_spelled close .closing]
  simp only [width_append, ← Nat.add_assoc]
  rfl

/-- Every function name is longer than a letter. -/
theorem primary_call (op : Unary) (start : Nat) (ss : List Spot) :
    primary size nested (⟨start, .word op.token⟩ :: ss) = do
      let rest ← expect size .opening "'('" ss
      let (t, rest) ← group size nested start rest
      return (.unary op t, rest) := by
  cases op <;> rfl

theorem spelled_token (op : Unary) (stop : ∀ c ∈ r.head?, c.isAlpha = false) :
    Spelled (.word op.token) op.token.toList r := by
  have ne : op.token.toList ≠ [] := by cases op <;> decide
  have run : op.token.toList.all Char.isAlpha = true := by cases op <;> rfl
  have word := Spelled.word ne (List.all_eq_true.mp run) stop
  rwa [String.ofList_toList] at word

theorem complete_primary (complete : CompleteInside size nested depth) :
    Complete size (primary size nested) depth 3 := by
  intro u t written n r ends length
  cases written with
  | @digits _ bs ds blanks ne run finite =>
    have spelled : Spelled (.digits ds) ds r := .digits ne run fun c hc => (ends.apart hc).1
    rw [List.append_assoc, spotsFrom_blanks blanks, spotsFrom_spelled spelled, primary,
      number_eq, if_pos finite, width_append, ← Nat.add_assoc]
    rfl
  | @letter _ bs c blanks letter =>
    have spelled : Spelled (.word (String.ofList [c])) [c] r :=
      .word (List.cons_ne_nil c []) (by simpa using letter) fun c hc => (ends.apart hc).2
    rw [List.append_assoc, spotsFrom_blanks blanks, spotsFrom_spelled spelled, primary,
      String.toList_ofList, width_append, ← Nat.add_assoc]
  | @group depth bs cs es t blanks inner close =>
    have text : bs ++ '(' :: (cs ++ es ++ [')']) ++ r =
        bs ++ (['('] ++ (cs ++ (es ++ ([')'] ++ r)))) := by simp
    rw [text] at length ⊢
    simp only [List.length_append] at length
    rw [spotsFrom_blanks blanks, spotsFrom_spelled .opening, primary,
      group_written complete _ inner close (by simp only [List.length_append]; omega)]
    simp only [width_append, width_cons, ← Nat.add_assoc]
    rfl
  | @call depth bs gs cs es t op blanks gap inner close =>
    have text : bs ++ (op.token.toList ++ (gs ++ '(' :: (cs ++ es ++ [')']))) ++ r =
        bs ++ (op.token.toList ++ (gs ++ (['('] ++ (cs ++ (es ++ ([')'] ++ r)))))) := by simp
    have stop : ∀ c ∈ (gs ++ (['('] ++ (cs ++ (es ++ ([')'] ++ r))))).head?,
        c.isAlpha = false := by
      intro c hc
      rcases head?_blanks_append gap hc with blank | h
      · exact (apart_of_blank blank).2
      · cases h
        decide
    rw [text] at length ⊢
    simp only [List.length_append] at length
    rw [spotsFrom_blanks blanks, spotsFrom_spelled (spelled_token op stop), primary_call,
      expect_spelled gap .opening]
    change (group size nested _ _ >>= _) = _
    rw [group_written complete _ inner close (by simp only [List.length_append]; omega)]
    simp only [width_append, width_cons, ← Nat.add_assoc]
    rfl
  | operand loose => omega
  | operation op precedence => cases op <;> cases precedence

theorem complete_levels (complete : CompleteInside size nested depth) :
    Complete size (chain size 1 (chain size 2 (chain size 3 (primary size nested)))) depth 0 :=
  complete_chain (by decide) (complete_chain (by decide) (complete_chain (by decide)
    (complete_primary complete)))

theorem complete_expression (size depth : Nat) :
    Complete size (expression size depth) depth 0 := by
  induction depth with
  | zero =>
    have outermost : CompleteInside size
        (fun start _ => .error (.malformed start "shallower nesting")) 0 := by
      intro d deep
      cases deep
    exact complete_levels outermost
  | succ depth ih =>
    have inside : CompleteInside size (fun _ => expression size depth) (depth + 1) := by
      intro d deep start
      cases deep
      exact ih
    exact complete_levels inside

/-! ### The whole text -/

theorem trailer_whitespace (h : Whitespace cs) (n : Nat) :
    trailer (spotsFrom n cs) = .ok () := by
  induction cs generalizing n with
  | nil => rfl
  | cons c cs ih =>
    have rest : Whitespace cs := fun d hd => h d (List.mem_cons_of_mem c hd)
    have blank (b : c = ' ' ∨ c = '\t' ∨ c = '\r') :
        spotsFrom n (c :: cs) = spotsFrom (n + width [c]) cs :=
      spotsFrom_blanks (Blanks.nil.cons b) n cs
    rcases h c List.mem_cons_self with b | b | rfl | rfl | b
    · rw [blank (Or.inl b)]
      exact ih rest _
    · rw [blank (Or.inr (Or.inl b))]
      exact ih rest _
    · rw [← List.singleton_append, spotsFrom_spelled .newline, trailer, if_pos (by simp)]
      exact ih rest _
    · rw [← List.singleton_append, spotsFrom_spelled .formFeed, trailer, if_pos (by simp)]
      exact ih rest _
    · rw [blank (Or.inr (Or.inr b))]
      exact ih rest _

theorem readWithin_of_sentence {limit : Nat} {text : String} (h : Sentence limit text.toList t) :
    readWithin limit text = .ok t := by
  have size (cs : List Char) (eq : text.toList = cs) : cs.length ≤ text.utf8ByteSize := by
    rw [utf8ByteSize_eq, eq]
    exact length_le_width cs
  have complete := complete_expression text.utf8ByteSize limit
  rw [readWithin_eq, spots_eq]
  generalize text.toList = whole at h size
  cases h with
  | @ended cs bs t written blanks =>
    rw [complete written 0 (.blanks blanks) (size _ rfl), spotsFrom_of_blanks blanks]
    rfl
  | @terminated cs bs ws t written blanks rest =>
    have ends : Ends 0 (bs ++ '\n' :: ws) := .newline blanks
    have front (n : Nat) : spotsFrom n (bs ++ '\n' :: ws) =
        ⟨n + width bs, .newline⟩ :: spotsFrom (n + width bs + width ['\n']) ws := by
      rw [spotsFrom_blanks blanks, ← List.singleton_append, spotsFrom_spelled .newline]
    rw [complete written 0 ends (size _ rfl), front]
    change (trailer (spotsFrom _ ws) >>= fun _ => .ok t) = .ok t
    rw [trailer_whitespace rest]
    rfl

theorem read_of_statement {text : String} (h : Statement text.toList t) : read text = .ok t := by
  rw [read_eq_readWithin]
  exact readWithin_of_sentence (statement_iff.mp h)

end Fluxion.Infix
