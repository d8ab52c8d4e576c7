import Fluxion.Proofs.Infix.Spots
import Fluxion.Proofs.Sequencing

/-!
# The stages of reading infix notation

From left to right, which token may come next depends on what is due and on the number of
parentheses that are open, but not on the levels of the grammar. The reader takes tokens as
long as they may come, at every level and nesting, so it stops at the first that may not.
-/

namespace Fluxion.Infix

/-- Tokens of which the first characters say the same: runs of one kind, or one token. -/
inductive Token.Alike : Token → Token → Prop where
  | same (tok : Token) : Alike tok tok
  | digits (ds es : List Char) : Alike (.digits ds) (.digits es)
  | word (v w : String) : Alike (.word v) (.word w)

/-- What is due, and how many parentheses are open. -/
inductive Stage where
  | operand (opened : Nat)
  | argument (opened : Nat)
  | operator (opened : Nat)
  | trailing

namespace Stage

/-- The stage after the token, if it may come. -/
def next? : Stage → Token → Option Stage
  | operand k, .opening => some (operand (k + 1))
  | operand k, .digits ds => if (digitsValue ds).isFinite then some (operator k) else none
  | operand k, .word name =>
    match name.toList with
    | [_] => some (operator k)
    | _ => (Unary.ofToken? name).map fun _ => argument k
  | argument k, .opening => some (operand (k + 1))
  | operator k, .operator _ => some (operand k)
  | operator (k + 1), .closing => some (operator k)
  | operator 0, .newline => some trailing
  | trailing, .newline => some trailing
  | trailing, .formFeed => some trailing
  | _, _ => none

/-- A text may end there. -/
def final : Stage → Bool
  | operator 0 => true
  | trailing => true
  | _ => false

/-- What a fault calls that which is due. -/
def due : Stage → String
  | operand _ => "operand"
  | argument _ => "'('"
  | operator 0 => "newline"
  | operator (_ + 1) => "')'"
  | trailing => "end of input"

def opened : Stage → Nat
  | operand k => k
  | argument k => k
  | operator k => k
  | trailing => 0

/-- The stage after the tokens, if each of them may come. -/
def walk (a : Stage) (ts : List Spot) : Option Stage := ts.foldlM (fun b s => b.next? s.token) a

/-- No token that begins like this one may come. -/
def Bars (a : Stage) (tok : Token) : Prop := ∀ tok', tok.Alike tok' → a.next? tok' = none

/-- Why the tokens do not go on from a stage, if groups and arguments may nest `limit` deep. -/
inductive Refuses (limit : Nat) : Stage → List Spot → String → Prop where
  | due {a : Stage} {ts : List Spot} (unfinished : ts = [] → a.final = false)
    (barred : ∀ s ∈ ts.head?, a.Bars s.token) : Refuses limit a ts a.due
  | number {a : Stage} {s : Spot} {ts : List Spot} (refused : a.next? s.token = none) :
    Refuses limit a (s :: ts) "number"
  | name {a : Stage} {s : Spot} {ts : List Spot} (refused : a.next? s.token = none) :
    Refuses limit a (s :: ts) "function name"
  | nesting {ts : List Spot} : Refuses limit (operand limit) ts "shallower nesting"

variable {a b c : Stage} {s : Spot} {ts us : List Spot} {limit k : Nat} {tok : Token}
  {expected : String}

@[simp] theorem walk_nil (a : Stage) : a.walk [] = some a := rfl

theorem walk_cons (a : Stage) (s : Spot) (ts : List Spot) :
    a.walk (s :: ts) = (a.next? s.token).bind fun b => b.walk ts := rfl

theorem walk_cons_of_next? (h : a.next? s.token = some b) (ts : List Spot) :
    a.walk (s :: ts) = b.walk ts := by
  rw [walk_cons, h]
  rfl

theorem walk_append (a : Stage) (ts us : List Spot) :
    a.walk (ts ++ us) = (a.walk ts).bind fun b => b.walk us := List.foldlM_append

theorem walk_append_of_walk (h : a.walk ts = some b) (us : List Spot) :
    a.walk (ts ++ us) = b.walk us := by
  rw [walk_append, h]
  rfl

/-- A token opens one parenthesis at most. -/
theorem opened_next? (h : a.next? tok = some b) : b.opened ≤ a.opened + 1 := by
  revert h
  fun_cases next? a tok with
  | case5 k name =>
    -- The name of a function opens none; that is for the token after it.
    intro h
    obtain ⟨op, -, rfl⟩ := Option.map_eq_some_iff.mp h
    exact Nat.le_succ _
  | _ =>
    rintro ⟨⟩
    all_goals
      simp only [opened]
      omega

theorem opened_walk (h : a.walk ts = some b) : b.opened ≤ a.opened + ts.length := by
  induction ts generalizing a with
  | nil =>
    cases h
    exact Nat.le_refl _
  | cons s ts ih =>
    obtain ⟨c, first, rest⟩ := Option.bind_eq_some_iff.mp h
    have := opened_next? first
    have := ih rest
    rw [List.length_cons]
    omega

/-- Only where an operand is due it matters how a run goes on. -/
theorem bars_of_next? (h : a.next? tok = none)
    (plain : (∀ k, a ≠ operand k) ∨ (∀ ds, tok ≠ .digits ds) ∧ ∀ w, tok ≠ .word w) :
    a.Bars tok := by
  intro tok' alike
  cases alike with
  | same => exact h
  | digits ds es =>
    rcases plain with other | ⟨run, -⟩
    · cases a with
      | operand k => exact absurd rfl (other k)
      | _ => rfl
    · exact absurd rfl (run ds)
  | word v w =>
    rcases plain with other | ⟨-, run⟩
    · cases a with
      | operand k => exact absurd rfl (other k)
      | _ => rfl
    · exact absurd rfl (run v)

theorem bars_operand (opening : tok ≠ .opening) (digits : ∀ ds, tok ≠ .digits ds)
    (word : ∀ w, tok ≠ .word w) : (operand k).Bars tok := by
  refine bars_of_next? ?_ (Or.inr ⟨digits, word⟩)
  cases tok <;> simp_all [next?]

theorem bars_argument (opening : tok ≠ .opening) : (argument k).Bars tok := by
  refine bars_of_next? ?_ (Or.inl fun _ h => by cases h)
  cases tok <;> first | rfl | exact absurd rfl opening

theorem bars_operator (op : ∀ op, tok ≠ .operator op) (closing : k ≠ 0 → tok ≠ .closing)
    (newline : k = 0 → tok ≠ .newline) : (operator k).Bars tok := by
  refine bars_of_next? ?_ (Or.inl fun _ h => by cases h)
  cases tok <;> cases k <;> simp_all [next?]

theorem bars_trailing (newline : tok ≠ .newline) (formFeed : tok ≠ .formFeed) :
    trailing.Bars tok := by
  refine bars_of_next? ?_ (Or.inl fun _ h => by cases h)
  cases tok <;> simp_all [next?]

/-- If the tokens do go on to an end, nothing but the nesting was in the way. -/
theorem Refuses.nested (h : Refuses limit a ts expected) (walked : a.walk ts = some b)
    (final : b.final = true) : a = operand limit := by
  have stuck {s : Spot} {ts : List Spot} (refused : a.next? s.token = none) :
      a.walk (s :: ts) ≠ some b := by
    rw [walk_cons, refused]
    exact nofun
  cases h with
  | due unfinished barred =>
    cases ts with
    | nil =>
      cases walked
      rw [unfinished rfl] at final
      cases final
    | cons s ts => exact absurd walked (stuck (barred s rfl s.token (.same _)))
  | number refused => exact absurd walked (stuck refused)
  | name refused => exact absurd walked (stuck refused)
  | nesting => rfl

end Stage

open Stage

/-- The tokens do not go on with an operator that binds more tightly than `level`. -/
def Halts (level : Nat) (ts : List Spot) : Prop :=
  ∀ s ∈ ts.head?, ∀ op, s.token = .operator op → op.precedence ≤ level

theorem halts_three (ts : List Spot) : Halts 3 ts := by
  intro s hs op h
  cases op <;> decide

/-- What reading the tokens `ts` from the stage `a` comes to, in a text of `size` bytes: it gets
to the stage `b`, or its fault is at the first token that may not come. -/
inductive Leads (size limit : Nat) (a b : Stage) (level : Nat) (ts : List Spot) :
    Except Fault (Term Char × List Spot) → Prop where
  | ok {ps rest : List Spot} {t : Term Char} (split : ts = ps ++ rest)
    (walked : a.walk ps = some b) (halts : Halts level rest) :
    Leads size limit a b level ts (.ok (t, rest))
  | error {ps qs : List Spot} {c : Stage} {expected : String} (split : ts = ps ++ qs)
    (walked : a.walk ps = some c) (refused : Refuses limit c qs expected) :
    Leads size limit a b level ts (.error (.malformed (offset size qs) expected))

namespace Leads

variable {size limit level level' k : Nat} {a b c : Stage} {s : Spot} {ts : List Spot}
  {x : Except Fault (Term Char × List Spot)}

theorem done (t : Term Char) (halts : Halts level ts) :
    Leads size limit a a level ts (.ok (t, ts)) :=
  .ok rfl (walk_nil a) halts

theorem refused {expected : String} (h : Refuses limit a ts expected) :
    Leads size limit a b level ts (.error (.malformed (offset size ts) expected)) :=
  .error rfl (walk_nil a) h

theorem cons (first : a.next? s.token = some b) (h : Leads size limit b c level ts x) :
    Leads size limit a c level (s :: ts) x := by
  cases h with
  | ok split walked halts =>
    exact .ok (congrArg (s :: ·) split) ((walk_cons_of_next? first _).trans walked) halts
  | error split walked refused =>
    exact .error (congrArg (s :: ·) split) ((walk_cons_of_next? first _).trans walked) refused

theorem bind {f : Term Char × List Spot → Except Fault (Term Char × List Spot)}
    (hx : Leads size limit a b level ts x)
    (hf : ∀ t rest, rest.length ≤ ts.length → Halts level rest →
      Leads size limit b c level' rest (f (t, rest))) :
    Leads size limit a c level' ts (x >>= f) := by
  cases hx with
  | @ok ps rest t split walked halts =>
    have shorter : rest.length ≤ ts.length := by simp [split]
    have after := hf t rest shorter halts
    change Leads size limit a c level' ts (f (t, rest))
    generalize f (t, rest) = y at after
    cases after with
    | ok split' walked' halts' =>
      exact .ok (by rw [split, split', List.append_assoc])
        ((walk_append_of_walk walked _).trans walked') halts'
    | error split' walked' refused =>
      exact .error (by rw [split, split', List.append_assoc])
        ((walk_append_of_walk walked _).trans walked') refused
  | error split walked refused => exact .error split walked refused

end Leads

/-! ### The levels of the grammar -/

/-- The reading gets from an operand that is due to an operator that is due. -/
def Follows (size depth level : Nat) (reading : Reading) : Prop :=
  ∀ ⦃k : Nat⦄ ⦃ts : List Spot⦄, ts.length ≤ size →
    Leads size (k + depth) (.operand k) (.operator k) level ts (reading ts)

variable {size depth level k : Nat} {ts : List Spot} {operand : Reading}
  {nested : Nat → Reading}

theorem follows_joinRest (follows : Follows size depth (level + 1) operand) {bound : Nat}
    (lhs : Term Char) (enough : ts.length ≤ bound) (within : ts.length ≤ size)
    (halts : Halts (level + 1) ts) :
    Leads size (k + depth) (.operator k) (.operator k) level ts
      (joinRest (level + 1) operand bound lhs ts) := by
  induction bound generalizing ts lhs with
  | zero =>
    have none : ts = [] := List.eq_nil_of_length_eq_zero (Nat.le_zero.mp enough)
    subst none
    exact .done lhs fun s hs => by cases hs
  | succ bound ih =>
    unfold joinRest
    split
    · next start op rest =>
      rw [List.length_cons] at enough within
      split
      · refine .cons rfl (.bind (follows (by omega)) fun rhs rest' le halts' => ?_)
        exact ih _ (by omega) (by omega) halts'
      · next other =>
        refine .done lhs fun s hs op' h => ?_
        cases hs
        cases h
        have := halts _ rfl op rfl
        omega
    · next other =>
      refine .done lhs fun s hs op h => ?_
      obtain ⟨rest, rfl⟩ := List.head?_eq_some_iff.mp hs
      exact absurd (by rw [← h]) (other s.start op rest)

theorem follows_chain (follows : Follows size depth (level + 1) operand) :
    Follows size depth level (chain size (level + 1) operand) := by
  intro k ts within
  refine .bind (follows within) fun lhs rest le halts => ?_
  exact follows_joinRest follows lhs (Nat.le_trans le within) (Nat.le_trans le within) halts

/-- What is read inside of groups at the given depth: nothing at the innermost. -/
inductive Inside (size : Nat) : Nat → (Nat → Reading) → Prop where
  | innermost : Inside size 0 fun start _ => .error (.malformed start "shallower nesting")
  | deeper {depth : Nat} {reading : Reading} (follows : Follows size depth 0 reading) :
    Inside size (depth + 1) fun _ => reading

/-- The token that is due comes, or it is missed at once. -/
theorem expect_cases (size : Nat) (token : Token) (expected : String) (ts : List Spot) :
    (∃ s rest, ts = s :: rest ∧ s.token = token ∧ expect size token expected ts = .ok rest) ∨
      (∀ s ∈ ts.head?, s.token ≠ token) ∧
        expect size token expected ts = .error (.malformed (offset size ts) expected) := by
  cases ts with
  | nil => exact Or.inr ⟨(fun _ hs => nomatch hs), rfl⟩
  | cons s rest =>
    by_cases same : s.token = token
    · exact Or.inl ⟨s, rest, rfl, same, if_pos same⟩
    · refine Or.inr ⟨fun r hr => ?_, if_neg same⟩
      cases hr
      exact same

theorem follows_group (follows : Follows size depth 0 operand) (within : ts.length ≤ size)
    (start : Nat) :
    Leads size (k + (depth + 1)) (.operand (k + 1)) (.operator k) 3 ts
      (group size (fun _ => operand) start ts) := by
  have inner := follows (k := k + 1) within
  rw [Nat.add_right_comm] at inner
  refine .bind inner fun t rest le halts => ?_
  dsimp only
  rcases expect_cases size .closing "')'" rest with
    ⟨s, rest', rfl, closing, taken⟩ | ⟨other, missed⟩
  · rw [taken]
    exact .cons (by rw [closing, next?]) (.done t (halts_three rest'))
  · have op (s : Spot) (hs : s ∈ rest.head?) (op : Binary) : s.token ≠ .operator op := by
      intro h
      have := halts s hs op h
      cases op <;> cases this
    have barred (s : Spot) (hs : s ∈ rest.head?) : (Stage.operator (k + 1)).Bars s.token :=
      bars_operator (op s hs) (fun _ => other s hs) fun h => by cases h
    rw [missed]
    exact .refused (.due (a := .operator (k + 1)) (fun _ => rfl) barred)

theorem follows_primary (inside : Inside size depth nested) :
    Follows size depth 3 (primary size nested) := by
  intro k ts within
  unfold primary
  split
  · next start rest =>
    cases inside with
    | innermost => exact .refused .nesting
    | deeper follows => exact .cons rfl (follows_group follows (Nat.le_of_succ_le within) start)
  · next start ds rest =>
    rw [number_eq]
    split
    · next finite => exact .cons (by simp [next?, finite]) (.done _ (halts_three rest))
    · next infinite => exact .refused (.number (by simp [next?, infinite]))
  · next start name rest =>
    split
    · next letter => exact .cons (by simp [next?, letter]) (.done _ (halts_three rest))
    · split
      · next unknown => exact .refused (.name (by simp [next?, unknown]))
      · next op known =>
        have named : (Stage.operand k).next? (.word name) = some (.argument k) := by
          simp [next?, known]
        rcases expect_cases size .opening "'('" rest with
          ⟨s, rest, rfl, opening, taken⟩ | ⟨other, missed⟩
        · rw [taken]
          cases inside with
          | innermost => exact .refused .nesting
          | deeper follows =>
            have shorter : rest.length ≤ size := by
              simp only [List.length_cons] at within
              omega
            refine .cons named (.cons (by rw [opening, next?]) ?_)
            exact .bind (follows_group follows shorter start) fun t rest _ _ =>
              .done (.unary op t) (halts_three rest)
        · have barred (s : Spot) (hs : s ∈ rest.head?) : (Stage.argument k).Bars s.token :=
            bars_argument (other s hs)
          rw [missed]
          exact .cons named (.refused (.due (a := .argument k) (fun _ => rfl) barred))
  · next opening digits word =>
    have barred (s : Spot) (hs : s ∈ ts.head?) : (Stage.operand k).Bars s.token := by
      obtain ⟨rest, rfl⟩ := List.head?_eq_some_iff.mp hs
      exact bars_operand (fun h => opening s.start rest (by rw [← h]))
        (fun ds h => digits s.start ds rest (by rw [← h]))
        fun w h => word s.start w rest (by rw [← h])
    exact .refused (.due (a := .operand k) (fun _ => rfl) barred)

theorem follows_levels (inside : Inside size depth nested) :
    Follows size depth 0 (chain size 1 (chain size 2 (chain size 3 (primary size nested)))) :=
  follows_chain (follows_chain (follows_chain (follows_primary inside)))

theorem follows_expression (size depth : Nat) : Follows size depth 0 (expression size depth) := by
  induction depth with
  | zero => exact follows_levels .innermost
  | succ depth ih => exact follows_levels (.deeper ih)

/-! ### The whole text -/

/-- What reading all the tokens `ts` from the stage `a` comes to. -/
inductive Settles {α : Type} (size limit : Nat) (a : Stage) (ts : List Spot) :
    Except Fault α → Prop where
  | ok {b : Stage} {x : α} (walked : a.walk ts = some b) (final : b.final = true) :
    Settles size limit a ts (.ok x)
  | error {ps qs : List Spot} {b : Stage} {expected : String} (split : ts = ps ++ qs)
    (walked : a.walk ps = some b) (refused : Refuses limit b qs expected) :
    Settles size limit a ts (.error (.malformed (offset size qs) expected))

theorem Settles.append {α : Type} {limit : Nat} {a b : Stage} {ps : List Spot} {x : Except Fault α}
    (walked : a.walk ps = some b) (h : Settles size limit b ts x) :
    Settles size limit a (ps ++ ts) x := by
  cases h with
  | ok rest final => exact .ok ((walk_append_of_walk walked ts).trans rest) final
  | error split rest refused =>
    exact .error (by rw [split, List.append_assoc]) ((walk_append_of_walk walked _).trans rest)
      refused

theorem settles_trailer (size limit : Nat) (ts : List Spot) :
    Settles size limit .trailing ts (trailer ts) := by
  induction ts with
  | nil => exact .ok (walk_nil _) rfl
  | cons s ts ih =>
    unfold trailer
    split
    · next white =>
      have comes : Stage.trailing.walk [s] = some .trailing := by
        rcases white with h | h <;> rw [walk_cons, h] <;> rfl
      exact .append comes ih
    · next other =>
      rw [not_or] at other
      have barred : ∀ r ∈ (s :: ts).head?, Stage.trailing.Bars r.token := by
        rintro r ⟨⟩
        exact bars_trailing other.1 other.2
      exact .error (List.nil_append _).symm (walk_nil _) (.due (fun h => nomatch h) barred)

theorem settles_readWithin (limit : Nat) (text : String) :
    Settles text.utf8ByteSize limit (.operand 0) (spots text) (readWithin limit text) := by
  have follows := follows_expression text.utf8ByteSize limit (k := 0) (length_spots_le text)
  rw [Nat.zero_add] at follows
  rw [readWithin_eq]
  generalize expression text.utf8ByteSize limit (spots text) = x at follows
  generalize spots text = ts at follows
  cases follows with
  | error split walked refused => exact .error split walked refused
  | @ok ps rest t split walked halts =>
    rw [split]
    refine .append walked ?_
    cases rest with
    | nil => exact .ok (walk_nil _) rfl
    | cons s rest =>
      change Settles _ _ _ _ (ite _ _ _)
      split
      · next newline =>
        have comes : (Stage.operator 0).walk [s] = some .trailing := by
          rw [walk_cons, newline]
          rfl
        have after := settles_trailer text.utf8ByteSize limit rest
        refine .append comes ?_
        generalize trailer rest = y at after
        cases after with
        | ok walked final => exact .ok walked final
        | error split walked refused => exact .error split walked refused
      · next other =>
        have op (op : Binary) : s.token ≠ .operator op := by
          intro h
          have := halts s rfl op h
          cases op <;> cases this
        have barred : ∀ r ∈ (s :: rest).head?, (Stage.operator 0).Bars r.token := by
          rintro r ⟨⟩
          exact bars_operator op (absurd rfl) fun _ => other
        exact .error (List.nil_append _).symm (walk_nil _)
          (.due (a := .operator 0) (fun h => nomatch h) barred)

end Fluxion.Infix
