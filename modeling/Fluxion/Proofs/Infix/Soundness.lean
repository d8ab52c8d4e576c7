import Fluxion.Proofs.Infix.Spots
import Fluxion.Proofs.Sequencing

/-!
# What is read is written

Whatever part of the tokens is read off the front, the text in front of the remaining tokens
is written for the term that was read.
-/

namespace Fluxion.Infix

/-- The reading takes a text of the given level off the front. -/
def Sound (reading : Reading) (depth level : Nat) : Prop :=
  ∀ ⦃n : Nat⦄ ⦃cs : List Char⦄ ⦃t : Term Char⦄ ⦃ss : List Spot⦄,
    reading (spotsFrom n cs) = .ok (t, ss) →
    ∃ u r n', cs = u ++ r ∧ Written depth level u t ∧ ss = spotsFrom n' r

variable {depth level size n : Nat} {cs u : List Char} {lhs t : Term Char} {ss : List Spot}
  {operand : Reading} {nested : Nat → Reading}

/-- What the first token says about the text. -/
theorem spotsFrom_eq_cons {s : Spot} (h : spotsFrom n cs = s :: ss) :
    ∃ bs u r n', cs = bs ++ (u ++ r) ∧ Blanks bs ∧ Spelled s.token u r ∧
      ss = spotsFrom n' r := by
  rcases spotsFrom_cases cs with blanks | ⟨bs, tok, u, r, rfl, blanks, spelled⟩
  · cases (spotsFrom_of_blanks blanks n).symm.trans h
  · rw [spotsFrom_blanks blanks, spotsFrom_spelled spelled] at h
    cases h
    exact ⟨bs, u, r, _, rfl, blanks, spelled, rfl⟩

theorem sound_joinRest (sound : Sound operand depth (level + 1)) {bound : Nat}
    (left : Written depth level u lhs)
    (h : joinRest (level + 1) operand bound lhs (spotsFrom n cs) = .ok (t, ss)) :
    ∃ v r n', cs = v ++ r ∧ Written depth level (u ++ v) t ∧ ss = spotsFrom n' r := by
  have stop {u : List Char} {lhs : Term Char} (left : Written depth level u lhs) (n : Nat)
      (cs : List Char) : ∃ v r n', cs = v ++ r ∧ Written depth level (u ++ v) lhs ∧
        spotsFrom n cs = spotsFrom n' r :=
    ⟨[], cs, n, rfl, by rwa [List.append_nil], rfl⟩
  induction bound generalizing u lhs n cs with
  | zero =>
    cases h
    exact stop left n cs
  | succ bound ih =>
    unfold joinRest at h
    split at h
    · next start op rest front =>
      split at h
      · next precedence =>
        obtain ⟨bs, x, r, n₁, rfl, blanks, spelled, rfl⟩ := spotsFrom_eq_cons front
        cases spelled with
        | operator op =>
          obtain ⟨⟨rhs, ss₁⟩, hrhs, h⟩ := Except.bind_eq_ok h
          obtain ⟨v, r, n₂, rfl, right, rfl⟩ := sound hrhs
          obtain ⟨v', r, n', rfl, whole, rfl⟩ :=
            ih (.operation op precedence left blanks right) h
          exact ⟨bs ++ (op.token.toList ++ v) ++ v', r, n', by simp, by simpa using whole, rfl⟩
      · rw [← front] at h
        cases h
        exact stop left n cs
    · cases h
      exact stop left n cs

theorem sound_chain (loose : level < 3) (sound : Sound operand depth (level + 1)) :
    Sound (chain size (level + 1) operand) depth level := by
  intro n cs t ss h
  obtain ⟨⟨lhs, ss₁⟩, hlhs, h⟩ := Except.bind_eq_ok h
  obtain ⟨u, r, n₁, rfl, left, rfl⟩ := sound hlhs
  obtain ⟨v, r, n', rfl, whole, rfl⟩ := sound_joinRest sound (.operand loose left) h
  exact ⟨u ++ v, r, n', by simp, whole, rfl⟩

theorem number_eq_ok {start : Nat} {ds : List Char} (h : number start ds = .ok t) :
    (digitsValue ds).isFinite = true ∧ t = .number (digitsValue ds) := by
  rw [number_eq] at h
  split at h
  · next finite =>
    cases h
    exact ⟨finite, rfl⟩
  · cases h

theorem expect_eq_ok {token : Token} {expected : String}
    (h : expect size token expected (spotsFrom n cs) = .ok ss) :
    ∃ bs u r n', cs = bs ++ (u ++ r) ∧ Blanks bs ∧ Spelled token u r ∧
      ss = spotsFrom n' r := by
  unfold expect at h
  split at h
  · next front =>
    obtain ⟨bs, u, r, n', rfl, blanks, spelled, rfl⟩ := spotsFrom_eq_cons front
    split at h
    · next same =>
      cases h
      exact ⟨bs, u, r, n', rfl, blanks, same ▸ spelled, rfl⟩
    · cases h
  · cases h

/-- What is read inside of groups at the given depth is an expression that nests less deep. -/
def SoundInside (nested : Nat → Reading) (depth : Nat) : Prop :=
  ∀ ⦃start n : Nat⦄ ⦃cs : List Char⦄ ⦃t : Term Char⦄ ⦃ss : List Spot⦄,
    nested start (spotsFrom n cs) = .ok (t, ss) →
    ∃ d u r n', depth = d + 1 ∧ cs = u ++ r ∧ Written d 0 u t ∧ ss = spotsFrom n' r

theorem sound_group {start : Nat} (sound : SoundInside nested depth)
    (h : group size nested start (spotsFrom n cs) = .ok (t, ss)) :
    ∃ d u es r n', depth = d + 1 ∧ cs = u ++ es ++ [')'] ++ r ∧ Written d 0 u t ∧
      Blanks es ∧ ss = spotsFrom n' r := by
  obtain ⟨⟨t', ss₁⟩, inner, h⟩ := Except.bind_eq_ok h
  obtain ⟨ss₂, close, h⟩ := Except.bind_eq_ok h
  cases h
  obtain ⟨d, u, r, n₁, deep, rfl, written, rfl⟩ := sound inner
  obtain ⟨es, v, r, n', rfl, blanks, spelled, rfl⟩ := expect_eq_ok close
  cases spelled
  exact ⟨d, u, es, r, n', deep, by simp, written, blanks, rfl⟩

theorem ofToken?_eq_some {name : String} {op : Unary} (h : Unary.ofToken? name = some op) :
    name = op.token := by
  have found : (op.token == name) = true :=
    List.find?_some (p := fun op : Unary => op.token == name) h
  exact (eq_of_beq found).symm

theorem sound_primary (sound : SoundInside nested depth) :
    Sound (primary size nested) depth 3 := by
  intro n cs t ss h
  unfold primary at h
  split at h
  · next start rest front =>
    obtain ⟨bs, x, r, n₁, rfl, blanks, spelled, rfl⟩ := spotsFrom_eq_cons front
    cases spelled
    obtain ⟨d, u, es, r, n', rfl, rfl, inner, close, rfl⟩ := sound_group sound h
    exact ⟨_, r, n', by simp, .group blanks inner close, rfl⟩
  · next start ds rest front =>
    obtain ⟨bs, x, r, n₁, rfl, blanks, spelled, rfl⟩ := spotsFrom_eq_cons front
    cases spelled with
    | digits ne run stop =>
      obtain ⟨t', ht, h⟩ := Except.bind_eq_ok h
      cases h
      obtain ⟨finite, rfl⟩ := number_eq_ok ht
      exact ⟨bs ++ ds, r, n₁, by simp, .digits blanks ne run finite, rfl⟩
  · next start name rest front =>
    obtain ⟨bs, x, r, n₁, rfl, blanks, spelled, rfl⟩ := spotsFrom_eq_cons front
    cases spelled with
    | word ne run stop =>
      rw [String.toList_ofList] at h
      split at h
      · next c =>
        cases h
        exact ⟨bs ++ [c], r, n₁, by simp, .letter blanks (run c (by simp)), rfl⟩
      · split at h
        · cases h
        · next op known =>
          obtain ⟨ss₁, opened, h⟩ := Except.bind_eq_ok h
          obtain ⟨⟨t', ss₂⟩, grouped, h⟩ := Except.bind_eq_ok h
          cases h
          obtain ⟨gs, y, r, n₂, rfl, gap, spelled, rfl⟩ := expect_eq_ok opened
          cases spelled
          obtain ⟨d, u, es, r, n', rfl, rfl, inner, close, rfl⟩ := sound_group sound grouped
          have token : x = op.token.toList := by
            rw [← ofToken?_eq_some known, String.toList_ofList]
          subst token
          exact ⟨_, r, n', by simp, .call op blanks gap inner close, rfl⟩
  · cases h

theorem sound_levels (sound : SoundInside nested depth) :
    Sound (chain size 1 (chain size 2 (chain size 3 (primary size nested)))) depth 0 :=
  sound_chain (by decide) (sound_chain (by decide) (sound_chain (by decide)
    (sound_primary sound)))

theorem sound_expression (size depth : Nat) : Sound (expression size depth) depth 0 := by
  induction depth with
  | zero =>
    have outermost : SoundInside (fun start _ => .error (.malformed start "shallower nesting"))
        0 := by
      intro start n cs t ss h
      cases h
    exact sound_levels outermost
  | succ depth ih =>
    have inside : SoundInside (fun _ => expression size depth) (depth + 1) := by
      intro start n cs t ss h
      obtain ⟨u, r, n', eq, written, rest⟩ := ih h
      exact ⟨depth, u, r, n', rfl, eq, written, rest⟩
    exact sound_levels inside

/-! ### The whole text -/

theorem blanks_of_spotsFrom_eq_nil (h : spotsFrom n cs = []) : Blanks cs := by
  rcases spotsFrom_cases cs with blanks | ⟨bs, tok, u, r, rfl, blanks, spelled⟩
  · exact blanks
  · rw [spotsFrom_blanks blanks, spotsFrom_spelled spelled] at h
    cases h

theorem whitespace_of_trailer (h : trailer (spotsFrom n cs) = .ok ()) : Whitespace cs := by
  induction cs using spotsFrom_induction generalizing n with
  | blanks bs blanks => exact blanks.whitespace
  | token bs tok u r blanks spelled ih =>
    rw [spotsFrom_blanks blanks, spotsFrom_spelled spelled, trailer] at h
    split at h
    · next white =>
      have front : Whitespace u := by
        rcases white with rfl | rfl <;> cases spelled <;> simp [Whitespace]
      exact blanks.whitespace.append (front.append (ih h))
    · cases h

theorem sentence_of_readWithin {limit : Nat} {text : String} (h : readWithin limit text = .ok t) :
    Sentence limit text.toList t := by
  obtain ⟨⟨t', ss⟩, expression, h⟩ := Except.bind_eq_ok h
  rw [spots_eq] at expression
  obtain ⟨u, r, n', eq, written, rfl⟩ := sound_expression _ _ expression
  rw [eq]
  dsimp only at h
  split at h
  · next last =>
    cases h
    exact .ended written (blanks_of_spotsFrom_eq_nil last)
  · next s ss front =>
    obtain ⟨bs, x, r, n₁, rfl, blanks, spelled, rfl⟩ := spotsFrom_eq_cons front
    split at h
    · next newline =>
      rw [newline] at spelled
      cases spelled
      obtain ⟨_, rest, h⟩ := Except.bind_eq_ok h
      cases h
      exact .terminated written blanks (whitespace_of_trailer rest)
    · cases h

theorem statement_of_read {text : String} (h : read text = .ok t) : Statement text.toList t := by
  rw [read_eq_readWithin] at h
  exact statement_iff.mpr (sentence_of_readWithin h)

end Fluxion.Infix
