import Fluxion.Proofs.Infix.Recognition
import Fluxion.Proofs.Infix.Stages
import Fluxion.Proofs.Text.Bytes

/-!
# The first byte that cannot be

A fault of the infix reader carries the offset of the first byte with which no text of the
grammar goes on. What stands before it can be completed: with an operand or an argument, if one
is due, and the parentheses that are open. And if a token is due that does not come, no text
that goes on with the same byte is read, however deep it may nest.
-/

namespace Fluxion

namespace Infix

open Lexeme

variable {c : Char} {tok : Token} {cs u r r' : List Char} {n m : Nat} {ps qs : List Spot}
  {a b : Stage}

/-! ### Texts with the same first tokens -/

theorem Spelled.congr (h : Spelled tok u r)
    (same : ∀ c ∈ r'.head?, (c = ' ' ∨ c = '\t' ∨ c = '\r') ∨ c ∈ r.head?) : Spelled tok u r' := by
  cases h with
  | digits ne run stop =>
    refine .digits ne run fun c hc => ?_
    rcases same c hc with blank | hc
    · exact (apart_of_blank blank).1
    · exact stop c hc
  | word ne run stop =>
    refine .word ne run fun c hc => ?_
    rcases same c hc with blank | hc
    · exact (apart_of_blank blank).2
    · exact stop c hc
  | operator op => exact .operator op
  | opening => exact .opening
  | closing => exact .closing
  | newline => exact .newline
  | formFeed => exact .formFeed
  | other alone unknown => exact .other alone unknown

/-- The tokens `ps` at the offset `n` are those of `u`, also if something else than `r` comes
after it, as long as it does not lengthen the last of them. -/
structure Cut (n : Nat) (ps : List Spot) (u r : List Char) : Prop where
  skipped : ∀ c ∈ r.head?, ¬ (c = ' ' ∨ c = '\t' ∨ c = '\r')
  kept : ∀ r', (∀ c ∈ r'.head?, (c = ' ' ∨ c = '\t' ∨ c = '\r') ∨ c ∈ r.head?) →
    spotsFrom n (u ++ r') = ps ++ spotsFrom (n + width u) r'

theorem exists_blanks (cs : List Char) : ∃ bs r, cs = bs ++ r ∧ Blanks bs ∧
    ∀ c ∈ r.head?, ¬ (c = ' ' ∨ c = '\t' ∨ c = '\r') := by
  induction cs with
  | nil => exact ⟨[], [], rfl, .nil, nofun⟩
  | cons c cs ih =>
    by_cases blank : c = ' ' ∨ c = '\t' ∨ c = '\r'
    · obtain ⟨bs, r, rfl, blanks, front⟩ := ih
      exact ⟨c :: bs, r, rfl, blanks.cons blank, front⟩
    · refine ⟨[], c :: cs, rfl, .nil, ?_⟩
      rintro d ⟨⟩
      exact blank

/-- A text may be cut in front of each token. -/
theorem exists_cut (h : spotsFrom n cs = ps ++ qs) : ∃ u r, cs = u ++ r ∧ Cut n ps u r := by
  induction ps generalizing n cs with
  | nil =>
    obtain ⟨bs, r, rfl, blanks, front⟩ := exists_blanks cs
    exact ⟨bs, r, rfl, front, fun r' _ => spotsFrom_blanks blanks n r'⟩
  | cons s ps ih =>
    obtain ⟨bs, x, r, n', rfl, blanks, spelled, -⟩ := spotsFrom_eq_cons h
    rw [spotsFrom_blanks blanks, spotsFrom_spelled spelled] at h
    obtain ⟨first, rest⟩ := List.cons.inj h
    obtain ⟨u, r, rfl, cut⟩ := ih rest
    refine ⟨bs ++ (x ++ u), r, by simp, cut.skipped, fun r' same => ?_⟩
    have stays : Spelled s.token x (u ++ r') := by
      refine spelled.congr fun c hc => ?_
      cases u with
      | nil => exact same c hc
      | cons d u => exact Or.inr hc
    have text : bs ++ (x ++ u) ++ r' = bs ++ (x ++ (u ++ r')) := by simp
    rw [text, spotsFrom_blanks blanks, spotsFrom_spelled stays, cut.kept r' same, first]
    simp only [width_append, ← Nat.add_assoc]
    rfl

/-- The tokens after the cut begin right there. -/
theorem Cut.offset (cut : Cut n ps u r) (m : Nat) :
    offset (m + width r) (spotsFrom m r) = m := by
  rcases spotsFrom_cases r with blanks | ⟨bs, tok, x, r, rfl, blanks, spelled⟩
  · cases r with
    | nil => rfl
    | cons c r => exact absurd (blanks c List.mem_cons_self) (cut.skipped c rfl)
  · cases bs with
    | nil =>
      rw [List.nil_append, spotsFrom_spelled spelled]
      rfl
    | cons c bs => exact absurd (blanks c List.mem_cons_self) (cut.skipped c rfl)

/-- The first token begins alike in texts with the same first character. -/
theorem exists_alike (nonblank : ¬ (c = ' ' ∨ c = '\t' ∨ c = '\r')) (n : Nat) (r r' : List Char) :
    ∃ tok tok' ss ss', spotsFrom n (c :: r) = ⟨n, tok⟩ :: ss ∧
      spotsFrom n (c :: r') = ⟨n, tok'⟩ :: ss' ∧ tok.Alike tok' := by
  rcases joint_cases c with blank | digit | alpha | alone
  · exact absurd blank nonblank
  · obtain ⟨u, v, eq, ne, run, stop⟩ := exists_run Char.isDigit digit r
    obtain ⟨u', v', eq', ne', run', stop'⟩ := exists_run Char.isDigit digit r'
    exact ⟨_, _, _, _, eq ▸ spotsFrom_spelled (.digits ne run stop) n,
      eq' ▸ spotsFrom_spelled (.digits ne' run' stop') n, .digits u u'⟩
  · obtain ⟨u, v, eq, ne, run, stop⟩ := exists_run Char.isAlpha alpha r
    obtain ⟨u', v', eq', ne', run', stop'⟩ := exists_run Char.isAlpha alpha r'
    exact ⟨_, _, _, _, eq ▸ spotsFrom_spelled (.word ne run stop) n,
      eq' ▸ spotsFrom_spelled (.word ne' run' stop') n, .word _ _⟩
  · exact ⟨_, _, _, _, spotsFrom_spelled (spelled_alone alone r) n,
      spotsFrom_spelled (spelled_alone alone r') n, .same _⟩

/-! ### What can be completed -/

/-- Text that brings a stage to an end: an operand, if one is due, and closing parentheses. -/
def Stage.completion : Stage → List Char
  | operand k => 'a' :: List.replicate k ')'
  | argument k => '(' :: 'a' :: List.replicate (k + 1) ')'
  | operator k => List.replicate k ')'
  | trailing => []

theorem walk_closings (n k : Nat) : (Stage.operator k).walk (spotsFrom n (List.replicate k ')')) =
    some (.operator 0) := by
  induction k generalizing n with
  | zero => rfl
  | succ k ih =>
    rw [List.replicate_succ, ← List.singleton_append, spotsFrom_spelled .closing,
      Stage.walk_cons_of_next? rfl]
    exact ih _

theorem walk_operand (n k : Nat) :
    (Stage.operand k).walk (spotsFrom n ('a' :: List.replicate k ')')) = some (.operator 0) := by
  have stop : ∀ c ∈ (List.replicate k ')').head?, c.isAlpha = false := by
    intro c hc
    rw [List.eq_of_mem_replicate (List.mem_of_mem_head? hc)]
    decide
  have run : ∀ c ∈ ['a'], c.isAlpha = true := by
    intro c hc
    rw [List.mem_singleton.mp hc]
    decide
  have letter : Spelled (.word (String.ofList ['a'])) ['a'] (List.replicate k ')') :=
    .word (List.cons_ne_nil _ _) run stop
  have first : (Stage.operand k).next? (.word (String.ofList ['a'])) = some (.operator k) := by
    rw [Stage.next?, String.toList_ofList]
  rw [← List.singleton_append, spotsFrom_spelled letter, Stage.walk_cons_of_next? first]
  exact walk_closings _ k

theorem walk_completion (a : Stage) (n : Nat) :
    ∃ b, a.walk (spotsFrom n a.completion) = some b ∧ b.final = true := by
  cases a with
  | operand k => exact ⟨_, walk_operand n k, rfl⟩
  | argument k =>
    refine ⟨.operator 0, ?_, rfl⟩
    rw [Stage.completion, ← List.singleton_append, spotsFrom_spelled .opening,
      Stage.walk_cons_of_next? rfl]
    exact walk_operand _ (k + 1)
  | operator k => exact ⟨_, walk_closings n k, rfl⟩
  | trailing => exact ⟨_, rfl, rfl⟩

/-- A text is read if each of its tokens may come, and nesting is not limited. -/
theorem exists_sentence {text : String} (walked : (Stage.operand 0).walk (spots text) = some b)
    (final : b.final = true) : ∃ limit t, Sentence limit text.toList t := by
  have settles := settles_readWithin (text.utf8ByteSize + 1) text
  cases h : readWithin (text.utf8ByteSize + 1) text with
  | ok t => exact ⟨_, t, sentence_of_readWithin h⟩
  | error fault =>
    rw [h] at settles
    cases settles with
    | @error ps qs c expected split front refused =>
      rw [split, Stage.walk_append_of_walk front] at walked
      have deep := Stage.opened_walk front
      rw [refused.nested walked final] at deep
      have within := length_spots_le text
      rw [split, List.length_append] at within
      simp only [Stage.opened] at deep
      omega

/-- What comes before a cut can be completed, from the stage that it leads to. -/
theorem Cut.completed (cut : Cut 0 ps u r) (walked : (Stage.operand 0).walk ps = some a) :
    ∃ limit more t, Sentence limit (u ++ more) t := by
  obtain ⟨b, rest, final⟩ := walk_completion a (0 + width u + width [' '])
  have blank : Blanks [' '] := Blanks.nil.cons (Or.inl rfl)
  have text : spots (String.ofList (u ++ ([' '] ++ a.completion))) =
      ps ++ spotsFrom (0 + width u + width [' ']) a.completion := by
    rw [spots_eq, String.toList_ofList, cut.kept, spotsFrom_blanks blank]
    rintro c ⟨⟩
    exact Or.inl (Or.inl rfl)
  have whole : (Stage.operand 0).walk (spots (String.ofList (u ++ ([' '] ++ a.completion)))) =
      some b := by
    rw [text, Stage.walk_append_of_walk walked, rest]
  obtain ⟨limit, t, sentence⟩ := exists_sentence whole final
  rw [String.toList_ofList] at sentence
  exact ⟨limit, _, t, sentence⟩

/-- If no token that begins like the next one may come, no sentence goes on with its first
character. -/
theorem Cut.impossible {limit : Nat} {t : Term Char} (cut : Cut 0 ps u (c :: r))
    (walked : (Stage.operand 0).walk ps = some a)
    (barred : ∀ s ∈ (spotsFrom (width u) (c :: r)).head?, a.Bars s.token) :
    ¬ Sentence limit (u ++ c :: r') t := by
  intro sentence
  obtain ⟨tok, tok', ss, ss', front, front', alike⟩ :=
    exists_alike (cut.skipped c rfl) (width u) r r'
  rw [front] at barred
  have refused : a.next? tok' = none := barred _ rfl tok' alike
  have text : spots (String.ofList (u ++ c :: r')) = ps ++ ⟨width u, tok'⟩ :: ss' := by
    rw [spots_eq, String.toList_ofList, cut.kept (c :: r') fun d hd => Or.inr hd, Nat.zero_add,
      front']
  have settles := settles_readWithin limit (String.ofList (u ++ c :: r'))
  rw [readWithin_of_sentence (by rwa [String.toList_ofList]), text] at settles
  cases settles with
  | ok whole final =>
    rw [Stage.walk_append_of_walk walked, Stage.walk_cons, refused] at whole
    cases whole

/-! ### Characters -/

theorem Blanks.ascii (h : Blanks cs) : ∀ c ∈ cs, c.toNat < 128 := by
  intro c hc
  rcases h c hc with rfl | rfl | rfl <;> decide

/-- The texts of the grammar have no characters but those of ASCII. -/
theorem Written.ascii {depth level : Nat} {t : Term Char} (h : Written depth level cs t) :
    ∀ c ∈ cs, c.toNat < 128 := by
  induction h with
  | digits blanks ne run finite =>
    rw [List.forall_mem_append]
    exact ⟨blanks.ascii, fun c hc => ascii_of_isDigit (run c hc)⟩
  | letter blanks letter =>
    rw [List.forall_mem_append, List.forall_mem_singleton]
    exact ⟨blanks.ascii, ascii_of_isAlpha letter⟩
  | group blanks inner close ih =>
    simp only [List.forall_mem_append, List.forall_mem_cons]
    exact ⟨blanks.ascii, by decide, ⟨ih, close.ascii⟩, by decide, nofun⟩
  | call op blanks gap inner close ih =>
    have name : op.token.toList.all (·.toNat < 128) = true := by cases op <;> rfl
    simp only [List.all_eq_true, decide_eq_true_eq] at name
    simp only [List.forall_mem_append, List.forall_mem_cons]
    exact ⟨blanks.ascii, name, gap.ascii, by decide, ⟨ih, close.ascii⟩, by decide, nofun⟩
  | operand loose tighter ih => exact ih
  | operation op precedence left blanks right ihl ihr =>
    have symbol : op.token.toList.all (·.toNat < 128) = true := by cases op <;> rfl
    simp only [List.all_eq_true, decide_eq_true_eq] at symbol
    simp only [List.forall_mem_append]
    exact ⟨ihl, blanks.ascii, symbol, ihr⟩

theorem Sentence.ascii {limit : Nat} {t : Term Char} (h : Sentence limit cs t) :
    ∀ c ∈ cs, c.toNat < 128 := by
  cases h with
  | ended expression blanks =>
    exact List.forall_mem_append.mpr ⟨expression.ascii, blanks.ascii⟩
  | @terminated cs bs ws t expression blanks rest =>
    have white : ∀ c ∈ ws, c.toNat < 128 := by
      intro c hc
      rcases rest c hc with rfl | rfl | rfl | rfl | rfl <;> decide
    simp only [List.forall_mem_append, List.forall_mem_cons]
    exact ⟨expression.ascii, blanks.ascii, by decide, white⟩

/-! ### Faults -/

/-- Where a fault names what is due, the token that comes instead is barred. -/
theorem Stage.Refuses.barred_of_mem {limit : Nat} {expected : String}
    (h : Stage.Refuses limit a qs expected)
    (mem : expected ∈ ["operand", "')'", "'('", "newline", "end of input"]) :
    ∀ s ∈ qs.head?, a.Bars s.token := by
  cases h with
  | due unfinished barred => exact barred
  | number => exact absurd mem (by decide)
  | name => exact absurd mem (by decide)
  | nesting => exact absurd mem (by decide)

theorem readWithin_error {limit : Nat} {text : String} {fault : Fault}
    (h : readWithin limit text = .error fault) :
    ∃ expected u r, text.toList = u ++ r ∧ fault = .malformed (width u) expected ∧
      (∃ limit more t, Sentence limit (u ++ more) t) ∧
      (expected ∈ ["operand", "')'", "'('", "newline", "end of input"] →
        (∀ c ∈ r.head?, ¬ (c = ' ' ∨ c = '\t' ∨ c = '\r')) ∧
        ∀ c ∈ r.head?, ∀ limit r' t, ¬ Sentence limit (u ++ c :: r') t) := by
  have settles := settles_readWithin limit text
  rw [h, spots_eq, utf8ByteSize_eq] at settles
  cases settles with
  | @error ps qs a expected split walked refused =>
    obtain ⟨u, r, eq, cut⟩ := exists_cut split
    have same : qs = spotsFrom (width u) r := by
      rw [eq, cut.kept r fun c hc => Or.inr hc, Nat.zero_add] at split
      exact (List.append_cancel_left split).symm
    have place : offset (width text.toList) qs = width u := by
      rw [eq, same, width_append, cut.offset]
    refine ⟨expected, u, r, eq, by rw [place], cut.completed walked, fun mem => ⟨cut.skipped, ?_⟩⟩
    intro c hc limit r' t
    obtain ⟨r, rfl⟩ := List.head?_eq_some_iff.mp hc
    have barred := refused.barred_of_mem mem
    rw [same] at barred
    exact cut.impossible walked barred

end Infix

namespace Forest

open Infix Lexeme

/-- A text that is not read is refused at the end of a beginning of a sentence. Where a token
is due that does not come, no sentence begins like the text up to and including the byte
there. -/
theorem ofInfix_error {text : String} {fault : Fault} (h : ofInfix text = .error fault) :
    ∃ (expected : String) (before after : String), text = before ++ after ∧
      fault = .malformed before.utf8ByteSize expected ∧
      (∃ limit more t, Sentence limit (before ++ more).toList t) ∧
      (expected ∈ ["operand", "')'", "'('", "newline", "end of input"] →
        (∀ c ∈ after.toList.head?, ¬ (c = ' ' ∨ c = '\t' ∨ c = '\r')) ∧
        (before.utf8ByteSize = text.utf8ByteSize ∨
          ∀ limit (other : String) t, Sentence limit other.toList t →
            ¬ text.toUTF8.data.toList.take (before.utf8ByteSize + 1) <+:
              other.toUTF8.data.toList)) := by
  have unread : readWithin nestingLimit text = .error fault := eq_error_of_bind_ofTerm h
  obtain ⟨expected, u, r, eq, rfl, ⟨limit, more, t, sentence⟩, missed⟩ :=
    readWithin_error unread
  have size : (String.ofList u).utf8ByteSize = width u := by
    rw [utf8ByteSize_eq, String.toList_ofList]
  refine ⟨expected, String.ofList u, String.ofList r, ?_, by rw [size], ?_, fun mem => ?_⟩
  · rw [← String.ofList_append, ← eq, String.ofList_toList]
  · refine ⟨limit, String.ofList more, t, ?_⟩
    rwa [String.toList_append, String.toList_ofList, String.toList_ofList]
  · obtain ⟨skipped, impossible⟩ := missed mem
    rw [String.toList_ofList, size, utf8ByteSize_eq text, eq]
    refine ⟨skipped, ?_⟩
    cases r with
    | nil => exact Or.inl (by rw [List.append_nil])
    | cons c r =>
      refine Or.inr fun limit' other t' accepted begins => ?_
      rw [toList_toUTF8, toList_toUTF8, eq] at begins
      have ascii (d : Char) (hd : d ∈ u) : d.toNat < 128 :=
        sentence.ascii d (List.mem_append_left more hd)
      obtain ⟨r', same⟩ := exists_of_bytes_prefix ascii accepted.ascii begins
      rw [same] at accepted
      exact impossible c rfl limit' r' t' accepted

/-- A character of two bytes is refused at its first byte. -/
theorem ofInfix_error_accented :
    ofInfix "(a+b)*é" = .error (.malformed 6 "operand") ∧
      ∀ limit (other : String) t, Sentence limit other.toList t →
        ¬ "(a+b)*é".toUTF8.data.toList.take 7 <+: other.toUTF8.data.toList := by
  have refused : ofInfix "(a+b)*é" = .error (.malformed 6 "operand") := rfl
  obtain ⟨expected, before, after, -, fault, -, missed⟩ := ofInfix_error refused
  obtain ⟨size, rfl⟩ := Fault.malformed.inj fault
  obtain ⟨-, last | impossible⟩ := missed (by decide)
  · rw [← size] at last
    exact absurd last (by decide)
  · rw [← size] at impossible
    exact ⟨refused, impossible⟩

end Forest

end Fluxion
