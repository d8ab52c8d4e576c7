import Fluxion.Forest.Text
import Fluxion.Proofs.Infix.Recognition
import Fluxion.Proofs.Polish.Reading

/-!
# The language of prefix notation

Which tokens a text has is said by a relation that takes one token after the other off it. The
reader accepts a text if its tokens are those of one subtree. Otherwise it says at which token
it stopped, or that the text has ended: all that it keeps of a token is where it starts.
-/

namespace Fluxion

namespace Polish

open Lexeme

/-! ### The tokens of a text -/

/-- The characters from the offset `n` on have the tokens, each with its own offset. A word ends
only at a blank, a parenthesis or the end of the text. -/
inductive Splits : Nat → List Char → List Spot → Prop where
  | nil (n : Nat) : Splits n [] []
  | blank {n : Nat} {c : Char} {cs : List Char} {ss : List Spot} (blank : isBlank c = true)
    (rest : Splits (n + c.utf8Size) cs ss) : Splits n (c :: cs) ss
  | opening {n : Nat} {cs : List Char} {ss : List Spot} (rest : Splits (n + 1) cs ss) :
    Splits n ('(' :: cs) (⟨n, .opening⟩ :: ss)
  | closing {n : Nat} {cs : List Char} {ss : List Spot} (rest : Splits (n + 1) cs ss) :
    Splits n (')' :: cs) (⟨n, .closing⟩ :: ss)
  | word {n : Nat} {w cs : List Char} {ss : List Spot} (ne : w ≠ [])
    (run : ∀ c ∈ w, isBlank c = false ∧ c ≠ '(' ∧ c ≠ ')')
    (stop : ∀ c ∈ cs.head?, isBlank c = true ∨ c = '(' ∨ c = ')')
    (rest : Splits (n + width w) cs ss) :
    Splits n (w ++ cs) (⟨n, .word (String.ofList w)⟩ :: ss)

variable {n : Nat} {c : Char} {cs : List Char} {ss : List Spot} {text : String}

theorem joint_eq_join_iff :
    joint c = .join 0 ↔ isBlank c = false ∧ c ≠ '(' ∧ c ≠ ')' := by
  constructor
  · intro joins
    refine ⟨?_, ?_, ?_⟩
    · rw [← Bool.not_eq_true]
      intro blank
      simp [joint, blank] at joins
    all_goals
      rintro rfl
      exact absurd joins (by decide)
  · rintro ⟨blank, opening, closing⟩
    exact joint_eq_join blank opening closing

theorem joint_ne_join_iff :
    joint c ≠ .join 0 ↔ isBlank c = true ∨ c = '(' ∨ c = ')' := by
  rw [ne_eq, joint_eq_join_iff]
  cases isBlank c <;> simp [imp_iff_not_or]

theorem spelled_run {w : List Char} (ne : w ≠ []) (run : ∀ c ∈ w, joint c = .join 0) :
    Spelled (.word (String.ofList w)) := by
  refine .word ?_ ?_
  · rwa [String.toList_ofList]
  · rwa [String.toList_ofList]

theorem spotsFrom_run {w : List Char} (ne : w ≠ []) (run : ∀ c ∈ w, joint c = .join 0)
    (stop : ∀ c ∈ cs.head?, joint c ≠ .join 0) (n : Nat) : spotsFrom n (w ++ cs) =
      ⟨n, .word (String.ofList w)⟩ :: spotsFrom (n + width w) cs := by
  have first := spotsFrom_spelled (spelled_run ne run) stop n
  rwa [Token.text, String.toList_ofList] at first

theorem Splits.eq_spotsFrom (h : Splits n cs ss) : ss = spotsFrom n cs := by
  induction h with
  | nil n => rfl
  | blank blank rest ih => rw [spotsFrom_blank blank, ih]
  | opening rest ih => rw [spotsFrom_opening, ih]
  | closing rest ih => rw [spotsFrom_closing, ih]
  | word ne run stop rest ih =>
    rw [spotsFrom_run ne (fun c hc => joint_eq_join_iff.mpr (run c hc))
      (fun c hc => joint_ne_join_iff.mpr (stop c hc)), ih]

theorem splits_spotsFrom (n : Nat) (cs : List Char) : Splits n cs (spotsFrom n cs) := by
  induction length : cs.length using Nat.strong_induction_on generalizing n cs with
  | _ l ih =>
    cases cs with
    | nil => exact .nil n
    | cons c cs =>
      have shorter : cs.length < l := by simp [← length]
      by_cases joins : joint c = .join 0
      · obtain ⟨w, r, eq, ne, run, stop⟩ :=
          exists_run (fun c => joint c = .join 0) (decide_eq_true joins) cs
        have run (c) (hc : c ∈ w) : joint c = .join 0 := of_decide_eq_true (run c hc)
        have stop (c) (hc : c ∈ r.head?) : joint c ≠ .join 0 := of_decide_eq_false (stop c hc)
        have rest : r.length < l := by
          have ends := congrArg List.length eq
          have some := List.length_pos_iff.mpr ne
          rw [List.length_append, length] at ends
          omega
        rw [eq, spotsFrom_run ne run stop]
        exact .word ne (fun c hc => joint_eq_join_iff.mp (run c hc))
          (fun c hc => joint_ne_join_iff.mp (stop c hc)) (ih r.length rest _ r rfl)
      · rcases joint_ne_join_iff.mp joins with blank | rfl | rfl
        · rw [spotsFrom_blank blank]
          exact .blank blank (ih _ shorter _ cs rfl)
        · rw [spotsFrom_opening]
          exact .opening (ih _ shorter _ cs rfl)
        · rw [spotsFrom_closing]
          exact .closing (ih _ shorter _ cs rfl)

/-- The reader's tokens are those of the relation, and no others. -/
theorem splits_iff : Splits 0 text.toList ss ↔ ss = spots text := by
  rw [spots_eq]
  constructor
  · exact Splits.eq_spotsFrom
  · rintro rfl
    exact splits_spotsFrom 0 text.toList

/-! ### Where reading stops -/

/-- Every offset that is kept is at one of the places. -/
def Operand.At (places : Nat → Prop) (o : Operand) : Prop := places o.start

def Pending.At (places : Nat → Prop) (p : Pending) : Prop :=
  places p.start ∧ places p.site ∧ ∀ o ∈ p.left?, o.At places

def State.At (places : Nat → Prop) : State → Prop
  | operand pending => ∀ p ∈ pending, p.At places
  | payload start pending => places start ∧ ∀ p ∈ pending, p.At places
  | closing start _ pending => places start ∧ ∀ p ∈ pending, p.At places
  | complete _ => True

/-- The result is of the kind, or reading has stopped at one of the places. -/
def Stops {α : Type} (places : Nat → Prop) (kind : α → Prop) : Except Fault α → Prop
  | .ok a => kind a
  | .error fault => ∃ offset expected, fault = .malformed offset expected ∧ places offset

variable {places : Nat → Prop} {p : Pending} {l o : Operand} {pending : List Pending}
  {state : State} {s : Spot}

theorem Stops.malformed {α : Type} {kind : α → Prop} {offset : Nat} (h : places offset)
    (expected : String) : Stops places kind (.error (.malformed offset expected)) :=
  ⟨offset, expected, rfl, h⟩

theorem Stops.bind {α β : Type} {kind : α → Prop} {kind' : β → Prop} {x : Except Fault α}
    {k : α → Except Fault β} (first : Stops places kind x)
    (rest : ∀ a, kind a → Stops places kind' (k a)) : Stops places kind' (x >>= k) := by
  cases x with
  | ok a => exact rest a first
  | error fault => exact first

theorem leaf_stops {site : Nat} (h : places site) (payload : String) :
    Stops places (fun _ => True) (leaf site payload) := by
  by_cases symbol : ∃ c, payload.toList = [c] ∧ isAlphabetic c = true
  · obtain ⟨c, single, letter⟩ := symbol
    rw [leaf_of_letter single letter]
    exact True.intro
  · have other (c) (single : payload.toList = [c]) : isAlphabetic c ≠ true :=
      fun letter => symbol ⟨c, single, letter⟩
    rw [leaf_of_other other]
    cases Decimal.read? payload with
    | none => exact .malformed h _
    | some x => exact True.intro

theorem build_stops (hp : p.At places) (hl : l.At places) (ho : o.At places) :
    Stops places (fun _ => True) (build p l o) := by
  unfold build
  split
  · split
    · exact .malformed hl _
    · trivial
    · exact .malformed ho _
    · exact .malformed ho _
    · trivial
  · split
    · exact .malformed hl _
    · split
      · exact .malformed ho _
      · exact leaf_stops hp.2.1 p.payload

theorem supply_stops (ho : o.At places) (hp : ∀ p ∈ pending, p.At places) :
    Stops places (State.At places) (supply o pending) := by
  cases pending with
  | nil =>
    simp only [supply]
    split
    · trivial
    · exact .malformed ho _
  | cons p pending =>
    rw [List.forall_mem_cons] at hp
    obtain ⟨hp, outer⟩ := hp
    simp only [supply]
    split
    · refine List.forall_mem_cons.mpr ⟨⟨hp.1, hp.2.1, ?_⟩, outer⟩
      rintro _ ⟨⟩
      exact ho
    · next left hl =>
      exact (build_stops hp (hp.2.2 left hl) ho).bind fun t _ => ⟨hp.1, outer⟩

theorem step_stops (h : state.At places) (hs : places s.start) :
    Stops places (State.At places) (step state s) := by
  cases state with
  | operand pending =>
    simp only [step]
    split
    · exact ⟨hs, h⟩
    · split
      · exact supply_stops hs h
      · exact .malformed hs _
  | payload start pending =>
    refine List.forall_mem_cons.mpr ⟨⟨h.1, hs, ?_⟩, h.2⟩
    rintro _ ⟨⟩
  | closing start t pending =>
    simp only [step]
    split
    · exact supply_stops h.1 h.2
    · exact .malformed hs _
  | complete t => exact .malformed hs _

theorem foldlM_stops (h : state.At places) (hs : ∀ s ∈ ss, places s.start) :
    Stops places (State.At places) (ss.foldlM step state) := by
  induction ss generalizing state with
  | nil => exact h
  | cons s ss ih =>
    rw [List.forall_mem_cons] at hs
    rw [List.foldlM_cons]
    exact (step_stops h hs.1).bind fun state' h' => ih h' hs.2

theorem finish_stops {size : Nat} (h : places size) (state : State) :
    Stops places (fun _ => True) (state.finish size) := by
  cases state with
  | operand pending => exact .malformed h _
  | payload start pending => exact .malformed h _
  | closing start t pending => exact .malformed h _
  | complete t => trivial

/-- Reading stops at the start of a token or at the end of the text. -/
theorem read_stops (text : String) :
    Stops (fun n => n = text.utf8ByteSize ∨ n ∈ (spots text).map Spot.start) (fun _ => True)
      (read text) := by
  refine (foldlM_stops (by simp [State.At]) ?_).bind fun state _ => finish_stops (Or.inl rfl) state
  intro s hs
  exact Or.inr (List.mem_map_of_mem hs)

end Polish

namespace Forest

/-- A text in prefix notation is read if and only if its tokens are those of one subtree, and
the root of the forest that is made unfolds to the term of that subtree. All other texts are
malformed at the start of a token or at their end. -/
theorem ofPolish_iff (text : String) : ∃ ss, Polish.Splits 0 text.toList ss ∧
    ((∃ f, ofPolish text = .ok f) ↔ ∃ t, Polish.Written (ss.map Polish.Spot.token) t) ∧
    (∀ t, Polish.Written (ss.map Polish.Spot.token) t → ∃ f r, ofPolish text = .ok f ∧
      f.root = some r ∧ f.term? r = some (t.map Key.ofSymbol)) ∧
    ∀ fault, ofPolish text = .error fault → ∃ offset expected,
      fault = .malformed offset expected ∧
        (offset = text.utf8ByteSize ∨ offset ∈ ss.map Polish.Spot.start) := by
  have made (t : Term Char) (h : Polish.Written ((Polish.spots text).map Polish.Spot.token) t) :
      ∃ f r, ofPolish text = .ok f ∧ f.root = some r ∧
        f.term? r = some (t.map Key.ofSymbol) := by
    obtain ⟨f, r, hf, root, term⟩ := term?_ofTerm t
    refine ⟨f, r, ?_, root, term⟩
    rw [ofPolish, Polish.read_of_written h]
    exact hf
  refine ⟨Polish.spots text, Polish.splits_iff.mpr rfl, ⟨?_, ?_⟩, made, ?_⟩
  · rintro ⟨f, hf⟩
    obtain ⟨t, ht, -⟩ := Except.bind_eq_ok hf
    exact ⟨t, Polish.written_of_read ht⟩
  · rintro ⟨t, ht⟩
    obtain ⟨f, -, hf, -⟩ := made t ht
    exact ⟨f, hf⟩
  · intro fault failed
    have stops := Polish.read_stops text
    rw [eq_error_of_bind_ofTerm failed] at stops
    exact stops

/-- A no-break space separates tokens. A function needs an operand before `nil`. -/
theorem ofPolish_iff_difference :
    let t : Term Char := .binary .sub (.var 'é') (.number 2)
    (∃ ss, Polish.Splits 0 "(-(é nil nil)\u00a0(2 nil nil))".toList ss ∧
      Polish.Written (ss.map Polish.Spot.token) t ∧
      ∃ f r, ofPolish "(-(é nil nil)\u00a0(2 nil nil))" = .ok f ∧ f.root = some r ∧
        f.term? r = some (t.map Key.ofSymbol)) ∧
    ∃ ss, Polish.Splits 0 "( sin nil nil )".toList ss ∧
      ofPolish "( sin nil nil )" = .error (.malformed 6 "subtree") ∧
      6 ∈ ss.map Polish.Spot.start := by
  intro t
  obtain ⟨ss, splits, -, made, -⟩ := ofPolish_iff "(-(é nil nil)\u00a0(2 nil nil))"
  obtain ⟨ss', splits', -, -, stops⟩ := ofPolish_iff "( sin nil nil )"
  constructor
  · have tokens : ss.map Polish.Spot.token = .opening :: .word "-" ::
        (([.opening, .word "é", .word "nil", .word "nil", .closing] : List Polish.Token) ++
          ([.opening, .word "2", .word "nil", .word "nil", .closing] : List Polish.Token) ++
          [.closing]) := by
      rw [Polish.splits_iff.mp splits]
      decide +kernel
    have written : Polish.Written (ss.map Polish.Spot.token) t := by
      have operator : Polish.payload? "-" = some (.operator (.binary .sub)) :=
        Polish.payload?_operator (by decide +kernel)
      have letter : 'é'.toString = "é" := by decide +kernel
      have symbol : Polish.payload? "é" = some (.symbol 'é') := by
        rw [← letter]
        exact Polish.payload?_letter (by decide +kernel)
      have numeral : decimalText 2 = "2" := by decide +kernel
      have number : Polish.payload? "2" = some (.number 2) := by
        rw [← numeral]
        exact Polish.payload?_numeral (by decide +kernel)
      rw [tokens]
      exact .binary operator (.var symbol) (.number number)
    exact ⟨ss, splits, written, made t written⟩
  · have failed : ofPolish "( sin nil nil )" = .error (.malformed 6 "subtree") := by
      decide +kernel
    obtain ⟨offset, expected, same, ends | starts⟩ := stops _ failed
    · cases same
      exact absurd ends (by decide +kernel)
    · cases same
      exact ⟨ss', splits', failed, starts⟩

end Forest

end Fluxion
