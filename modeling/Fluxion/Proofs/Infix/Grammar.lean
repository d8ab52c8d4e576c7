import Fluxion.Infix.Reader

/-!
# The grammar of infix notation

Which texts are written for which terms, regardless of how they are read. The levels are those
of the productions, by what may stand outside of groups and arguments: at level 0 all
operators, at level 1 those that bind tighter than a sum, at level 2 only powers, and at
level 3 none. An operation has its left operand at its own level, so a chain of operators of
one level groups to the left.
-/

namespace Fluxion.Infix

/-- Spaces, tabs and carriage returns. -/
def Blanks (cs : List Char) : Prop := ∀ c ∈ cs, c = ' ' ∨ c = '\t' ∨ c = '\r'

/-- The whitespace of ASCII. -/
def Whitespace (cs : List Char) : Prop :=
  ∀ c ∈ cs, c = ' ' ∨ c = '\t' ∨ c = '\n' ∨ c = '\x0c' ∨ c = '\r'

/-- The number that the digits denote, rounded. -/
def digitsValue (ds : List Char) : Float := Decimal.toFloat ⟨Decimal.accumulate 0 ds, 0⟩

theorem number_eq (start : Nat) (ds : List Char) : number start ds =
    if (digitsValue ds).isFinite then .ok (.number (digitsValue ds))
    else .error (.malformed start "number") := rfl

/-- `Written depth level cs t`: groups and arguments nest at most `depth` deep in the text `cs`
of the term `t`. -/
inductive Written : Nat → Nat → List Char → Term Char → Prop where
  | digits {depth : Nat} {bs ds : List Char} (blanks : Blanks bs) (ne : ds ≠ [])
    (run : ∀ c ∈ ds, c.isDigit = true) (finite : (digitsValue ds).isFinite = true) :
    Written depth 3 (bs ++ ds) (.number (digitsValue ds))
  | letter {depth : Nat} {bs : List Char} {c : Char} (blanks : Blanks bs)
    (letter : c.isAlpha = true) : Written depth 3 (bs ++ [c]) (.var c)
  | group {depth : Nat} {bs cs es : List Char} {t : Term Char} (blanks : Blanks bs)
    (inner : Written depth 0 cs t) (close : Blanks es) :
    Written (depth + 1) 3 (bs ++ '(' :: (cs ++ es ++ [')'])) t
  | call {depth : Nat} {bs gs cs es : List Char} {t : Term Char} (op : Unary)
    (blanks : Blanks bs) (gap : Blanks gs) (inner : Written depth 0 cs t) (close : Blanks es) :
    Written (depth + 1) 3 (bs ++ (op.token.toList ++ (gs ++ '(' :: (cs ++ es ++ [')']))))
      (.unary op t)
  | operand {depth level : Nat} {cs : List Char} {t : Term Char} (loose : level < 3)
    (tighter : Written depth (level + 1) cs t) : Written depth level cs t
  | operation {depth level : Nat} {cs bs ds : List Char} {s t : Term Char} (op : Binary)
    (precedence : op.precedence = level + 1) (left : Written depth level cs s)
    (blanks : Blanks bs) (right : Written depth (level + 1) ds t) :
    Written depth level (cs ++ (bs ++ (op.token.toList ++ ds))) (.binary op s t)

/-- An expression, and after it blanks and either nothing or a newline and whitespace. -/
inductive Statement : List Char → Term Char → Prop where
  | ended {cs bs : List Char} {t : Term Char} (expression : Written nestingLimit 0 cs t)
    (blanks : Blanks bs) : Statement (cs ++ bs) t
  | terminated {cs bs ws : List Char} {t : Term Char}
    (expression : Written nestingLimit 0 cs t) (blanks : Blanks bs) (rest : Whitespace ws) :
    Statement (cs ++ (bs ++ '\n' :: ws)) t

/-- A statement in which groups and arguments nest at most `limit` deep. -/
inductive Sentence (limit : Nat) : List Char → Term Char → Prop where
  | ended {cs bs : List Char} {t : Term Char} (expression : Written limit 0 cs t)
    (blanks : Blanks bs) : Sentence limit (cs ++ bs) t
  | terminated {cs bs ws : List Char} {t : Term Char} (expression : Written limit 0 cs t)
    (blanks : Blanks bs) (rest : Whitespace ws) : Sentence limit (cs ++ (bs ++ '\n' :: ws)) t

theorem statement_iff {cs : List Char} {t : Term Char} :
    Statement cs t ↔ Sentence nestingLimit cs t := by
  constructor
  · rintro (⟨expression, blanks⟩ | ⟨expression, blanks, rest⟩)
    · exact .ended expression blanks
    · exact .terminated expression blanks rest
  · rintro (⟨expression, blanks⟩ | ⟨expression, blanks, rest⟩)
    · exact .ended expression blanks
    · exact .terminated expression blanks rest

/-- Reads a text in which groups and arguments may nest `limit` deep. -/
def readWithin (limit : Nat) (text : String) : Except Fault (Term Char) := do
  let (t, rest) ← expression text.utf8ByteSize limit (spots text)
  match rest with
  | [] => return t
  | s :: rest =>
    if s.token = .newline then
      trailer rest
      return t
    else throw (.malformed s.start "newline")

theorem read_eq_readWithin : read = readWithin nestingLimit := rfl

theorem readWithin_eq (limit : Nat) (text : String) : readWithin limit text =
    expression text.utf8ByteSize limit (spots text) >>= fun (t, rest) =>
      match rest with
      | [] => .ok t
      | s :: rest =>
        if s.token = .newline then trailer rest >>= fun _ => .ok t
        else .error (.malformed s.start "newline") := rfl

namespace Blanks

variable {bs : List Char}

theorem nil : Blanks [] := fun _ h => absurd h List.not_mem_nil

theorem cons {c : Char} (h : c = ' ' ∨ c = '\t' ∨ c = '\r') (hs : Blanks bs) :
    Blanks (c :: bs) := by
  intro d hd
  rcases List.mem_cons.mp hd with rfl | hd
  · exact h
  · exact hs d hd

theorem whitespace (h : Blanks bs) : Whitespace bs := by
  intro c hc
  rcases h c hc with rfl | rfl | rfl <;> simp

end Blanks

theorem Whitespace.append {cs ds : List Char} (hc : Whitespace cs) (hd : Whitespace ds) :
    Whitespace (cs ++ ds) := by
  intro c h
  rcases List.mem_append.mp h with h | h
  · exact hc c h
  · exact hd c h

end Fluxion.Infix
