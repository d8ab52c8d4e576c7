import Fluxion.Decimal.Reading
import Fluxion.Fault
import Fluxion.Infix.Token
import Fluxion.Term

/-!
# Reading infix notation

    statement  := expression [newline {newline | form feed}]
    expression := product {("+" | "-") product}
    product    := power {("*" | "/") power}
    power      := primary {"^" primary}
    primary    := "(" expression ")" | digits | letter | function "(" expression ")"

All operators group to the left. Groups and function arguments nest at most
`nestingLimit` deep, and digits must denote a finite number. A fault carries the offset
of the first token that cannot continue the text, or the length of the text if it ends
too early.
-/

namespace Fluxion.Infix

def nestingLimit : Nat := 256

/-- Reads from the front of the tokens and gives what is left of them. -/
abbrev Reading := List Spot → Except Fault (Term Char × List Spot)

/-- The offset at which the tokens go on, in a text of `size` bytes. -/
def offset (size : Nat) : List Spot → Nat
  | [] => size
  | s :: _ => s.start

/-- Takes the token that is due. -/
def expect (size : Nat) (token : Token) (expected : String) (ts : List Spot) :
    Except Fault (List Spot) :=
  match ts with
  | s :: rest =>
    if s.token = token then .ok rest else .error (.malformed s.start expected)
  | [] => .error (.malformed size expected)

def number (start : Nat) (cs : List Char) : Except Fault (Term Char) :=
  let value := Decimal.toFloat ⟨Decimal.accumulate 0 cs, 0⟩
  if value.isFinite then .ok (.number value) else .error (.malformed start "number")

/-- An opening parenthesis at the front belongs to a group that starts at `start`. Reads
the expression in it, by `nested`, and the closing parenthesis. -/
def group (size : Nat) (nested : Nat → Reading) (start : Nat) (ts : List Spot) :
    Except Fault (Term Char × List Spot) := do
  let (t, rest) ← nested start ts
  let rest ← expect size .closing "')'" rest
  return (t, rest)

def primary (size : Nat) (nested : Nat → Reading) : Reading
  | ⟨start, .opening⟩ :: rest => group size nested start rest
  | ⟨start, .digits cs⟩ :: rest => do return (← number start cs, rest)
  | ⟨start, .word name⟩ :: rest =>
    match name.toList with
    | [symbol] => .ok (.var symbol, rest)
    | _ =>
      match Unary.ofToken? name with
      | none => .error (.malformed start "function name")
      | some op => do
        let rest ← expect size .opening "'('" rest
        let (t, rest) ← group size nested start rest
        return (.unary op t, rest)
  | ts => .error (.malformed (offset size ts) "operand")

/-- Reads further operands as long as an operator that binds with strength `level` comes
first, and joins them to `lhs` from left to right. -/
def joinRest (level : Nat) (operand : Reading) : Nat → Term Char → Reading
  | 0, lhs, ts => .ok (lhs, ts)
  | bound + 1, lhs, ts =>
    match ts with
    | ⟨start, .operator op⟩ :: rest =>
      if op.precedence = level then do
        let (rhs, rest) ← operand rest
        joinRest level operand bound (.binary op lhs rhs) rest
      else .ok (lhs, ⟨start, .operator op⟩ :: rest)
    | _ => .ok (lhs, ts)

/-- Operands joined by the operators of one precedence. No text has more tokens than its
`size` in bytes. -/
def chain (size level : Nat) (operand : Reading) : Reading := fun ts => do
  let (lhs, rest) ← operand ts
  joinRest level operand size lhs rest

/-- An expression in which groups may nest `depth` deep. -/
def expression (size : Nat) : Nat → Reading
  | 0, ts =>
    chain size 1 (chain size 2 (chain size 3 (primary size
      fun start _ => .error (.malformed start "shallower nesting")))) ts
  | depth + 1, ts =>
    chain size 1 (chain size 2 (chain size 3 (primary size
      fun _ => expression size depth))) ts

/-- After a newline nothing but newlines and form feeds may follow. -/
def trailer : List Spot → Except Fault Unit
  | [] => .ok ()
  | s :: rest =>
    if s.token = .newline ∨ s.token = .formFeed then trailer rest
    else .error (.malformed s.start "end of input")

def read (text : String) : Except Fault (Term Char) := do
  let (t, rest) ← expression text.utf8ByteSize nestingLimit (spots text)
  match rest with
  | [] => return t
  | s :: rest =>
    if s.token = .newline then
      trailer rest
      return t
    else throw (.malformed s.start "newline")

end Fluxion.Infix
