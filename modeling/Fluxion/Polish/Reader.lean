import Fluxion.Decimal.Reading
import Fluxion.Fault
import Fluxion.Polish.Token
import Fluxion.Term
import Fluxion.Text.Alphabetic

/-!
# Reading prefix notation

The reader takes one token at a time. It keeps the subtrees whose parenthesis is open,
and builds a subtree as soon as both of its operands are there, before it looks for the
closing parenthesis. Only then does the payload decide how many operands there should
have been.
-/

namespace Fluxion.Polish

/-- What stood in the place of an operand, `none` being `nil`, and where. -/
structure Operand where
  start : Nat
  term? : Option (Term Char)

/-- A subtree whose operands are still to be read, except perhaps the left one. -/
structure Pending where
  /-- The offset of its parenthesis. -/
  start : Nat
  /-- The offset of its payload. -/
  site : Nat
  payload : String
  left? : Option Operand

inductive State where
  /-- An operand is due, or the whole expression if no subtree is open. -/
  | operand (pending : List Pending)
  /-- The payload of the subtree that starts at `start` is due. -/
  | payload (start : Nat) (pending : List Pending)
  /-- The closing parenthesis of the subtree that starts at `start` is due. -/
  | closing (start : Nat) (term : Term Char) (pending : List Pending)
  | complete (term : Term Char)

/-- A payload without operands: one alphabetic character, or a number. -/
def leaf (site : Nat) (payload : String) : Except Fault (Term Char) :=
  let number : Except Fault (Term Char) :=
    match Decimal.read? payload with
    | some x => .ok (.number x)
    | none => .error (.malformed site "operator, number or variable")
  match payload.toList with
  | [c] => if isAlphabetic c then .ok (.var c) else number
  | _ => number

def build (p : Pending) (left right : Operand) : Except Fault (Term Char) :=
  match Operator.ofToken? p.payload with
  | some op =>
    match op, left.term?, right.term? with
    | _, none, _ => .error (.malformed left.start "subtree")
    | .unary op, some t, none => .ok (.unary op t)
    | .unary _, some _, some _ => .error (.malformed right.start "nil")
    | .binary _, some _, none => .error (.malformed right.start "subtree")
    | .binary op, some s, some t => .ok (.binary op s t)
  | none =>
    if left.term?.isSome then .error (.malformed left.start "nil")
    else if right.term?.isSome then .error (.malformed right.start "nil")
    else leaf p.site p.payload

/-- Hands an operand to the innermost subtree; without one the expression is complete. -/
def supply (operand : Operand) : List Pending → Except Fault State
  | [] =>
    match operand.term? with
    | some t => .ok (.complete t)
    | none => .error (.malformed operand.start "(")
  | p :: rest =>
    match p.left? with
    | none => .ok (.operand ({ p with left? := some operand } :: rest))
    | some left => do return .closing p.start (← build p left operand) rest

def step (state : State) (s : Spot) : Except Fault State :=
  match state with
  | .operand pending =>
    if s.token = .opening then .ok (.payload s.start pending)
    else if s.token = .word "nil" then supply ⟨s.start, none⟩ pending
    else .error (.malformed s.start "(")
  | .payload start pending =>
    .ok (.operand (⟨start, s.start, s.token.text, none⟩ :: pending))
  | .closing start term pending =>
    if s.token = .closing then supply ⟨start, some term⟩ pending
    else .error (.malformed s.start ")")
  | .complete _ => .error (.malformed s.start "end of input")

/-- The outcome if the text, of `size` bytes, ends here. -/
def State.finish (size : Nat) : State → Except Fault (Term Char)
  | .operand _ => .error (.malformed size "(")
  | .payload _ _ => .error (.malformed size "payload")
  | .closing _ _ _ => .error (.malformed size ")")
  | .complete t => .ok t

def read (text : String) : Except Fault (Term Char) := do
  let state ← (spots text).foldlM step (.operand [])
  state.finish text.utf8ByteSize

end Fluxion.Polish
