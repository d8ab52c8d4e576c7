import Fluxion.Operator
import Fluxion.Text.Lexeme

/-!
# Tokens of infix notation

Runs of digits and runs of letters are tokens, and so is every other character, except
spaces, tabs and carriage returns, which only separate. Letters and digits are those of
ASCII.
-/

namespace Fluxion.Infix

inductive Token where
  | digits (cs : List Char)
  | word (text : String)
  | operator (op : Binary)
  | opening
  | closing
  | newline
  | formFeed
  | other
deriving DecidableEq

/-- A token with the offset of its first byte. -/
structure Spot where
  start : Nat
  token : Token
deriving DecidableEq

def joint (c : Char) : Joint :=
  if c = ' ' ∨ c = '\t' ∨ c = '\r' then .separate
  else if c.isDigit then .join 0
  else if c.isAlpha then .join 1
  else .alone

def Token.ofText (text : String) : Token :=
  match text.toList with
  | ['('] => opening
  | [')'] => closing
  | ['\n'] => newline
  | ['\x0c'] => formFeed
  | ['+'] => operator .add
  | ['-'] => operator .sub
  | ['*'] => operator .mul
  | ['/'] => operator .div
  | ['^'] => operator .pow
  | c :: cs =>
    if c.isDigit then digits (c :: cs)
    else if c.isAlpha then word text
    else other
  | [] => other

def spots (text : String) : List Spot :=
  (lexemes joint text).map fun l => ⟨l.start, .ofText l.text⟩

end Fluxion.Infix
