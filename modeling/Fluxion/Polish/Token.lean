import Fluxion.Text.Blank
import Fluxion.Text.Lexeme

/-!
# Tokens of prefix notation

Each parenthesis is a token, and so is every longest run of other characters that are not
blank.
-/

namespace Fluxion.Polish

inductive Token where
  | opening
  | closing
  | word (text : String)
deriving DecidableEq

/-- A token with the offset of its first byte. -/
structure Spot where
  start : Nat
  token : Token
deriving DecidableEq

def joint (c : Char) : Joint :=
  if isBlank c then .separate
  else if c = '(' ∨ c = ')' then .alone
  else .join 0

def Token.text : Token → String
  | opening => "("
  | closing => ")"
  | word text => text

def Token.ofText (text : String) : Token :=
  if text = "(" then opening
  else if text = ")" then closing
  else word text

def spots (text : String) : List Spot :=
  (lexemes joint text).map fun l => ⟨l.start, .ofText l.text⟩

end Fluxion.Polish
