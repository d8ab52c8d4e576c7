import Fluxion.Decimal.Layout
import Fluxion.Polish.Token
import Fluxion.Term

/-!
# Writing prefix notation

    ( payload left right )

The payload is the token of an operator, a number or a symbol, and `nil` stands for an
operand that is not there. One space separates the tokens.
-/

namespace Fluxion.Polish

/-- The tokens of the term, followed by `rest`. -/
def tokensOnto : Term Char → List Token → List Token
  | .number x, rest =>
    .opening :: .word (decimalText x) :: .word "nil" :: .word "nil" :: .closing :: rest
  | .var symbol, rest =>
    .opening :: .word symbol.toString :: .word "nil" :: .word "nil" :: .closing :: rest
  | .unary op t, rest =>
    .opening :: .word op.token :: tokensOnto t (.word "nil" :: .closing :: rest)
  | .binary op s t, rest =>
    .opening :: .word op.token :: tokensOnto s (tokensOnto t (.closing :: rest))

def tokens (t : Term Char) : List Token := tokensOnto t []

def write (t : Term Char) : String :=
  String.intercalate " " ((tokens t).map Token.text)

end Fluxion.Polish
