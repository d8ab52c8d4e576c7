/-!
# Lexemes

A text falls into lexemes by the characters alone: some characters separate and belong to
no lexeme, some stand alone, and the others join with their neighbours of the same kind
into the longest possible run. Offsets count bytes of UTF-8.
-/

namespace Fluxion

inductive Joint where
  | separate
  | alone
  | join (kind : Nat)
deriving DecidableEq

structure Lexeme where
  start : Nat
  text : String
deriving DecidableEq

namespace Lexeme

/-- The characters with their offsets. -/
def positions (cs : List Char) : List (Nat × Char) :=
  (cs.foldl (fun (n, acc) c => (n + c.utf8Size, (n, c) :: acc)) (0, [])).2.reverse

def joined (a b : Joint) : Bool :=
  match a, b with
  | .join k, .join l => k == l
  | _, _ => false

def ofRun? (joint : Char → Joint) (run : List (Nat × Char)) : Option Lexeme :=
  match run with
  | [] => none
  | (start, c) :: _ =>
    if joint c = .separate then none else some ⟨start, String.ofList (run.map (·.2))⟩

end Lexeme

/-- The lexemes of the text, in order. -/
def lexemes (joint : Char → Joint) (text : String) : List Lexeme :=
  ((Lexeme.positions text.toList).splitBy
    fun a b => Lexeme.joined (joint a.2) (joint b.2)).filterMap (Lexeme.ofRun? joint)

end Fluxion
