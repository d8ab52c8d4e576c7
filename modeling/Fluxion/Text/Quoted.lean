import Fluxion.Text.Formless

/-!
# Quoted text

Characters and strings between their quotation marks, as the structural display of
faults shows them. The mark itself and the backslash take a backslash, four controls
have a letter, and a formless character is written by its code point in hexadecimal.
-/

namespace Fluxion.Quoted

/-- The four controls that have a letter of their own. -/
def letter? : Char → Option Char
  | '\x00' => some '0'
  | '\t' => some 't'
  | '\r' => some 'r'
  | '\n' => some 'n'
  | _ => none

/-- One character between two `mark`s. -/
def escape (mark c : Char) : List Char :=
  match letter? c with
  | some l => ['\\', l]
  | none =>
    if c = mark ∨ c = '\\' then ['\\', c]
    else if isFormless c then
      ['\\', 'u', '\x7b'] ++ Nat.toDigits 16 c.toNat ++ ['\x7d']
    else [c]

def enclose (mark : Char) (cs : List Char) : String :=
  String.ofList (mark :: cs.flatMap (escape mark) ++ [mark])

def string (s : String) : String := enclose '"' s.toList

def char (c : Char) : String := enclose '\'' [c]

example : string "a\n\"" = "\"a\\n\\\"\"" := by decide +kernel

end Fluxion.Quoted
