import Fluxion.Journal.Report
import Fluxion.Typesetting

/-!
# Sinks

What may be kept of the reports: nothing, their messages, their data, a LaTeX document,
or one line of a log for each.
-/

namespace Fluxion

namespace Sink

def silent : Sink Unit := fun _ _ _ => ()

def messages : Sink (Array String) := fun _ r notes => notes.push r.message

def records : Sink (Array Report) := fun _ r notes => notes.push r

/-- The markup of a node that a report names. -/
def formula (f : Forest) (i : Nat) : String := (f.markup? i).getD ""

/-- A failed step is a warning. -/
def logLine (f : Forest) (r : Report) : String :=
  let after := formula f r.node
  match r.fault?, r.before? with
  | some fault, _ => "WARN " ++ r.message ++ ": " ++ after ++ " (" ++ fault.message ++ ")"
  | none, some before =>
    "DEBUG " ++ r.message ++ ": " ++ formula f before ++ " => " ++ after
  | none, none => "DEBUG " ++ r.message ++ ": " ++ after

def log : Sink (Array String) := fun f r notes => notes.push (logLine f r)

end Sink

/-- A document that is being written. If its size is limited, the first part that does
not fit ends the writing for good. -/
structure Manuscript where
  text : String := ""
  limit : Option Nat := none
  full : Bool := false

namespace Manuscript

def add (m : Manuscript) (part : String) : Manuscript :=
  if m.full then m
  else if m.limit.any fun n => n < m.text.utf8ByteSize + part.utf8ByteSize then
    { m with full := true }
  else { m with text := m.text ++ part }

/-- The text, unless some part did not fit. -/
def finish? (m : Manuscript) : Option String := if m.full then none else some m.text

end Manuscript

namespace Sink

/-- A displayed formula with the message before it. -/
def block (f : Forest) (r : Report) : String :=
  let after := formula f r.node
  let body := match r.fault?, r.before? with
    | some fault, _ => after ++ " \\quad \\text\x7b" ++ fault.message ++ "\x7d"
    | none, some before => formula f before ++ " \\rightarrow " ++ after
    | none, none => after
  r.message ++ "\n\\begin\x7bdmath\x7d\n" ++ body ++ "\n\\end\x7bdmath\x7d\n\n"

def document : Sink Manuscript := fun f r m => if m.full then m else m.add (block f r)

end Sink

end Fluxion
