import EnumCompanion.Declaration.Report

/-!
# The enum on a line

The enum on a line of a document is read from that line on. First only lines up
to the one that closes the braces opened so far are *captured*; if the
declaration turns out to be longer, the rest of the document is read.

* `captureLength`: how many lines are captured;
* `capture?`: the captured text and where it starts;
* `enumAtLine`: the enum on a line, with records.
-/

namespace EnumCompanion

open Journal Text

/-- The balance of the braces of a line, opening ones less closing ones. -/
def braceBalance (line : Text) : Int := line.count '{' - line.count '}'

/-- Number of masked lines up to the first at whose end a brace was seen and
    none is open, or of all of them. -/
def captureLength (depth : Int) (seen : Bool) : List Text → Nat
  | [] => 0
  | line :: rest =>
    if (seen || '{' ∈ line) ∧ depth + braceBalance line ≤ 0 then 1
    else captureLength (depth + braceBalance line) (seen || '{' ∈ line) rest + 1

/-- The place where a line starts: behind the lines before it and their line
    feeds. -/
def lineStart (before : List Text) : Nat := (before.flatMap fun line => line ++ ['\n']).length

/-- What is captured from a line of a text on, and the place where it starts. -/
def captureFrom (text : Text) (line : Nat) : Text × Nat :=
  let count := captureLength 0 false (text.masked.lines.drop line)
  (unlines ((text.lines.drop line).take count), lineStart (text.lines.take line))

/-- What is captured from a line that mentions the keyword, and the place where
    it starts. -/
def capture? (text : Text) (line : Int) : Option (Text × Nat) :=
  if line < 0 then none
  else match text.lines[line.toNat]? with
    | some content =>
      if content.holds Header.keyword then some (captureFrom text line.toNat) else none
    | none => none

/-- Whether the declaration is not closed in what was read. -/
def Failure.isUnclosed : Failure → Bool
  | .unclosed .. => true
  | _ => false

/-- An enumeration read from the part of a text that starts at a place, as one
    of the text. -/
def Enumeration.shifted (e : Enumeration) (start : Nat) (text : Text) : Enumeration :=
  { e with span := e.span.map fun span => span.shifted start text }

/-- The record on reading the rest of a document. -/
def wideningRecord (line : Int) : Record where
  level := .debug
  source := .document
  message := s!"Widening enum capture at line {line} to the end of the document"

/-- The first enumeration from a place of a text on: of what was captured there,
    or else of all that follows. -/
def readCapture (text : Text) (line : Int) (captured : Text) (start : Nat) (allowRepeats : Bool) :
    Logged (Except Failure Enumeration) := do
  match ← parseLogged captured allowRepeats with
  | .ok e => return .ok e
  | .error failure =>
    if failure.isUnclosed then
      Logged.report [wideningRecord line]
      parseLogged (text.drop start) allowRepeats
    else return .error failure

/-- The enum on a line of a text. -/
def enumAtLine (text : Text) (line : Int) (allowRepeats : Bool) :
    Logged (Except Failure Enumeration) := do
  match capture? text line with
  | none => return .error (.lineWithoutKeyword line)
  | some (captured, start) =>
    let outcome ← readCapture text line captured start allowRepeats
    return outcome.map (·.shifted start text)

end EnumCompanion
