import EnumCompanion.Declaration.Body
import EnumCompanion.Declaration.Header
import EnumCompanion.Enumeration
import EnumCompanion.Mask

/-!
# Reading enum declarations

A declaration is read behind its header: its body must be closed, hold values,
and hold value names only, which may repeat only on request. Text that cannot
be read gives a `Failure`, never less.

* `readDeclaration`: the enumeration declared behind a header;
* `parse`: the one declared first in a text;
* `attempts`: the declarations of a text, read one after the other;
* `parseAll`: those among them that can be read.
-/

namespace EnumCompanion

open Text

/-- What keeps a text from being read as a declaration. -/
inductive Failure where
  /-- No header was found. -/
  | noHeader
  /-- A line of a document does not mention the keyword. -/
  | lineWithoutKeyword (line : Int)
  /-- The declaration is not closed. -/
  | unclosed (name : Text) (start : Nat)
  /-- The declaration has no values. -/
  | noValues (name : Text) (start : Nat)
  /-- A token is not a value name. -/
  | invalidValue (name value : Text) (start : Nat)
  /-- Values are repeated. -/
  | repeatedValues (name : Text) (values : List Text) (start : Nat)
  deriving DecidableEq

namespace Failure

/-- The name of the kind of a failure. -/
def kind : Failure → String
  | noHeader | lineWithoutKeyword _ => "NoEnumKeyword"
  | unclosed .. => "UnbalancedBraces"
  | noValues .. => "NoValues"
  | invalidValue .. => "InvalidValue"
  | repeatedValues .. => "DuplicateValues"

/-- The wording of a failure. -/
def reason : Failure → String
  | noHeader => "No enum declaration found in the input"
  | lineWithoutKeyword line => s!"Line {line} does not declare an enum"
  | unclosed name _ => s!"Enum {name.str} is not closed before the end of the text"
  | noValues name _ => s!"Enum {name.str} declares no values"
  | invalidValue name value _ => s!"Enum {name.str} has an unrecognized value: {value.quoted.str}"
  | repeatedValues name values _ =>
    s!"Enum {name.str} repeats values: {listing values}"

/-- The place of the keyword of the declaration that failed. -/
def offset? : Failure → Option Nat
  | noHeader | lineWithoutKeyword _ => none
  | unclosed _ start | noValues _ start | invalidValue _ _ start | repeatedValues _ _ start =>
    some start

/-- A failure with its kind. -/
def message (failure : Failure) : String := s!"{failure.kind}: {failure.reason}"

end Failure

/-- The values that a list repeats, in ascending order. -/
def repeats (values : List Text) : List Text :=
  sorted (values.eraseDups.filter fun value => 1 < values.count value)

/-- The enumeration declared behind a header of the masked form of `text`. -/
def readDeclaration (text masked : Text) (allowRepeats : Bool) (header : Header) :
    Except Failure Enumeration :=
  match closingBrace? masked header.brace with
  | none => .error (.unclosed header.name header.start)
  | some close =>
    let values := valueTokens ((masked.take close).drop (header.brace + 1))
    if hvalues : values = [] then .error (.noValues header.name header.start)
    else match hbad : values.find? (!isValueName ·) with
      | some value => .error (.invalidValue header.name value header.start)
      | none =>
        if !allowRepeats && !decide values.Nodup then
          .error (.repeatedValues header.name (repeats values) header.start)
        else .ok {
          name := header.name
          values
          span := some (.ofOffsets text header.start (close + 1))
          isTypeName_name := header.isTypeName_name
          values_ne_nil := hvalues
          isValueName_values := by simpa using hbad }

/-- The first enumeration declared in a text. -/
def parse (text : Text) (allowRepeats : Bool) : Except Failure Enumeration :=
  let masked := text.masked
  match firstHeader? masked 0 with
  | none => .error .noHeader
  | some header => readDeclaration text masked allowRepeats header

/-- An attempt to read the declaration behind a header. -/
structure Attempt where
  /-- The header. -/
  header : Header
  /-- What was read. -/
  outcome : Except Failure Enumeration

/-- The place from which headers are looked for after an attempt: the end of the
    declaration, or its body if it could not be read. -/
def Attempt.resumeAt (attempt : Attempt) : Int :=
  match attempt.outcome with
  | .ok e => (e.span.map Span.stop).getD 0
  | .error _ => attempt.header.brace + 1

/-- The enumeration that was read, if it could be. -/
def Attempt.enumeration? (attempt : Attempt) : Option Enumeration := attempt.outcome.toOption

/-- Attempts at the headers, passing over those before a place. -/
def attemptsFrom (read : Header → Except Failure Enumeration) (position : Int) :
    List Header → List Attempt
  | [] => []
  | header :: rest =>
    if header.start < position then attemptsFrom read position rest
    else
      let attempt : Attempt := ⟨header, read header⟩
      attempt :: attemptsFrom read attempt.resumeAt rest

/-- The attempts to read the declarations of a text. -/
def attempts (text : Text) (allowRepeats : Bool) : List Attempt :=
  let masked := text.masked
  attemptsFrom (readDeclaration text masked allowRepeats) 0 (headers masked)

/-- The enumerations declared in a text, as far as they can be read. -/
def parseAll (text : Text) (allowRepeats : Bool) : List Enumeration :=
  (attempts text allowRepeats).filterMap Attempt.enumeration?

end EnumCompanion
