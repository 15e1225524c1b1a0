import EnumCompanion.Declaration.Parse
import EnumCompanion.Journal

/-!
# Records on reading declarations

Reading one declaration makes one record, which tells its outcome. Reading all
of a text makes a record for each declaration passed over.
-/

namespace EnumCompanion

open Journal

/-- A record on reading declarations. -/
def parserRecord (message : String) : Record where
  level := .debug
  source := .parser
  message

/-- The records on reading one declaration. -/
def parseRecords : Except Failure Enumeration → List Record
  | .ok e => [parserRecord s!"Parsed enum {e.name.str} with {e.values.length} values"]
  | .error failure => [parserRecord s!"Parse failed: {failure.message}"]

/-- The records on an attempt among others. -/
def Attempt.records (attempt : Attempt) : List Record :=
  match attempt.outcome with
  | .ok _ => []
  | .error failure =>
    [parserRecord
      s!"Skipping declaration at offset {attempt.header.start}: {failure.message}"]

/-- The first enumeration declared in a text, with a record. -/
def parseLogged (text : Text) (allowRepeats : Bool) : Logged (Except Failure Enumeration) :=
  let outcome := parse text allowRepeats
  ⟨outcome, parseRecords outcome⟩

/-- The enumerations declared in a text, with the records on what was passed
    over. -/
def parseAllLogged (text : Text) (allowRepeats : Bool) : Logged (List Enumeration) :=
  let found := attempts text allowRepeats
  ⟨found.filterMap Attempt.enumeration?, found.flatMap Attempt.records⟩

@[simp] theorem value_parseLogged (text : Text) (allowRepeats : Bool) :
    (parseLogged text allowRepeats).value = parse text allowRepeats := rfl

@[simp] theorem value_parseAllLogged (text : Text) (allowRepeats : Bool) :
    (parseAllLogged text allowRepeats).value = parseAll text allowRepeats := rfl

end EnumCompanion
