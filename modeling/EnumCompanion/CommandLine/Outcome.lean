import EnumCompanion.CommandLine.Arguments
import EnumCompanion.CommandLine.Session
import EnumCompanion.Document.Action
import EnumCompanion.Settings.File
import EnumCompanion.Source.Load

/-!
# Outcomes

What comes of a run of the program: how it *ends*, what it shows, the records it
keeps, and the storage it leaves.

* `Ending`: the exit code, or why there is none;
* `finish`: a part of a run that ends it with an exit code;
* `Outcome.idle`: the outcome of a run that ends at once;
* `Outcome.behind`: the outcome of a run that is carried out.
-/

namespace EnumCompanion

open Journal

namespace CommandLine

/-- What a run does not recover from. -/
inductive Fault where
  /-- The source cannot be loaded, and loading does not say so. -/
  | source (fault : Source.Fault)
  /-- The settings are unfit, and settings do not say so. -/
  | settings (fault : Settings.Fault)
  /-- The document cannot be changed. -/
  | document (fault : Document.Fault)
  /-- A file cannot be opened, and that is not expected. -/
  | file (path : Path) (fault : Storage.Fault)
  /-- The flag for an operation has no value. -/
  | noOperation
  /-- The flag for a line has no value. -/
  | noLine
  /-- The number of a line is too long to be told. -/
  | longLine
  /-- The flag for the level of records has no value. -/
  | noLevel

/-- The wording of a fault. -/
def Fault.message : Fault → String
  | source fault => fault.message
  | settings fault => fault.message
  | document fault => fault.message
  | file path fault => fault.message path
  | noOperation => "expected string or bytes-like object, got 'list'"
  | noLine => "unsupported operand type(s) for -: 'list' and 'int'"
  | longLine =>
    "Exceeds the limit (4300 digits) for integer string conversion; " ++
      "use sys.set_int_max_str_digits() to increase the limit"
  | noLevel => "Level not an integer or a valid string: []"

/-- How a run ends. -/
inductive Ending where
  /-- With an exit code. -/
  | exit (code : Nat)
  /-- Before it starts. -/
  | stop (stop : Stop)
  /-- With a fault. -/
  | fault (fault : Fault)

/-- The exit code of success. -/
def successCode : Nat := 0

/-- The exit code of failure. -/
def failureCode : Nat := 1

/-- The exit code where no enum is found. -/
def noEnumCode : Nat := 2

/-- The exit code of a faulty command line. -/
def usageCode : Nat := 2

/-- The exit code of an ending. -/
def Ending.code : Ending → Nat
  | exit code => code
  | stop .help => successCode
  | stop (.fault _) => usageCode
  | fault _ => failureCode

/-- A part of a run that shows items and ends it with an exit code. -/
def finish (code : Nat) (items : List Item) : ExceptT Fault Course Nat := do
  display items
  return code

/-- What comes of a run. -/
structure Outcome where
  /-- How it ends. -/
  ending : Ending
  /-- What it shows. -/
  shown : List Item
  /-- The records that it keeps. -/
  records : List Record
  /-- What it leaves. -/
  storage : Storage

namespace Outcome

/-- The outcome of a run that ends before it has done anything. -/
def idle (ending : Ending) (storage : Storage) : Outcome := ⟨ending, [], [], storage⟩

/-- The outcome of a part of a run that ends it, in a session. -/
def behind (course : ExceptT Fault Course Nat) (session : Session) : Outcome :=
  let (result, session) := course.run.on session
  let ending := match result with
    | .ok code => .exit code
    | .error fault => .fault fault
  ⟨ending, session.shown, session.records, session.storage⟩

end Outcome

end CommandLine

end EnumCompanion
