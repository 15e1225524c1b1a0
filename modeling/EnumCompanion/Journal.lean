/-!
# The journal

What a computation reports about its course: *records*, each with a level, the
part of the library it comes from and a message. A `Logged` value comes with the
records made on the way to it, and what it is never depends on them.

* `Logged.value_bind`: the value of one computation after another;
* `Logged.value_run_bind`: the same of computations that may fail;
* `Journal.Setup`: the journal as a program sets it up.
-/

namespace EnumCompanion

namespace Journal

/-- The weight of a record. -/
inductive Level where
  /-- Steps of interest to a developer. -/
  | debug
  /-- Steps of interest to a user. -/
  | info
  /-- What may not be meant. -/
  | warning
  /-- What failed. -/
  | error
  deriving DecidableEq

/-- The name of a level. -/
def Level.name : Level → String
  | debug => "DEBUG"
  | info => "INFO"
  | warning => "WARNING"
  | error => "ERROR"

/-- The number of a level. -/
def Level.weight : Level → Int
  | debug => 10
  | info => 20
  | warning => 30
  | error => 40

/-- The levels, in ascending order. -/
def Level.all : List Level := [debug, info, warning, error]

/-- The level of a name. -/
def Level.ofName? (name : String) : Option Level := Level.all.find? fun level => level.name == name

/-- The parts of the library that make records. -/
inductive Part where
  /-- Reading of declarations. -/
  | parser
  /-- Settings. -/
  | settings
  /-- Generation of code. -/
  | generator
  /-- Edits of documents. -/
  | document
  /-- Loading of sources. -/
  | source
  /-- The command line. -/
  | commandLine
  deriving DecidableEq

/-- The name under which all parts stand. -/
def rootName : String := "dart_enum_explorer"

/-- The name of a part. -/
def Part.name : Part → String
  | parser => rootName ++ ".codegen.core.parser"
  | settings => rootName ++ ".codegen.core.config"
  | generator => rootName ++ ".codegen.core.generator"
  | document => rootName ++ ".document"
  | source => rootName ++ ".utils"
  | commandLine => rootName ++ ".cli"

/-- A name under the root: one that stands there already, or else a name below
    it. -/
def qualifiedName (name : String) : String :=
  if name = rootName ∨ (rootName ++ ".").isPrefixOf name then name else rootName ++ "." ++ name

/-- A record. -/
structure Record where
  /-- Its weight. -/
  level : Level
  /-- Where it comes from. -/
  source : Part
  /-- What it says. -/
  message : String
  /-- Whether the calls that led to it are told with it. -/
  traced : Bool := false
  deriving DecidableEq

/-- A record as one line: the level in eight columns, where it comes from, and
    what it says. -/
def Record.line (record : Record) : String :=
  record.level.name ++ String.ofList (List.replicate (9 - record.level.name.length) ' ') ++
    record.source.name ++ ": " ++ record.message

/-- The records of at least a weight. -/
def atLeast (weight : Int) (records : List Record) : List Record :=
  records.filter fun record => weight ≤ record.level.weight

/-! ### Setup -/

/-- A letter of the name of a level in any of its forms: a small letter counts
    as its capital, the dotless i as an I and the long s as an S. -/
def levelLetter (c : Char) : Char :=
  if c = 'ı' then 'I' else if c = 'ſ' then 'S' else c.toUpper

/-- The weights that have names. -/
def namedWeights : List (List Char × Int) :=
  [("CRITICAL".toList, 50), ("FATAL".toList, 50), ("ERROR".toList, 40), ("WARN".toList, 30),
    ("WARNING".toList, 30), ("INFO".toList, 20), ("DEBUG".toList, 10), ("NOTSET".toList, 0)]

/-- The weight of a name; that of a warning if it names none. -/
def weightOfName (name : String) : Int :=
  ((namedWeights.find? fun named => named.1 == name.toList.map levelLetter).map Prod.snd).getD
    Level.warning.weight

/-- The journal of a program. -/
structure Setup where
  /-- The least weight of what is recorded. -/
  weight : Int
  /-- Whether records also go to the journals around this one. -/
  propagates : Bool
  /-- The kinds of what receives the records. -/
  handlers : List String
  deriving DecidableEq

/-- The journal that records from a weight upward, on the terminal. -/
def setup (weight : Int) : Setup := ⟨weight, false, ["NullHandler", "RichHandler"]⟩

end Journal

open Journal

/-- A value with the records made on the way to it. -/
structure Logged (α : Type) where
  /-- The value. -/
  value : α
  /-- The records, the first in front. -/
  records : List Record

namespace Logged

instance : Monad Logged where
  pure value := ⟨value, []⟩
  bind logged next :=
    ⟨(next logged.value).value, logged.records ++ (next logged.value).records⟩

/-- A computation that only makes records. -/
def report (records : List Record) : Logged Unit := ⟨(), records⟩

variable {α β : Type}

@[simp] theorem value_pure (value : α) : (pure value : Logged α).value = value := rfl

@[simp] theorem value_bind (logged : Logged α) (next : α → Logged β) :
    (logged >>= next).value = (next logged.value).value := rfl

/-- What becomes of a computation that may fail does not depend on records. -/
@[simp] theorem value_run_bind {ε : Type} (first : ExceptT ε Logged α)
    (next : α → ExceptT ε Logged β) :
    (first >>= next).run.value = first.run.value >>= fun a => (next a).run.value := by
  rw [ExceptT.run_bind, value_bind]
  cases first.run.value <;> rfl

end Logged

end EnumCompanion
