import EnumCompanion.CommandLine.Screen
import EnumCompanion.Journal
import EnumCompanion.Storage.Basic

/-!
# Sessions

A run of the program on its way: the storage, what was shown so far, and the
records kept so far. A record is in its file as soon as it is made, so that what
is read or written behind it finds it there.

* `Recorder.entry`: a record as it stands in a file;
* `Session.add`: a session with one more record;
* `Course`: a part of a run;
* `report`, `display`, `writeFile`: parts that make records, show something and
  write a file;
* `told`, `tell`: computations that make records, as parts of a run;
* `on_bind`, `on_run_bind`: one part of a run behind another.
-/

namespace EnumCompanion

open Journal

namespace CommandLine

/-- What keeps the records of a run. -/
structure Recorder where
  /-- The least level of what is kept. -/
  level : Level
  /-- The file that records go to, if there is one. -/
  path : Option Path := none
  /-- The times at which they are made. -/
  clock : Nat → Text := fun _ => []
  /-- What is told of the calls that led to a record. -/
  trace : Text := []

/-- A run of the program on its way. -/
structure Session where
  /-- What keeps the records. -/
  recorder : Recorder
  /-- The files and folders. -/
  storage : Storage
  /-- The records that were kept. -/
  records : List Record := []
  /-- What was shown. -/
  shown : List Item := []

/-- A record as it stands in a file, where a number of them stand before. -/
def Recorder.entry (recorder : Recorder) (count : Nat) (record : Record) : Text :=
  recorder.clock count ++ (' ' :: record.line.toList) ++
    (if record.traced then '\n' :: recorder.trace else []) ++ ['\n']

/-- Storage with text at the end of the file for records. What there is no room for
    is lost, and the run goes on. -/
def Recorder.keep (recorder : Recorder) (storage : Storage) (text : Text) : Storage :=
  match recorder.path with
  | none => storage
  | some path =>
    match storage.append path (Utf8.encode text) with
    | .ok storage => storage
    | .error failure => failure.storage

/-- A session with one more record. -/
def Session.add (session : Session) (record : Record) : Session :=
  { session with
    records := session.records ++ [record]
    storage := session.recorder.keep session.storage
      (session.recorder.entry session.records.length record) }

/-- A part of a run. -/
abbrev Course := StateM Session

/-- What comes of a part of a run, and the session behind it. -/
def Course.on {α : Type} (course : Course α) (session : Session) : α × Session :=
  course.run session

/-- The storage as it is. -/
def currentStorage : Course Storage := do return (← get).storage

/-- Records are made, and those of the least level at least are kept. -/
def report (records : List Record) : Course Unit :=
  modify fun session =>
    (atLeast session.recorder.level.weight records).foldl Session.add session

/-- Items are shown. -/
def display (items : List Item) : Course Unit :=
  modify fun session => { session with shown := session.shown ++ items }

/-- A file is written, or it is told why it cannot be. -/
def writeFile (path : Path) (content : Bytes) : Course (Except Storage.Fault Unit) :=
  modifyGet fun session =>
    match session.storage.write path content with
    | .ok storage => (.ok (), { session with storage })
    | .error failure => (.error failure.fault, { session with storage := failure.storage })

/-- A computation that makes records. -/
def told {α : Type} (logged : Logged α) : Course α := do
  report logged.records
  return logged.value

/-- A computation that makes records and may fail. -/
def tell {ε α : Type} (computation : ExceptT ε Logged α) : ExceptT ε Course α :=
  ExceptT.mk (told computation.run)

/-! ### One part behind another -/

section

variable {α β ε : Type} {session : Session}

@[simp] theorem on_bind (course : Course α) (next : α → Course β) :
    (course >>= next).on session =
      (next (course.on session).1).on (course.on session).2 := rfl

@[simp] theorem on_currentStorage : currentStorage.on session = (session.storage, session) := rfl

theorem on_writeFile (path : Path) (content : Bytes) : (writeFile path content).on session =
    match session.storage.write path content with
    | .ok storage => (.ok (), { session with storage })
    | .error failure => (.error failure.fault, { session with storage := failure.storage }) := rfl

@[simp] theorem on_told (logged : Logged α) : (told logged).on session =
    (logged.value, ((report logged.records).on session).2) := rfl

@[simp] theorem on_run_lift (course : Course α) :
    (liftM course : ExceptT ε Course α).run.on session =
      (.ok (course.on session).1, (course.on session).2) := rfl

@[simp] theorem on_run_tell (computation : ExceptT ε Logged α) :
    (tell computation).run.on session = (told computation.run).on session := rfl

/-- A part that may fail before another one. -/
theorem on_run_bind (course : ExceptT ε Course α) (next : α → ExceptT ε Course β) :
    (course >>= next).run.on session =
      match course.run.on session with
      | (.ok a, behind) => (next a).run.on behind
      | (.error fault, behind) => (.error fault, behind) := by
  rw [ExceptT.run_bind, on_bind]
  generalize course.run.on session = result
  obtain ⟨outcome, behind⟩ := result
  cases outcome <;> rfl

end

end CommandLine

end EnumCompanion
