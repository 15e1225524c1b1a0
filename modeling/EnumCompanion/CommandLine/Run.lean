import EnumCompanion.CommandLine.Job

/-!
# Runs

A run of the program: its arguments are read, the file for records is opened, the
source is loaded, and what the arguments ask for is done with it.

* `loadSource`: the source, with records kept while it is loaded;
* `handle`: a run once the source is loaded;
* `execute`: a run once the arguments are read;
* `open?`, `run`: a run, with the records that the arguments ask for. They also go
  to a file if the arguments name one.
-/

namespace EnumCompanion

open Journal

namespace CommandLine

/-! ### The source -/

/-- Source text from a file. A record that is made on the way is in its file before
    the next step. -/
def loadFile (path : Path) : ExceptT Source.Fault Course Source := do
  (told (Source.announce path) : Course Unit)
  tell (Source.findFile (← currentStorage) path)
  tell (Source.fetchFile (← currentStorage) path)

/-- Source text from the one source that is chosen. -/
def loadSource (around : Surroundings) (choice : Source.Choice) :
    ExceptT Source.Fault Course Source := do
  match ← (choice.origin : Except Source.Fault Source.Origin) with
  | .file name => loadFile (.ofText name)
  | .address url => tell (Source.ofUrl around.reply url)
  | .input => tell (Source.ofInput around.input)

/-- The source that arguments choose. -/
def choiceOf (arguments : Arguments) : Source.Choice :=
  ⟨arguments.file.getD [], arguments.url.getD [], arguments.stdin⟩

/-- The file that arguments choose as source. -/
def filePath? (arguments : Arguments) : Option Path :=
  if arguments.file.getD [] = [] then none else some (.ofText (arguments.file.getD []))

/-- The end of a run whose source cannot be loaded. -/
def unloaded (fault : Source.Fault) : ExceptT Fault Course Nat :=
  if fault.isDeclared then
    finish failureCode [.line s!"[red]✗ Failed to load input:[/red] {fault.message}"]
  else throw (.source fault)

/-! ### Execution -/

/-- What is said before a source is worked on. -/
def introduce (source : Source) : Course Unit :=
  report [record .debug "CLIHandler initialized",
    record .info s!"Data set for source: {source.description.str}"]

/-- What comes of arguments and a source, if there is one. -/
def handle (subject : Option Subject) (arguments : Arguments) : ExceptT Fault Course Nat := do
  match subject with
  | some subject =>
    introduce subject.source
    perform subject arguments
  | none =>
    report [record .debug "CLIHandler initialized",
      record .warning "No data loaded; aborting CLI run"]
    finish failureCode [.line "❌ [red]No data loaded[/red]"]

/-- What comes of arguments. -/
def execute (around : Surroundings) (arguments : Arguments) : ExceptT Fault Course Nat := do
  if arguments.listOperations then finish successCode (operationsListing .builtIn)
  else if (choiceOf arguments).kinds = [] then
    finish failureCode [.line "[red]✗[/red] Input source required (file, --url, or --stdin)"]
  else match ← (loadSource around (choiceOf arguments)).run with
    | .error fault => unloaded fault
    | .ok source => handle (some ⟨source, filePath? arguments⟩) arguments

/-! ### Runs -/

/-- The path of the file for records. It is resolved before the file is opened. -/
def logPath (file : Text) : Path := (Path.ofText file).resolved

/-- What keeps records from a level upward, where arguments ask for it. -/
def recorderFor (around : Surroundings) (arguments : Arguments) (level : Level) : Recorder where
  level
  path := if arguments.logFile = [] then none else some (logPath arguments.logFile)
  clock := around.clock
  trace := around.trace

/-- A session that starts, with the file for records opened, and made if it is not
    there. -/
def Recorder.open (recorder : Recorder) (storage : Storage) : Except Fault Session :=
  match recorder.path with
  | none => .ok { recorder, storage }
  | some path =>
    match storage.append path [] with
    | .ok storage => .ok { recorder, storage }
    | .error failure => .error (.file path failure.fault)

/-- The session that a command line starts. -/
def start (around : Surroundings) (arguments : Arguments) : Except Fault Session :=
  match arguments.logLevel with
  | none => .error .noLevel
  | some level => (recorderFor around arguments level).open around.storage

/-- What comes of a command line. -/
def run (around : Surroundings) (argv : List Text) : Outcome :=
  match Arguments.read argv with
  | .error stop => .idle (.stop stop) around.storage
  | .ok arguments =>
    match start around arguments with
    | .error fault => .idle (.fault fault) around.storage
    | .ok session => .behind (execute around arguments) session

end CommandLine

end EnumCompanion
