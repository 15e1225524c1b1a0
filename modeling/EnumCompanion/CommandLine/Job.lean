import EnumCompanion.CommandLine.Listing
import EnumCompanion.CommandLine.Outcome

/-!
# Jobs

A *job* is what a user asks for on a source: operations for some of its enums, by
settings. Its code is shown, saved to a file, or put into the source.

* `settingsFor`, `operationsFor`, `enumsFor`: what arguments ask for;
* `Job.write`: the code put into the source;
* `Job.generate`: the code shown or saved;
* `perform`: what comes of arguments and a source.
-/

namespace EnumCompanion

open Journal

namespace CommandLine

/-- A source that the program works on. -/
structure Subject where
  /-- The source. -/
  source : Source
  /-- The file it is from. -/
  path : Option Path := none

/-- What is to be done with a source. -/
structure Job where
  /-- What code is generated with. -/
  generator : Generator
  /-- The operations. -/
  operations : List Operation
  /-- The enums. -/
  enums : List Enumeration

/-- A record of the command line. -/
def record (level : Level) (message : String) : Record where
  level
  source := .commandLine
  message

/-- The end of a run that cannot write a file. -/
def unwritten (path : Path) (fault : Storage.Fault) : ExceptT Fault Course Nat :=
  if fault.isSystem then
    finish failureCode
      [.line s!"[red]✗ Failed to write to {path.shown.str}:[/red] {fault.message path}"]
  else throw (.file path fault)

/-! ### What arguments ask for -/

/-- The fields of settings that arguments give. -/
def overrides (arguments : Arguments) : List (String × Json) :=
  (if arguments.extensionSuffix = [] then []
    else [("extension_suffix", .string arguments.extensionSuffix.str)]) ++
  if arguments.allowDuplicates then [("allow_duplicate_values", .bool true)] else []

/-- The settings that arguments give. -/
def settingsFor (storage : Storage) (arguments : Arguments) :
    ExceptT Settings.Fault Logged Settings :=
  Settings.load storage arguments.config (overrides arguments)

/-- The names of operations that arguments give, that of the extension if they
    give none. -/
def operationNames (arguments : Arguments) : List (Option Text) :=
  if arguments.generate = [] then [some Operation.extension.name.toList] else arguments.generate

/-- Why the operations that arguments ask for cannot be told. -/
inductive OperationsFault where
  /-- An operation is not known. -/
  | registry (fault : Registry.Fault)
  /-- The flag for an operation has no value. -/
  | noName

/-- The operation of a name, if there is a name. -/
def operationFor (registry : Registry) : Option Text → Except OperationsFault Operation
  | some name => (registry.resolve (.named name)).mapError .registry
  | none => .error .noName

/-- The operations that arguments ask for, each once. -/
def operationsFor (registry : Registry) (arguments : Arguments) :
    Except OperationsFault (List Operation) :=
  if arguments.all then .ok registry.operations
  else ((operationNames arguments).mapM (operationFor registry)).map List.eraseDups

/-- The enum on a line, counted from one, if there is one. -/
def enumsOnLine (text : Text) (line : Int) (allowRepeats : Bool) : Logged (List Enumeration) := do
  match ← enumAtLine text (line - 1) allowRepeats with
  | .ok e => return [e]
  | .error failure =>
    Logged.report [record .info s!"No enum at line {line}: {failure.message}"]
    return []

/-- The enums among which arguments choose by name. -/
def enumsInReach (text : Text) (line : Option (Option Int)) (allowRepeats : Bool) :
    ExceptT Fault Logged (List Enumeration) :=
  match line with
  | none => ExceptT.lift (parseAllLogged text allowRepeats)
  | some none => throw .noLine
  | some (some line) =>
    if isShowable (line - 1) then ExceptT.lift (enumsOnLine text line allowRepeats)
    else throw .longLine

/-- The enums that arguments choose. -/
def enumsFor (text : Text) (arguments : Arguments) (allowRepeats : Bool) :
    ExceptT Fault Logged (List Enumeration) := do
  let enums ← enumsInReach text arguments.line allowRepeats
  return enums.filter fun e => arguments.enums.isEmpty || arguments.enums.contains e.name

namespace Job

/-! ### Code in the source -/

/-- The source with the code. -/
def changed (job : Job) (text : Text) : ExceptT Document.Fault Logged Text :=
  job.generator.applyOperations text (job.operations.map .exactly)
    (some (job.enums.map Enumeration.name))

/-- Where to write: the file that is chosen, or else that of the source. -/
def target? (subject : Subject) (output : Text) : Option Path :=
  if output = [] then subject.path else some (.ofText output)

/-- The changed source in a file, unless the file holds it already. -/
def writeTo (subject : Subject) (text : Text) (path : Path) : ExceptT Fault Course Nat := do
  if subject.path = some path ∧ text = subject.source.text then
    finish successCode [.line s!"[green]✓[/green] {path.shown.str} is already up to date"]
  else match ← writeFile path (Utf8.encode text) with
    | .ok _ => finish successCode [.line s!"[green]✓[/green] Updated [cyan]{path.shown.str}[/cyan]"]
    | .error fault => do
      let code ← unwritten path fault
      report [record .error s!"Write failed for {path.shown.str}: {fault.message path}"]
      return code

/-- The code put into the source, which is written to a file or shown. -/
def write (job : Job) (subject : Subject) (output : Text) : ExceptT Fault Course Nat := do
  match ← (told (job.changed subject.source.text).run : Course _) with
  | .error fault => throw (.document fault)
  | .ok text =>
    match target? subject output with
    | none => finish successCode [.raw text]
    | some path => writeTo subject text path

/-! ### Code on its own -/

/-- The fragments of all operations for all enums. -/
def fragments (job : Job) : ExceptT Fragment.Fault Logged (List Fragment) :=
  (job.enums.flatMap fun e => job.operations.map fun operation => (e, operation)).mapM
    fun (e, operation) => ExceptT.mk (job.generator.fragment e (.exactly operation) true)

/-- The code of fragments, with blank lines between them. -/
def codeOf (fragments : List Fragment) : Text :=
  ['\n', '\n'].intercalate (fragments.map Fragment.code) ++ ['\n']

/-- What is shown of fragments beside their code. -/
def besides (fragments : List Fragment) (verbose : Bool) : List Item :=
  (if verbose then fragmentsListing fragments else []) ++ warningsListing (warningsOf fragments)

/-- The code of fragments saved to a file, or shown if none is chosen. -/
def present (fragments : List Fragment) (output : Text) (verbose : Bool) :
    ExceptT Fault Course Nat := do
  if output = [] then
    finish successCode (.code (codeOf fragments) :: besides fragments verbose)
  else
    let path := Path.ofText output
    match ← writeFile path (Utf8.encode (codeOf fragments)) with
    | .error fault => unwritten path fault
    | .ok _ =>
      finish successCode
        (.line s!"[green]✓[/green] Generated code saved to [cyan]{path.shown.str}[/cyan]" ::
          besides fragments verbose)

/-- The code shown or saved. -/
def generate (job : Job) (output : Text) (verbose : Bool) : ExceptT Fault Course Nat := do
  match ← (told job.fragments.run : Course _) with
  | .error fault =>
    finish failureCode [.line s!"[red]✗ Code generation failed:[/red] {fault.message}"]
  | .ok fragments => present fragments output verbose

end Job

/-! ### Performing -/

/-- What comes of operations for enums by settings. -/
def performOn (subject : Subject) (arguments : Arguments) (settings : Settings)
    (operations : List Operation) (enums : List Enumeration) : ExceptT Fault Course Nat := do
  let description := subject.source.description
  if enums.isEmpty then
    finish noEnumCode
      [.line s!"[yellow]⚠️  No enum declarations found in {description.str}[/yellow]"]
  else
    let job : Job := ⟨{ settings }, operations, enums⟩
    report [record .info s!"Found {enums.length} enum(s) in {description.str}"]
    if arguments.listEnums then finish successCode [enumsTable description enums]
    else if arguments.write then job.write subject arguments.output
    else job.generate arguments.output arguments.verbose

/-- What comes of operations by settings. -/
def performWith (subject : Subject) (arguments : Arguments) (settings : Settings)
    (operations : List Operation) : ExceptT Fault Course Nat := do
  let enums ← tell (enumsFor subject.source.text arguments settings.allowRepeats.isTruthy)
  performOn subject arguments settings operations enums

/-- What is shown of arguments that are refused. -/
def refusal (message : String) : Item := .line s!"[red]✗ Error:[/red] {message}"

/-- The end of a run with unfit settings. -/
def unfit (fault : Settings.Fault) : ExceptT Fault Course Nat :=
  if fault.isDeclared then finish failureCode [refusal s!"Configuration error: {fault.message}"]
  else throw (.settings fault)

/-- What is shown of a warning on settings. -/
def warningItem (warning : Settings.Warning) : Item :=
  .line s!"[yellow]⚠️  {warning.message}[/yellow]"

/-- What comes of settings and operations. -/
def performBy (subject : Subject) (arguments : Arguments) (settings : Settings)
    (operations : List Operation) : ExceptT Fault Course Nat := do
  match settings.warnings with
  | .error fault => throw (.settings fault)
  | .ok warnings =>
    display (warnings.map warningItem)
    performWith subject arguments settings operations

/-- What comes of arguments and a source. -/
def perform (subject : Subject) (arguments : Arguments) : ExceptT Fault Course Nat := do
  match ← (told (settingsFor (← currentStorage) arguments).run : Course _) with
  | .error fault => unfit fault
  | .ok settings =>
    match operationsFor .builtIn arguments with
    | .error (.registry fault) => finish failureCode [refusal fault.message]
    | .error .noName => throw .noOperation
    | .ok operations => performBy subject arguments settings operations

end CommandLine

end EnumCompanion
