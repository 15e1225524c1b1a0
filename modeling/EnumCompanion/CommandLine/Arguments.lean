import EnumCompanion.CommandLine.Flag
import EnumCompanion.Journal
import EnumCompanion.Number.Integer

/-!
# Arguments

The arguments of a command line are read from left to right. The first word that
is no value of a flag names a file. A file, a web address and the standard input
exclude one another. What is left over is refused in the end.

A flag that carries a pair of hyphens is given without a value. For most flags
this is as an empty value; those for an operation, a line and the level of
records fail once the value is needed.

* `Arguments.read`: the arguments that a command line gives, or why it is not
  run.
-/

namespace EnumCompanion

namespace CommandLine

/-- The arguments of a command line. -/
structure Arguments where
  /-- The name of a file. -/
  file : Option Text := none
  /-- A web address. -/
  url : Option Text := none
  /-- Whether the standard input is read. -/
  stdin : Bool := false
  /-- The names of enums. -/
  enums : List Text := []
  /-- The number of a line, counted from one, or its flag without a number. -/
  line : Option (Option Int) := none
  /-- Whether the enums are shown. -/
  listEnums : Bool := false
  /-- The names of operations, or their flag without a name. -/
  generate : List (Option Text) := []
  /-- Whether all operations are meant. -/
  all : Bool := false
  /-- Whether the code is put into the document. -/
  write : Bool := false
  /-- Where to write, empty if not chosen. -/
  output : Text := []
  /-- The name of a file of settings, empty if there is none. -/
  config : Text := []
  /-- The suffix of the bundling extension, empty if not chosen. -/
  extensionSuffix : Text := []
  /-- Whether enums may repeat values. -/
  allowDuplicates : Bool := false
  /-- Whether the operations are shown. -/
  listOperations : Bool := false
  /-- Whether what is known about the code is shown. -/
  verbose : Bool := false
  /-- The least level of records, none if its flag has no value. -/
  logLevel : Option Journal.Level := some .warning
  /-- The name of a file for records, empty if there is none. -/
  logFile : Text := []

/-- Why a command line is not run. -/
inductive Stop where
  /-- It asks how the command is used. -/
  | help
  /-- It is faulty. -/
  | fault (fault : UsageFault)
  deriving DecidableEq

namespace Arguments

/-- The inputs that exclude one another. -/
def exclusive : List Input := [.file, .flag .url, .flag .stdin]

/-- Whether an input is given. -/
def gives (arguments : Arguments) : Input → Bool
  | .file => arguments.file.isSome
  | .flag .url => arguments.url.isSome
  | .flag .stdin => arguments.stdin
  | .flag _ => false

/-- Arguments, unless an input that is given excludes another one. -/
def unlessExcluded (arguments : Arguments) (input : Input) : Except Stop Arguments :=
  match (exclusive.filter (· ≠ input)).find? arguments.gives with
  | some other => .error (.fault (.excludes input other))
  | none => .ok arguments

/-- Arguments with a flag that has no value. -/
def withSwitch (arguments : Arguments) : Flag → Except Stop Arguments
  | .help => .error .help
  | .stdin => unlessExcluded { arguments with stdin := true } (.flag .stdin)
  | .listEnums => .ok { arguments with listEnums := true }
  | .all => .ok { arguments with all := true }
  | .write => .ok { arguments with write := true }
  | .allowDuplicates => .ok { arguments with allowDuplicates := true }
  | .listOperations => .ok { arguments with listOperations := true }
  | .verbose => .ok { arguments with verbose := true }
  | _ => .ok arguments

/-- The names of the levels of records. -/
def levelNames : List Text := Journal.Level.all.map fun level => level.name.toList

/-- The number of a line that a text writes. -/
def lineOf (text : Text) : Except Stop Int :=
  match readInteger? text with
  | some line => .ok line
  | none => .error (.fault (.notInteger .line text))

/-- The level of records that a text names. -/
def levelOf (text : Text) : Except Stop Journal.Level :=
  match Journal.Level.ofName? text.str with
  | some level => .ok level
  | none => .error (.fault (.notChoice .logLevel text levelNames))

/-- Arguments with a flag and its value, if it has one. -/
def withValue (arguments : Arguments) (flag : Flag) (value : Option Text) :
    Except Stop Arguments :=
  let text := value.getD []
  match flag with
  | .url => unlessExcluded { arguments with url := some text } (.flag .url)
  | .enum => .ok { arguments with enums := arguments.enums ++ [text] }
  | .line => (value.mapM lineOf).map fun line => { arguments with line := some line }
  | .generate => .ok { arguments with generate := arguments.generate ++ [value] }
  | .output => .ok { arguments with output := text }
  | .config => .ok { arguments with config := text }
  | .extensionSuffix => .ok { arguments with extensionSuffix := text }
  | .logLevel => (value.mapM levelOf).map fun logLevel => { arguments with logLevel }
  | .logFile => .ok { arguments with logFile := text }
  | _ => .ok arguments

/-- Arguments with the name of a file. -/
def withFile (arguments : Arguments) (file : Text) : Except Stop Arguments :=
  unlessExcluded { arguments with file := some file } .file

/-! ### Reading -/

/-- What was read of a command line. -/
structure Progress where
  /-- The arguments. -/
  arguments : Arguments := {}
  /-- Arguments that are left over. -/
  leftOver : List Text := []
  /-- Whether the last thing read is the name of the file. -/
  behindFile : Bool := false

namespace Progress

/-- What was read, with other arguments. -/
def having (progress : Progress) (arguments : Arguments) : Progress :=
  { progress with arguments, behindFile := false }

/-- What was read, with one more argument that is left over. -/
def leaving (progress : Progress) (text : Text) : Progress :=
  { progress with leftOver := progress.leftOver ++ [text], behindFile := false }

/-- What was read with one more word: the name of the file, unless it is known. -/
def word (progress : Progress) (text : Text) : Except Stop Progress :=
  if progress.arguments.file.isSome then .ok (progress.leaving text)
  else (progress.arguments.withFile text).map fun arguments =>
    { progress with arguments, behindFile := true }

/-- What was read with the pair of hyphens, which is left over unless it stands
    next to the name of the file. -/
def separator (progress : Progress) : Progress :=
  if progress.arguments.file.isSome ∧ !progress.behindFile then progress.leaving ['-', '-']
  else { progress with behindFile := false }

/-- Why a command line is not run where letters follow that of help: each must
    be that of a short flag, of which the last may lack its value or carry one. -/
def helpWith (nextIsWord : Bool) : Text → Stop
  | [] => .help
  | c :: rest =>
    match Flag.ofSpelling? ['-', c] with
    | some .help => helpWith nextIsWord rest
    | some flag => if rest = [] ∧ !nextIsWord then .fault (.lacksValue flag) else .help
    | none => .fault (.carriesValue .help (c :: rest))

/-- The value that a text gives a flag: a pair of hyphens gives none. -/
def valueOf (text : Text) : Option Text := if text = ['-', '-'] then none else some text

/-- What was read with a flag and the value that it carries, where `next` is the
    word behind it, and whether that word was read too. -/
def flag (progress : Progress) (flag : Flag) (carried : Carried) (next : Option Text) :
    Except Stop (Progress × Bool) :=
  if flag.takesValue then
    match carried, next with
    | .assigned text, _ | .attached text, _ =>
      (progress.arguments.withValue flag (valueOf text)).map fun arguments =>
        (progress.having arguments, false)
    | .nothing, some text =>
      (progress.arguments.withValue flag (valueOf text)).map fun arguments =>
        (progress.having arguments, true)
    | .nothing, none => .error (.fault (.lacksValue flag))
  else
    match carried with
    | .nothing =>
      (progress.arguments.withSwitch flag).map fun arguments => (progress.having arguments, false)
    | .assigned value => .error (.fault (.carriesValue flag value))
    | .attached [] => .error (.fault (.carriesValue flag []))
    | .attached letters => .error (helpWith next.isSome letters)

end Progress

/-- What is read of tokens; `skip` says that the first of them was read as the
    value of a flag. -/
def consume (progress : Progress) (skip : Bool) : List Token → Except Stop Progress
  | [] => .ok progress
  | token :: rest =>
    if skip then consume progress false rest
    else match token with
      | .word text => do consume (← progress.word text) false rest
      | .separator => consume progress.separator false rest
      | .unknown text => consume (progress.leaving text) false rest
      | .flag flag carried => do
        -- Only a word is a value: a flag, known or not, and a pair of hyphens are not.
        let next := match rest with
          | .word text :: _ => some text
          | _ => none
        let (progress, skip) ← progress.flag flag carried next
        consume progress skip rest

/-- The arguments that a command line gives. -/
def read (arguments : List Text) : Except Stop Arguments := do
  let tokens ← (Token.ofTexts arguments).mapError Stop.fault
  let progress ← consume {} false tokens
  if progress.leftOver = [] then .ok progress.arguments
  else .error (.fault (.leftOver progress.leftOver))

end Arguments

end CommandLine

end EnumCompanion
