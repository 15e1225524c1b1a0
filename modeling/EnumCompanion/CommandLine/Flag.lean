import EnumCompanion.Text.Digit
import EnumCompanion.Text.Quoted

/-!
# Flags

An argument that starts with a hyphen is a *flag*, unless it is only a hyphen,
writes a negative number or has a space in it. A long flag may be cut short as
long as no other one starts alike, and may carry a value behind an equals sign;
a short one may carry a value directly or behind an equals sign. All that follows
a pair of hyphens are words.

* `Flag.spellings`: the spellings of the flags;
* `Token.ofText`: what an argument is;
* `Token.ofTexts`: what the arguments of a command line are.
-/

namespace EnumCompanion

namespace CommandLine

/-- The flags. -/
inductive Flag where
  /-- Show how the command is used. -/
  | help
  /-- Read a web address. -/
  | url
  /-- Read the standard input. -/
  | stdin
  /-- Choose an enum by its name. -/
  | enum
  /-- Choose an enum by its line. -/
  | line
  /-- Show the enums. -/
  | listEnums
  /-- Choose an operation. -/
  | generate
  /-- Choose all operations. -/
  | all
  /-- Put the code into the document. -/
  | write
  /-- Choose where to write. -/
  | output
  /-- Choose a file of settings. -/
  | config
  /-- Choose the suffix of the bundling extension. -/
  | extensionSuffix
  /-- Let enums repeat values. -/
  | allowDuplicates
  /-- Show the operations. -/
  | listOperations
  /-- Show what is known about the code. -/
  | verbose
  /-- Choose the level of records. -/
  | logLevel
  /-- Choose a file for records. -/
  | logFile
  deriving DecidableEq

namespace Flag

/-- The spellings of the flags, in the order in which they are shown. -/
def spellings : List (Text × Flag) :=
  [("-h", help), ("--help", help), ("--url", url), ("--stdin", stdin), ("--enum", enum),
    ("--line", line), ("--list-enums", listEnums), ("--generate", generate), ("-g", generate),
    ("--all", all), ("--write", write), ("--output", output), ("-o", output),
    ("--config", config), ("--extension-suffix", extensionSuffix),
    ("--allow-duplicates", allowDuplicates), ("--list-operations", listOperations),
    ("--verbose", verbose), ("--log-level", logLevel), ("--log-file", logFile)].map
    fun (spelling, flag) => (spelling.toList, flag)

/-- Whether a value follows the flag. -/
def takesValue : Flag → Bool
  | url | enum | line | generate | output | config | extensionSuffix | logLevel | logFile => true
  | help | stdin | listEnums | all | write | allowDuplicates | listOperations | verbose => false

/-- All spellings of a flag, as messages show it. -/
def shown (flag : Flag) : String :=
  "/".intercalate ((spellings.filter fun entry => entry.2 = flag).map fun entry => entry.1.str)

/-- The flag of a spelling. -/
def ofSpelling? (spelling : Text) : Option Flag :=
  (spellings.find? fun entry => entry.1 == spelling).map Prod.snd

end Flag

/-- What is named in a conflict: the word for a file or a flag. -/
inductive Input where
  /-- The name of a file. -/
  | file
  /-- A flag. -/
  | flag (flag : Flag)
  deriving DecidableEq

/-- An input as messages show it. -/
def Input.shown : Input → String
  | file => "file"
  | flag name => name.shown

/-- What is wrong with a command line. -/
inductive UsageFault where
  /-- Several flags start like the argument. -/
  | ambiguous (argument : Text) (candidates : List Text)
  /-- A flag lacks its value. -/
  | lacksValue (flag : Flag)
  /-- A flag carries a value and takes none. -/
  | carriesValue (flag : Flag) (value : Text)
  /-- An input excludes another one. -/
  | excludes (input other : Input)
  /-- A value is no integer. -/
  | notInteger (flag : Flag) (value : Text)
  /-- A value is none of those that may be chosen. -/
  | notChoice (flag : Flag) (value : Text) (choices : List Text)
  /-- Arguments are left over. -/
  | leftOver (arguments : List Text)
  deriving DecidableEq

/-- A fault of a flag as messages show it. -/
def UsageFault.about (input : Input) (message : String) : String :=
  s!"argument {input.shown}: {message}"

/-- The wording of a fault. -/
def UsageFault.message : UsageFault → String
  | ambiguous argument candidates =>
    s!"ambiguous option: {argument.str} could match {Text.listing candidates}"
  | lacksValue flag => about (.flag flag) "expected one argument"
  | carriesValue flag value =>
    about (.flag flag) s!"ignored explicit argument {value.quoted.str}"
  | excludes input other => about input s!"not allowed with argument {other.shown}"
  | notInteger flag value => about (.flag flag) s!"invalid int value: {value.quoted.str}"
  | notChoice flag value choices =>
    about (.flag flag)
      s!"invalid choice: {value.quoted.str} (choose from {Text.listing (choices.map Text.quoted)})"
  | leftOver arguments =>
    "unrecognized arguments: " ++ " ".intercalate (arguments.map Text.str)

/-- The value that a flag carries. -/
inductive Carried where
  /-- None. -/
  | nothing
  /-- The value of a long flag, behind an equals sign. -/
  | assigned (value : Text)
  /-- What follows a short flag, directly or behind an equals sign. -/
  | attached (value : Text)
  deriving DecidableEq

/-- What an argument is. -/
inductive Token where
  /-- A word. -/
  | word (text : Text)
  /-- The pair of hyphens. -/
  | separator
  /-- A flag and the value that it carries. -/
  | flag (flag : Flag) (carried : Carried)
  /-- A flag that does not exist. -/
  | unknown (text : Text)
  deriving DecidableEq

namespace Token

/-- An argument split at its first equals sign, if it has one. -/
def splitAssignment (text : Text) : Text × Option Text :=
  let name := text.takeWhile (· != '=')
  match text.drop name.length with
  | _ :: value => (name, some value)
  | [] => (name, none)

/-- Whether an argument starts with a pair of hyphens. -/
def isLong (text : Text) : Bool := ['-', '-'].isPrefixOf text

/-- The value that stands behind the spelling of a flag and an equals sign, if
    there is one. -/
def carriedBy (spelling : Text) : Option Text → Carried
  | some value => if isLong spelling then .assigned value else .attached value
  | none => .nothing

/-- The flags that an argument may stand for, with their spellings. -/
def candidates (text : Text) : List (Text × Token) :=
  if isLong text then
    let (start, value) := splitAssignment text
    (Flag.spellings.filter fun entry => start.isPrefixOf entry.1).map fun (spelling, name) =>
      (spelling, flag name (carriedBy spelling value))
  else
    (Flag.spellings.filter fun entry => entry.1 == text.take 2).map fun (spelling, name) =>
      (spelling, flag name (.attached (text.drop 2)))

/-- Whether digits are all that a text has, and it has one. -/
def areDigits (text : Text) : Bool :=
  !text.isEmpty && text.all fun c => (Text.digitValue? c).isSome

/-- Whether an argument writes a negative number: digits behind the hyphen, or
    a dot and digits with or without digits before. -/
def isNegativeNumber (text : Text) : Bool :=
  let number : Text := text.drop 1
  let number := if number.getLast? = some '\n' then number.dropLast else number
  let front := number.takeWhile (· != '.')
  areDigits number ||
    ((front.isEmpty || areDigits front) && areDigits (number.drop (front.length + 1)))

/-- The flag that an argument is, spelled in full, where it is one. -/
def inFull? (text : Text) : Option Token :=
  let (spelling, value) := splitAssignment text
  match Flag.ofSpelling? text, Flag.ofSpelling? spelling with
  | some found, _ => some (flag found .nothing)
  | none, some found => some (flag found (carriedBy spelling value))
  | none, none => none

/-- What an argument that starts with a hyphen and is no flag spelled in full
    is. -/
def inexact (text : Text) : Except UsageFault Token :=
  match candidates text with
  | [(_, token)] => .ok token
  | [] => .ok (if isNegativeNumber text || ' ' ∈ text then word text else unknown text)
  | several => .error (.ambiguous text (several.map Prod.fst))

/-- What an argument is that is no pair of hyphens. -/
def ofText (text : Text) : Except UsageFault Token :=
  if text.head? = some '-' ∧ text ≠ ['-'] then
    match inFull? text with
    | some token => .ok token
    | none => inexact text
  else .ok (word text)

/-- What the arguments of a command line are. -/
def ofTexts : List Text → Except UsageFault (List Token)
  | [] => .ok []
  | text :: rest =>
    if text = ['-', '-'] then .ok (separator :: rest.map word)
    else do
      let token ← ofText text
      return token :: (← ofTexts rest)

end Token

end CommandLine

end EnumCompanion
