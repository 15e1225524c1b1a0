import EnumCompanion.Journal
import EnumCompanion.Source.Address
import EnumCompanion.Storage.Basic
import EnumCompanion.Text.LineEnds

/-!
# Loading sources

Source text comes from a file, from a web address or from the standard input,
and from exactly one of them. It is UTF-8; line ends of files and of the
standard input become line feeds, those of a download stay.

* `Source.ofFile`, `Source.ofUrl`, `Source.ofInput`: source text from each of
  the three;
* `Source.announce`, `Source.findFile`, `Source.fetchFile`: the steps in which
  a file is read, with a record made between them;
* `Source.load`: source text from what was chosen.
-/

namespace EnumCompanion

open Journal Text

namespace Source

/-- Why a request for a web address was not answered. -/
inductive Outage where
  /-- It took too long. -/
  | timeout
  /-- There was no connection. -/
  | connection
  /-- Another reason. -/
  | other (reason : String)

/-- What comes of a request for a web address. -/
inductive Reply where
  /-- An answer with its status, which may be one of those that are refused. -/
  | answered (status : Int) (refused : Bool) (body : Bytes)
  /-- No answer. -/
  | failed (outage : Outage)

end Source

/-- What a program finds around it. -/
structure Surroundings where
  /-- Files and folders. -/
  storage : Storage
  /-- The standard input. -/
  input : Bytes
  /-- What comes of a request for a web address. -/
  reply : Source.Reply
  /-- The times at which records are made, one behind the other. -/
  clock : Nat → Text := fun _ => []
  /-- What is told of the calls that led to a record. -/
  trace : Text := []

/-- Source text. -/
structure Source where
  /-- What it is called. -/
  description : Text
  /-- The text. -/
  text : Text

namespace Source

/-- Why a download failed. -/
inductive Failure where
  /-- There was no answer. -/
  | outage (outage : Outage)
  /-- The status of the answer is refused. -/
  | badStatus (status : Int)

/-- The wording of a failure. -/
def Failure.message (url : Text) : Failure → String
  | outage .timeout => s!"Request timeout for URL: {url.str}"
  | outage .connection => s!"Connection error for URL: {url.str}"
  | outage (.other reason) => s!"Request error for URL {url.str}: {reason}"
  | badStatus status => s!"HTTP error {status} for URL: {url.str}"

/-- What keeps a source from being loaded. -/
inductive Fault where
  /-- No source is chosen. -/
  | noneChosen
  /-- Several sources are chosen. -/
  | severalChosen (kinds : List String)
  /-- There is no file. -/
  | noFile (path : Path)
  /-- The file is not UTF-8. -/
  | fileNotUtf8 (path : Path) (fault : Utf8.Fault)
  /-- The file cannot be read. -/
  | unreadable (path : Path) (fault : Storage.Fault)
  /-- The address names no source. -/
  | incompleteUrl (url : Text)
  /-- The download failed. -/
  | download (url : Text) (failure : Failure)
  /-- The download is not UTF-8. -/
  | bodyNotUtf8 (url : Text) (fault : Utf8.Fault)
  /-- The address is malformed. -/
  | malformedUrl (fault : Address.Fault)
  /-- The standard input is not UTF-8. -/
  | inputNotUtf8 (fault : Utf8.Fault)
  /-- The name of the file cannot be that of a file. -/
  | badName (path : Path) (fault : Storage.Fault)

/-- Whether a fault is one of those that loading declares. -/
def Fault.isDeclared : Fault → Bool
  | malformedUrl _ | inputNotUtf8 _ | badName _ _ => false
  | _ => true

/-- The wording of a fault. -/
def Fault.message : Fault → String
  | noneChosen => "No input source given (file, URL or stdin)"
  | severalChosen kinds => s!"Only one input source allowed, got: " ++ ", ".intercalate kinds
  | noFile path => s!"File not found: {path.shown.str}"
  | fileNotUtf8 path fault => s!"File {path.shown.str} is not valid UTF-8: {fault.message}"
  | unreadable path fault => s!"Error reading file {path.shown.str}: {fault.message path}"
  | incompleteUrl url => s!"Invalid URL: {url.str}"
  | download url failure => failure.message url
  | bodyNotUtf8 url _ => s!"Response from {url.str} is not valid UTF-8"
  | malformedUrl fault => fault.message
  | inputNotUtf8 fault => fault.message
  | badName path fault => fault.message path

/-- A record on loading. -/
def record (level : Level) (message : String) : Record where
  level
  source := .source
  message

/-- The record on text that was loaded. -/
def loadedRecord (text : Text) (name : String) : Record :=
  record .info s!"Loaded {text.length} characters from {name}"

/-- Whether a fault is told with the calls that led to it. -/
def Fault.isTraced : Fault → Bool
  | unreadable _ _ => true
  | _ => false

/-- A fault with the record of an error. -/
def failWith {α : Type} (fault : Fault) (message : String) : ExceptT Fault Logged α := do
  Logged.report [{ record .error message with traced := fault.isTraced }]
  throw fault

/-! ### Files -/

/-- The suffix of source files. -/
def fileSuffix : Text := ['.', 'd', 'a', 'r', 't']

/-- The text of a file. -/
def readFile (storage : Storage) (path : Path) : Except Fault Text := do
  let content ← (storage.read path).mapError (Fault.unreadable path)
  let text ← (Utf8.decode content).mapError (Fault.fileNotUtf8 path)
  return text.withLineFeeds

/-- The records made before a file is read. -/
def fileRecords (path : Path) : List Record :=
  if path.hasSuffix fileSuffix then []
  else [record .warning s!"File does not have .dart extension: {path.shown.str}"]

/-- What is said before a file is looked for. -/
def announce (path : Path) : Logged Unit :=
  Logged.report [record .debug s!"Loading Dart source from file {path.shown.str}"]

/-- Whether a file is there. -/
def findFile (storage : Storage) (path : Path) : ExceptT Fault Logged Unit :=
  match storage.holds path with
  | .error fault => throw (.badName path fault)
  | .ok false => failWith (.noFile path) (Fault.noFile path).message
  | .ok true => Logged.report (fileRecords path)

/-- Source text from a file that is there. -/
def fetchFile (storage : Storage) (path : Path) : ExceptT Fault Logged Source :=
  match readFile storage path with
  | .error fault => failWith fault fault.message
  | .ok text => do
    Logged.report [loadedRecord text path.shown.str]
    return ⟨"📄 ".toList ++ path.shown, text⟩

/-- Source text from a file. -/
def ofFile (storage : Storage) (file : Text) : ExceptT Fault Logged Source := do
  let path := Path.ofText file
  announce path
  findFile storage path
  fetchFile storage path

/-! ### Downloads -/

/-- The body of an answer that is not refused. -/
def Reply.body : Reply → Except Failure Bytes
  | answered status refused body => if refused then .error (.badStatus status) else .ok body
  | failed outage => .error (.outage outage)

/-- Source text from a web address. -/
def ofUrl (reply : Reply) (url : Text) : ExceptT Fault Logged Source := do
  let address ← ((Address.read url).mapError Fault.malformedUrl : Except Fault Address)
  if !address.isComplete then failWith (.incompleteUrl url) s!"Invalid URL format: {url.str}"
  else do
    Logged.report [record .debug s!"Fetching Dart source from {url.str} (timeout 30s)"]
    match reply.body with
    | .error failure => failWith (.download url failure) (failure.message url)
    | .ok body =>
      match Utf8.decode body with
      | .error fault =>
        failWith (.bodyNotUtf8 url fault)
          s!"Response from {url.str} is not valid UTF-8: {fault.message}"
      | .ok text =>
        Logged.report [loadedRecord text url.str]
        return ⟨"🌐 ".toList ++ url, text⟩

/-! ### The standard input -/

/-- Source text from the standard input. -/
def ofInput (input : Bytes) : ExceptT Fault Logged Source := do
  let text ← ((Utf8.decode input).mapError Fault.inputNotUtf8 : Except Fault Text)
  Logged.report [loadedRecord text.withLineFeeds "standard input"]
  return ⟨"⌨️ stdin".toList, text.withLineFeeds⟩

/-! ### Choice -/

/-- What a user chooses as source. An empty name or address is no choice. -/
structure Choice where
  /-- The name of a file. -/
  file : Text := []
  /-- A web address. -/
  url : Text := []
  /-- The standard input. -/
  input : Bool := false

/-- The kinds of source that are chosen. -/
def Choice.kinds (choice : Choice) : List String :=
  (if choice.file = [] then [] else ["file"]) ++ (if choice.url = [] then [] else ["url"]) ++
    (if choice.input then ["stdin"] else [])

/-- Where a source is from. -/
inductive Origin where
  /-- A file. -/
  | file (name : Text)
  /-- A web address. -/
  | address (url : Text)
  /-- The standard input. -/
  | input

/-- Where the one source that is chosen is from. -/
def Choice.origin (choice : Choice) : Except Fault Origin :=
  if choice.kinds = [] then .error .noneChosen
  else if 1 < choice.kinds.length then .error (.severalChosen choice.kinds)
  else if choice.file ≠ [] then .ok (.file choice.file)
  else if choice.url ≠ [] then .ok (.address choice.url)
  else .ok .input

/-- Source text from the one source that is chosen. -/
def load (around : Surroundings) (choice : Choice) : ExceptT Fault Logged Source := do
  match ← (choice.origin : Except Fault Origin) with
  | .file name => ofFile around.storage name
  | .address url => ofUrl around.reply url
  | .input => ofInput around.input

end Source

end EnumCompanion
