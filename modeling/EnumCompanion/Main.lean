import EnumCompanion.CommandLine.Run

/-!
# The program

A run on the files of the machine. The files and folders that the arguments name
are read before, and the files that the run changed are written behind it.
Records go to the standard error, and into a file without the time. There is no
network: a web address is not answered.
-/

namespace EnumCompanion.Machine

open CommandLine

/-! ### Files and folders -/

/-- The files that arguments name. -/
def namedFiles (arguments : Arguments) : List Text :=
  [arguments.file.getD [], arguments.config, arguments.output, arguments.logFile].filter (· ≠ [])

/-- A path and those of the folders on the way to it, the longest behind. -/
def pathsTo (path : Path) : List Path :=
  (List.range (path.parts.length + 1)).map fun count => { path with parts := path.parts.take count }

/-- Storage with what is found at a path. What is there and cannot be read as a
    file is a folder. -/
def withFound (storage : Storage) (path : Path) : IO Storage := do
  match storage.locate path with
  | .error _ => return storage
  | .ok location =>
    if storage.isFolderAt location || (storage.file? location).isSome then return storage
    match ← (IO.FS.readBinFile path.shown.str).toBaseIO with
    | .ok content =>
      return { storage with files := (location, content.data.toList) :: storage.files }
    | .error (.inappropriateType ..) =>
      return { storage with folders := location :: storage.folders }
    | .error _ => return storage

/-- What is found at the paths that arguments name. -/
def findStorage (arguments : Arguments) : IO Storage :=
  ((namedFiles arguments).flatMap fun file => pathsTo (.ofText file)).foldlM withFound {}

/-- The name of the file at a place. -/
def nameOf (location : Location) : String :=
  if Storage.isRoot (location.take 1) then
    Text.str (location.head?.getD [] ++ ['/'].intercalate location.tail)
  else Text.str (['/'].intercalate location)

/-- Files that differ from those before are written. -/
def writeChanged (before after : Storage) : IO Unit :=
  for (location, content) in after.files do
    if before.file? location ≠ some content then
      IO.FS.writeBinFile (nameOf location) ⟨content.toArray⟩

/-! ### Streams -/

/-- The rest of a stream. -/
partial def readRest (stream : IO.FS.Stream) (start : ByteArray) : IO ByteArray := do
  let more ← stream.read 65536
  if more.isEmpty then return start else readRest stream (start ++ more)

/-- The standard input, where arguments ask for it. -/
def findInput (arguments : Arguments) : IO Bytes := do
  if arguments.stdin then return (← readRest (← IO.getStdin) .empty).data.toList else return []

/-! ### Ends -/

/-- How the program is called. -/
def usage : String :=
  "usage: dart-enum-explorer [file] " ++
    " ".intercalate (Flag.spellings.map fun (spelling, _) => "[" ++ spelling.str ++ "]")

/-- What is said of an ending. -/
def tellEnding : Ending → IO Unit
  | .exit _ => return
  | .stop .help => IO.println usage
  | .stop (.fault fault) => IO.eprintln ("dart-enum-explorer: error: " ++ fault.message)
  | .fault fault => IO.eprintln fault.message

end EnumCompanion.Machine

open EnumCompanion CommandLine Machine

/-- The program. -/
def main (words : List String) : IO UInt32 := do
  let texts := words.map String.toList
  let arguments := ((Arguments.read texts).toOption).getD {}
  let storage ← findStorage arguments
  let input ← findInput arguments
  let outcome := run { storage, input, reply := .failed .connection } texts
  writeChanged storage outcome.storage
  for record in outcome.records do IO.eprintln record.line
  for item in outcome.shown do IO.print item.plain
  tellEnding outcome.ending
  return outcome.ending.code.toUInt32
