import EnumCompanion.Journal
import EnumCompanion.Settings.Basic
import EnumCompanion.Text.LineEnds

/-!
# Files of settings

Settings are read from a file of JSON and written to one.

* `Settings.load`: the settings from a file, if one is named, and overrides;
* `Settings.save`: storage with settings in a file.
-/

namespace EnumCompanion

open Journal

namespace Settings

/-- The suffix of the files. -/
def fileSuffix : Text := ['.', 'j', 's', 'o', 'n']

/-- The value that a file writes. -/
def readJson (path : Path) (content : Bytes) : Except Fault Json := do
  let text ← (Utf8.decode content).mapError Fault.notUtf8
  (Json.read text.withLineFeeds).mapError fun refusal =>
    if refusal.flaw.isLimit then .beyondLimit refusal.flaw else .notJson path refusal

/-- The fields in a file. -/
def readFile (storage : Storage) (path : Path) : Except Fault (List (String × Json)) :=
  match storage.holds path with
  | .error fault => .error (.badName path fault)
  | .ok false => .error (.notFound path)
  | .ok true =>
    if !path.hasSuffix fileSuffix then .error (.otherSuffix path)
    else do
      let content ← (storage.read path).mapError (Fault.unreadable path)
      match ← readJson path content with
      | .object fields => .ok fields
      | _ => .error (.notObject path)

/-- The record on a file that was read. -/
def fileRecord (path : Path) : Record where
  level := .debug
  source := .settings
  message := s!"Loaded configuration from {path.shown.str}"

/-- The fields of a file, with a record; none where the name of the file is
    empty. -/
def loadFile (storage : Storage) (file : Text) : ExceptT Fault Logged (List (String × Json)) :=
  if file = [] then pure []
  else do
    let fields ← (readFile storage (.ofText file) : Except Fault _)
    Logged.report [fileRecord (.ofText file)]
    return fields

/-- The settings from a file, if one is named, and overrides. -/
def load (storage : Storage) (file : Text) (overrides : List (String × Json)) :
    ExceptT Fault Logged Settings := do
  (ofLayers (← loadFile storage file) overrides : Except Fault Settings)

/-- The fault of a file that cannot be written. -/
def writeFault (path : Path) (failure : Storage.Failure) : Fault :=
  if failure.fault.isSystem then .unwritable path failure.fault else .badName path failure.fault

/-- Storage with settings in a file. -/
def save (storage : Storage) (file : Text) (settings : Settings) : Except Fault Storage := do
  let path := Path.ofText file
  -- A file that cannot be opened is found out first, whatever the settings hold.
  let cleared ← (storage.write path []).mapError (writeFault path)
  let entries ← settings.toEntries
  let text := (Json.object entries.fields).indented
  (cleared.write path (Utf8.encode text)).mapError (writeFault path)

end Settings

end EnumCompanion
