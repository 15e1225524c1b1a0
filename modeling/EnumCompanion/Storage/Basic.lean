import EnumCompanion.Storage.Path
import EnumCompanion.Text.Utf8

/-!
# Storage

The files and folders that a program reads and writes. A name at the end of a
path need not be there; those before it are folders. The current folder, those
above it and the root are always there. A name has 255 bytes at most and a path
4095, and neither has a NUL.

A file is emptied before it is written. Where there is no *room* for all that is
to be written, the file holds a beginning of it in the end.

* `Storage.locate`: the place that a path leads to;
* `Storage.holds`: whether there is something;
* `Storage.read`: what a file holds;
* `Storage.write`, `Storage.append`: the storage with other or with more content
  in a file, or what a write that fails leaves.
-/

namespace EnumCompanion

/-- The place of a file or folder: the names on the way to it from the current
    folder, or from the root, whose slashes are then in front. -/
abbrev Location := List Text

/-- Files and folders. -/
structure Storage where
  /-- The folders. -/
  folders : List Location := []
  /-- The files and what they hold. -/
  files : List (Location × Bytes) := []
  /-- The most bytes that the file at a place takes, if there is a bound. -/
  room : Location → Option Nat := fun _ => none

namespace Storage

/-- What keeps a path from being read or written. -/
inductive Fault where
  /-- There is nothing. -/
  | missing
  /-- A name before the last is not that of a folder. -/
  | notFolder
  /-- There is a folder. -/
  | isFolder
  /-- The path or a name of it is too long. -/
  | tooLong
  /-- The path has a NUL. -/
  | hasNul
  /-- There is no room for what is to be written. -/
  | full
  deriving DecidableEq

/-- Whether a fault comes from the system. A NUL is seen before it is asked. -/
def Fault.isSystem : Fault → Bool
  | hasNul => false
  | _ => true

/-- The wording of a fault. -/
def Fault.wording : Fault → String
  | missing => "[Errno 2] No such file or directory"
  | notFolder => "[Errno 20] Not a directory"
  | isFolder => "[Errno 21] Is a directory"
  | tooLong => "[Errno 36] File name too long"
  | hasNul => "embedded null byte"
  | full => "[Errno 28] No space left on device"

/-- Whether a fault is one of a path. A file without room is open already. -/
def Fault.isOfPath : Fault → Bool
  | hasNul | full => false
  | _ => true

/-- A fault with the path that it concerns, if it is one of a path. -/
def Fault.message (fault : Fault) (path : Path) : String :=
  if fault.isOfPath then s!"{fault.wording}: {(Text.quoted path.shown).str}" else fault.wording

/-- What the file at a place holds. -/
def file? (storage : Storage) (location : Location) : Option Bytes :=
  (storage.files.find? fun file => file.1 == location).map Prod.snd

/-- The place that a path starts from. -/
def origin (path : Path) : Location := if path.root = [] then [] else [path.root]

/-- Whether a place is the root. -/
def isRoot (location : Location) : Bool := location = [['/']] || location = [['/', '/']]

/-- Whether there is a folder at a place. -/
def isFolderAt (storage : Storage) (location : Location) : Bool :=
  isRoot location || location.all (· = Path.above) || location ∈ storage.folders

/-- The place of the folder that a folder is in. The root is in itself. -/
def placeAbove (location : Location) : Location :=
  if isRoot location then location
  else if location.all (· = Path.above) then location ++ [Path.above]
  else location.dropLast

/-- The most bytes of a name. -/
def maxNameLength : Nat := 255

/-- The most bytes of a path. -/
def maxPathLength : Nat := 4095

/-- The place that names lead to from another one. -/
def walk (storage : Storage) (here : Location) : List Text → Except Fault Location
  | [] => .ok here
  | part :: rest =>
    -- The place reached so far was seen to be a folder when it was entered.
    if part = Path.above then walk storage (placeAbove here) rest
    else if maxNameLength < (Utf8.encode part).length then .error .tooLong
    else if rest = [] ∨ storage.isFolderAt (here ++ [part]) then walk storage (here ++ [part]) rest
    else .error (if (storage.file? (here ++ [part])).isSome then .notFolder else .missing)

/-- The place that a path leads to. -/
def locate (storage : Storage) (path : Path) : Except Fault Location :=
  if path.shown.contains '\x00' then .error .hasNul
  else if maxPathLength < (Utf8.encode path.shown).length then .error .tooLong
  else storage.walk (origin path) path.parts

/-- Whether a path leads to a file or a folder. Only of a name that is too long
    this is not known. -/
def holds (storage : Storage) (path : Path) : Except Fault Bool :=
  match storage.locate path with
  | .ok location => .ok (storage.isFolderAt location || (storage.file? location).isSome)
  | .error .tooLong => .error .tooLong
  | .error _ => .ok false

/-- What the file at a path holds. -/
def read (storage : Storage) (path : Path) : Except Fault Bytes := do
  let location ← storage.locate path
  if storage.isFolderAt location then .error .isFolder
  else match storage.file? location with
    | some content => .ok content
    | none => .error .missing

/-- The storage with a file at a place. -/
def put (storage : Storage) (location : Location) (content : Bytes) : Storage :=
  { storage with
    files := (location, content) :: storage.files.filter fun file => file.1 ≠ location }

/-- What the file at a place takes of content behind what it holds. -/
def taken (storage : Storage) (location : Location) (held content : Bytes) : Bytes :=
  match storage.room location with
  | none => content
  | some most => content.take (most - held.length)

/-- A write that failed. -/
structure Failure where
  /-- Why it failed. -/
  fault : Fault
  /-- What it left. -/
  storage : Storage

/-- The storage with content in the file at a path, behind what is kept of what it
    held. The file is made if it is not there. -/
def extend (storage : Storage) (path : Path) (kept : Bytes → Bytes) (content : Bytes) :
    Except Failure Storage :=
  match storage.locate path with
  | .error fault => .error ⟨fault, storage⟩
  | .ok location =>
    if storage.isFolderAt location then .error ⟨.isFolder, storage⟩
    else
      let start := kept ((storage.file? location).getD [])
      let taken := storage.taken location start content
      let left := storage.put location (start ++ taken)
      if taken = content then .ok left else .error ⟨.full, left⟩

/-- The storage with other content in the file at a path. -/
def write (storage : Storage) (path : Path) (content : Bytes) : Except Failure Storage :=
  storage.extend path (fun _ => []) content

/-- The storage with more content at the end of the file at a path. -/
def append (storage : Storage) (path : Path) (content : Bytes) : Except Failure Storage :=
  storage.extend path id content

end Storage

end EnumCompanion
