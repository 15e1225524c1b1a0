import EnumCompanion.Text.LowerCase

/-!
# Paths

A *path* is a list of names, from the current folder or from the root. Repeated
and final slashes and the name `.` do not count; the name `..` does.

* `Path.ofText`: the path that a text writes;
* `Path.resolved`: a path without names that the next one leaves again;
* `Path.shown`: a path as messages show it;
* `Path.hasSuffix`: whether the last name has a suffix, in any case.
-/

namespace EnumCompanion

/-- A path. -/
structure Path where
  /-- The slashes it starts with: none from the current folder, one from the
      root, or two. -/
  root : Text
  /-- The names. -/
  parts : List Text
  deriving DecidableEq

namespace Path

/-- The names in a text with slashes between them. -/
def partsOf (text : Text) : List Text :=
  (text.splitOn '/').filter fun part => part ≠ [] ∧ part ≠ ['.']

/-- The root of a path: three and more slashes are one. -/
def rootOf (text : Text) : Text :=
  let slashes := text.takeWhile (· == '/')
  if slashes.length ≤ 2 then slashes else ['/']

/-- The path that a text writes. -/
def ofText (text : Text) : Path := ⟨rootOf text, partsOf text⟩

/-- The name of the folder that a folder is in. -/
def above : Text := ['.', '.']

/-- Names, the last of them in front, with one more: the name of the folder above
    takes a name away. From the current folder it stays where none is left. -/
def resolvePart (root : Text) (parts : List Text) (part : Text) : List Text :=
  if part ≠ above then part :: parts
  else match parts with
    | [] => if root = [] then [above] else []
    | last :: rest => if last = above then above :: parts else rest

/-- A path without names that the next one leaves again, whether they are there
    or not. -/
def resolved (path : Path) : Path :=
  { path with parts := (path.parts.foldl (resolvePart path.root) []).reverse }

/-- A path as messages show it. -/
def shown (path : Path) : Text :=
  if path.root = [] ∧ path.parts = [] then ['.'] else path.root ++ ['/'].intercalate path.parts

/-- What of a name follows its last dot, with the dot, unless that is the first
    or the last character. -/
def suffixOf (name : Text) : Text :=
  let ending := (name.reverse.takeWhile (· != '.')).reverse
  if ending = [] ∨ name.length ≤ ending.length + 1 then [] else '.' :: ending

/-- The suffix of the last name. -/
def suffix (path : Path) : Text := suffixOf (path.parts.getLast?.getD [])

/-- Whether a path has a suffix, in any case. -/
def hasSuffix (path : Path) (suffix : Text) : Bool := Text.lower path.suffix == suffix

end Path

end EnumCompanion
