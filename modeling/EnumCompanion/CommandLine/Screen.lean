import EnumCompanion.Text.Basic

/-!
# The screen

What a program shows, one *item* after another: lines, tables, panels and code.
In lines, cells and panels a word in brackets marks a style, up to the same word
with a slash.

* `Item`: what is shown;
* `Item.plain`: an item as text without styles.
-/

namespace EnumCompanion

namespace CommandLine

/-- What is shown. -/
inductive Item where
  /-- A line of text. -/
  | line (text : String)
  /-- Text as it is, without a line feed behind it. -/
  | raw (text : Text)
  /-- A table. -/
  | table (title : String) (columns : List String) (rows : List (List String))
  /-- Text in a frame. -/
  | panel (title text : String)
  /-- Code. -/
  | code (text : Text)
  deriving DecidableEq

namespace Item

/-! ### Without styles -/

/-- The marks of styles. -/
def marks : List Text :=
  (["bold", "cyan", "dim", "green", "red", "yellow"].flatMap fun style =>
    ["[" ++ style ++ "]", "[/" ++ style ++ "]"]).map String.toList

/-- A text without marks of styles, less so many characters of it. -/
def withoutMarks (skip : Nat) : Text → Text
  | [] => []
  | c :: rest =>
    match skip, marks.find? fun mark => mark.isPrefixOf (c :: rest) with
    | skip + 1, _ => withoutMarks skip rest
    | 0, some mark => withoutMarks (mark.length - 1) rest
    | 0, none => c :: withoutMarks 0 rest

/-- A string without marks of styles. -/
def unmarked (text : String) : String := (withoutMarks 0 text.toList).str

/-- The cells of a row with bars between them. -/
def rowLine (cells : List String) : String := " | ".intercalate (cells.map unmarked)

/-- An item as text without styles. -/
def plain : Item → String
  | line text => unmarked text ++ "\n"
  | raw text => text.str
  | table title columns rows =>
    "".intercalate ((title :: rowLine columns :: rows.map rowLine).map (· ++ "\n"))
  | panel title text => title ++ "\n" ++ unmarked text ++ "\n"
  | code text => text.str

end Item

end CommandLine

end EnumCompanion
