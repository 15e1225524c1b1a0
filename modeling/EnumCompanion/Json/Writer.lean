import EnumCompanion.Json.Basic

/-!
# Writing JSON

A value is written on one line, or with each element on a line of its own,
indented by two spaces for each level around it. Only quotes, backslashes and
control characters are escaped. Each part is written in front of what stands
behind it, so that no text is copied.

* `Json.writeAt`: a value and what stands behind it;
* `Json.compact`: a value on one line;
* `Json.indented`: a value over lines.
-/

namespace EnumCompanion.Json

/-- One character within a string. -/
def escapedChar (c : Char) : Text :=
  match c with
  | '"' => ['\\', '"']
  | '\\' => ['\\', '\\']
  | '\n' => ['\\', 'n']
  | '\r' => ['\\', 'r']
  | '\t' => ['\\', 't']
  | '\x0c' => ['\\', 'f']
  | '\x08' => ['\\', 'b']
  | c => if c.toNat < 32 then '\\' :: 'u' :: Text.hexDigits 4 c.toNat else [c]

/-- A string with its quotes. -/
def stringText (s : String) : Text := '"' :: s.toList.flatMap escapedChar ++ ['"']

/-- The text of a value that holds no others. -/
def scalarText : Json → Text
  | null => "null".toList
  | bool value => (if value then "true" else "false").toList
  | int value => intText value
  | float value => value.write "Infinity".toList "NaN".toList
  | string value => stringText value
  | array _ => "[]".toList
  | object _ => "\x7b\x7d".toList

/-- A line feed and the indentation of a level, or nothing if all is on one
    line. -/
def lineBreak (indentation : Option Nat) : Text :=
  match indentation with
  | none => []
  | some level => '\n' :: List.replicate (2 * level) ' '

/-- What stands between two elements at a level of indentation. -/
def separator (indentation : Option Nat) : Text :=
  match indentation with
  | none => [',', ' ']
  | some level => ',' :: lineBreak (some level)

/-- The level of indentation of what a value holds. -/
def inner (indentation : Option Nat) : Option Nat := indentation.map (· + 1)

mutual

/-- A value at a level of indentation, or on one line, and what stands behind
    it. -/
def writeAt (indentation : Option Nat) (value : Json) (behind : Text) : Text :=
  match value with
  | array [] => scalarText (array []) ++ behind
  | object [] => scalarText (object []) ++ behind
  | array values =>
    '[' :: writeValues (inner indentation) (lineBreak (inner indentation)) values
      (lineBreak indentation ++ ']' :: behind)
  | object fields =>
    '{' :: writeFields (inner indentation) (lineBreak (inner indentation)) fields
      (lineBreak indentation ++ '}' :: behind)
  | value => scalarText value ++ behind

/-- The values of a list, the first of them behind `before`, and what stands
    behind them. -/
def writeValues (indentation : Option Nat) (before : Text) (values : List Json)
    (behind : Text) : Text :=
  match values with
  | [] => behind
  | value :: rest =>
    before ++ writeAt indentation value
      (writeValues indentation (separator indentation) rest behind)

/-- The fields of an object, the first of them behind `before`, and what stands
    behind them. -/
def writeFields (indentation : Option Nat) (before : Text) (fields : List (String × Json))
    (behind : Text) : Text :=
  match fields with
  | [] => behind
  | (name, value) :: rest =>
    before ++ (stringText name ++ ':' :: ' ' ::
      writeAt indentation value (writeFields indentation (separator indentation) rest behind))

end

/-- A value on one line. -/
def compact (value : Json) : Text := writeAt none value []

/-- A value with each element on a line of its own. -/
def indented (value : Json) : Text := writeAt (some 0) value []

end EnumCompanion.Json
