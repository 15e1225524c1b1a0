import EnumCompanion.Text.Basic
import EnumCompanion.Text.Printable

/-!
# Quoted text

The form in which a message shows a text: between single quotes, or between
double quotes when the text holds a single quote and no double one. Tabs, line
ends and backslashes are escaped by a letter, a quote like the outer ones by a
backslash, and other characters that are not printable by their code point in
two, four or eight hexadecimal digits.

* `quoted`: the quoted form;
* `hexDigits`: a number in a given count of hexadecimal digits.
-/

namespace EnumCompanion.Text

/-- The last `count` hexadecimal digits of a number, in small letters. -/
def hexDigits : Nat → Nat → Text
  | 0, _ => []
  | count + 1, n => hexDigits count (n / 16) ++ [Nat.digitChar (n % 16)]

/-- The quote that encloses a text. -/
def enclosingQuote (text : Text) : Char :=
  if '\'' ∈ text ∧ '"' ∉ text then '"' else '\''

/-- The escape of a character by its code point. -/
def escapedPoint (c : Char) : Text :=
  if c.toNat < 256 then '\\' :: 'x' :: hexDigits 2 c.toNat
  else if c.toNat < 65536 then '\\' :: 'u' :: hexDigits 4 c.toNat
  else '\\' :: 'U' :: hexDigits 8 c.toNat

/-- One character between the quotes `quote`. -/
def quotedChar (quote c : Char) : Text :=
  if c = quote ∨ c = '\\' then ['\\', c]
  else if c = '\n' then ['\\', 'n']
  else if c = '\r' then ['\\', 'r']
  else if c = '\t' then ['\\', 't']
  else if isPrintable c then [c]
  else escapedPoint c

/-- A text as a message shows it. -/
def quoted (text : Text) : Text :=
  let quote := enclosingQuote text
  quote :: text.flatMap (quotedChar quote) ++ [quote]

end EnumCompanion.Text
