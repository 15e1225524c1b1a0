import EnumCompanion.Text.Basic

/-!
# String literals

The Dart string literal of a text: single quotes around it, and a backslash
before every quote, dollar sign and backslash in it.
-/

namespace EnumCompanion.Text

/-- The characters that a backslash precedes in a literal. -/
def isLiteralSpecial (c : Char) : Bool := c ∈ ['\\', '\'', '$']

/-- The text between the quotes of a literal. -/
def literalBody : Text → Text
  | [] => []
  | c :: rest => if isLiteralSpecial c then '\\' :: c :: literalBody rest else c :: literalBody rest

/-- The string literal of a text. -/
def literal (text : Text) : Text := '\'' :: literalBody text ++ ['\'']

end EnumCompanion.Text
