import EnumCompanion.Text.Basic
import EnumCompanion.Text.Ranges

/-!
# Blanks

A *blank* is a character of white space in any script: the ASCII controls from
tab to carriage return and from file to unit separator, the space, the next
line, and the spaces and separators beyond ASCII.

* `strip`: a text without the blanks at both of its ends.
-/

namespace EnumCompanion.Text

/-- The ranges of blanks. -/
def blankRanges : List (Nat × Nat) :=
   [(9, 13), (28, 32), (133, 133), (160, 160), (5760, 5760), (8192, 8202), (8232, 8233),
    (8239, 8239), (8287, 8287), (12288, 12288)]

/-- White space of any script. -/
def isBlank (c : Char) : Bool := inRanges blankRanges c

/-- Whether a text holds blanks only. -/
def isBlankText (text : Text) : Bool := text.all isBlank

/-- A text without the blanks at its ends. -/
def strip (text : Text) : Text := ((text.dropWhile isBlank).reverse.dropWhile isBlank).reverse

end EnumCompanion.Text
