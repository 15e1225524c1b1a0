import EnumCompanion.Text.Blank
import EnumCompanion.Text.Digit

/-!
# Integers in arguments

An integer is written in decimal digits of any script, with a sign or without,
and with blanks around it. A single underscore may stand between two digits.

* `readInteger?`: the integer that a text writes;
* `isShowable`: whether an integer can be written again.
-/

namespace EnumCompanion

open Text

/-- The blanks that may stand around an integer: all but the separators among
    the ASCII controls. -/
def isIntegerBlank (c : Char) : Bool := isBlank c && !(28 ≤ c.toNat && c.toNat ≤ 31)

/-- The most digits of an integer that is read or written. -/
def maxIntegerDigits : Nat := 4300

/-- The number that digits write, where each group between underscores has
    one. -/
def readDigits? (text : Text) : Option Nat := do
  let groups := text.splitOn '_'
  let digits ← groups.flatten.mapM digitValue?
  if groups.any List.isEmpty ∨ maxIntegerDigits < digits.length then none
  else some (digits.foldl (fun value digit => value * 10 + digit) 0)

/-- The integer that a text writes. -/
def readInteger? (text : Text) : Option Int :=
  match ((text.dropWhile isIntegerBlank).reverse.dropWhile isIntegerBlank).reverse with
  | '-' :: digits => (readDigits? digits).map fun value => -(value : Int)
  | '+' :: digits => (readDigits? digits).map Int.ofNat
  | digits => (readDigits? digits).map Int.ofNat

/-- Whether an integer has few enough digits to be written. -/
def isShowable (value : Int) : Bool := (Nat.toDigits 10 value.natAbs).length ≤ maxIntegerDigits

end EnumCompanion
