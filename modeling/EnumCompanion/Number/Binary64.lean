/-!
# Binary floating-point numbers

A number of the 64-bit binary format is a sign, a mantissa below `2 ^ 53` and an
exponent of two. A decimal is read as the nearest such number, an exact half
going to the even mantissa, and as an infinity if it lies beyond all of them.

* `roundDiv`: the quotient of two natural numbers, rounded;
* `Binary64.ofDecimal`: the number nearest to a decimal.
-/

namespace EnumCompanion

/-- A number of the 64-bit binary format. -/
inductive Binary64 where
  /-- The number `mantissa * 2 ^ exponent`, negated or not. -/
  | finite (negative : Bool) (mantissa : Nat) (exponent : Int)
  /-- An infinity. -/
  | infinite (negative : Bool)
  /-- No number. -/
  | nan
  deriving DecidableEq

namespace Binary64

/-- A power of two. -/
def powerOfTwo (exponent : Nat) : Nat := Nat.pow 2 exponent

/-- A power of ten. -/
def powerOfTen (exponent : Nat) : Nat := Nat.pow 10 exponent

/-- The quotient of two natural numbers, rounded to the nearest and a half to
    the even one. -/
def roundDiv (n d : Nat) : Nat :=
  let quotient := n / d
  let twice := 2 * (n % d)
  if twice < d ∨ (twice = d ∧ quotient % 2 = 0) then quotient else quotient + 1

/-- The exponent of numbers below the normal ones. -/
def leastExponent : Int := -1074

/-- The exponent of the greatest numbers. -/
def greatestExponent : Int := 971

/-- The quotient of `n` and `d` in units of `2 ^ exponent`, rounded. -/
def scaled (n d : Nat) (exponent : Int) : Nat :=
  if exponent ≤ 0 then roundDiv (n * powerOfTwo (-exponent).toNat) d
  else roundDiv n (d * powerOfTwo exponent.toNat)

/-- Whether the quotient of `n` and `d` is less than `2 ^ (52 + exponent)`. -/
def isBelowNormal (n d : Nat) (exponent : Int) : Bool :=
  if exponent ≤ 0 then n * powerOfTwo (-exponent).toNat < d * powerOfTwo 52
  else n < d * powerOfTwo (52 + exponent.toNat)

/-- The number nearest to the quotient of two positive numbers. -/
def ofQuotient (negative : Bool) (n d : Nat) : Binary64 :=
  -- The logarithms are off by less than one each, so the guess is right or one too large.
  let guess : Int := (n.log2 : Int) - d.log2 - 52
  let exact := if isBelowNormal n d guess then guess - 1 else guess
  let exponent := max exact leastExponent
  -- Rounding may reach the next power of two.
  let mantissa := scaled n d exponent
  let (mantissa, exponent) :=
    if mantissa = powerOfTwo 53 then (powerOfTwo 52, exponent + 1) else (mantissa, exponent)
  if exponent > greatestExponent then infinite negative else finite negative mantissa exponent

/-- The number nearest to `digits * 10 ^ exponent`, negated or not. Far beyond
    the range of the format no power of ten is computed. -/
def ofDecimal (negative : Bool) (digits : Nat) (exponent : Int) : Binary64 :=
  let magnitude : Int := (Nat.toDigits 10 digits).length + exponent
  if digits = 0 ∨ magnitude < -330 then finite negative 0 leastExponent
  else if magnitude > 320 then infinite negative
  else if exponent < 0 then ofQuotient negative digits (powerOfTen (-exponent).toNat)
  else ofQuotient negative (digits * powerOfTen exponent.toNat) 1

/-- Whether a number is a zero. -/
def isZero : Binary64 → Bool
  | finite _ mantissa _ => mantissa == 0
  | _ => false

end Binary64

end EnumCompanion
