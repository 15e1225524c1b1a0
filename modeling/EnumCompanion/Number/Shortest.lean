import EnumCompanion.Number.Binary64
import EnumCompanion.Text.Basic

/-!
# Shortest decimals

A binary number is written with the fewest decimal digits that read back as the
same number, and of those the ones nearest to it. The numbers that read back as
`m * 2 ^ q` form an interval around it, ends included when `m` is even. On the
grid of multiples of `10 ^ e` only the two neighbours of the number need be
tried; the coarsest grid with a neighbour in the interval wins.

* `Shortest.digits?`: the neighbour of a number on a grid, if one reads back;
* `Shortest.decimal`: the shortest decimal of a number;
* `Binary64.write`: its text.
-/

namespace EnumCompanion

open Binary64

namespace Shortest

/-- A decimal `digits * 10 ^ exponent`. -/
structure Decimal where
  /-- The digits. -/
  digits : Nat
  /-- The power of ten. -/
  exponent : Int

/-- Numerator and denominator of `n * 2 ^ q * 10 ^ e`. -/
def fraction (n : Nat) (q e : Int) : Nat × Nat :=
  (n * powerOfTwo q.toNat * powerOfTen e.toNat, powerOfTwo (-q).toNat * powerOfTen (-e).toNat)

/-- Order of two fractions. -/
def isAtMost (a b : Nat × Nat) : Bool := a.1 * b.2 ≤ b.1 * a.2

/-- Whether `n * 10 ^ e` reads back as `m * 2 ^ q`. All is measured in quarters
    of the unit `2 ^ q`; the gap below a power of two is half of the one above. -/
def readsBack (m : Nat) (q : Int) (n : Nat) (e : Int) : Bool :=
  let low := if m = powerOfTwo 52 ∧ leastExponent < q then 4 * m - 1 else 4 * m - 2
  let value := fraction n 0 e
  let lower := fraction low (q - 2) 0
  let upper := fraction (4 * m + 2) (q - 2) 0
  if m % 2 = 0 then isAtMost lower value && isAtMost value upper
  else !isAtMost value lower && !isAtMost upper value

/-- The multiple of `10 ^ e` next to `m * 2 ^ q` that reads back, if there is
    one, and the nearer if there are two. -/
def digits? (m : Nat) (q e : Int) : Option Nat :=
  let (num, den) := fraction m q (-e)
  let below := num / den
  let twice := 2 * (num % den)
  -- No other multiple can be nearer than these two, so none else need be tried.
  match readsBack m q below e, readsBack m q (below + 1) e with
  | true, true =>
    if twice < den ∨ (twice = den ∧ below % 2 = 0) then some below else some (below + 1)
  | true, false => some below
  | false, true => some (below + 1)
  | false, false => none

/-- The first grid, from the power `e` downward, on which a neighbour of the
    number reads back. -/
def search (m : Nat) (q : Int) : Nat → Int → Decimal
  | 0, e => ⟨(digits? m q e).getD 0, e⟩
  | grids + 1, e =>
    match digits? m q e with
    | some n => ⟨n, e⟩
    | none => search m q grids (e - 1)

/-- The shortest decimal of `m * 2 ^ q`. The search starts above its greatest
    power of ten; seventeen digits are always enough. -/
def decimal (m : Nat) (q : Int) : Decimal :=
  search m q 21 ((m.log2 + q) * 30103 / 100000 + 2)

/-- A power of ten behind a mantissa: its sign and at least two digits. -/
def exponentText (e : Int) : Text :=
  let digits := Nat.toDigits 10 e.natAbs
  'e' :: (if e < 0 then '-' else '+') ::
    (if digits.length < 2 then '0' :: digits else digits)

/-- The text of a decimal whose digits are `digits`, where `point` of them stand
    before the decimal point: positional from `10 ^ -4` up to `10 ^ 16`, with a
    power of ten otherwise. -/
def layout (digits : Text) (point : Int) : Text :=
  if -4 < point ∧ point ≤ 16 then
    if point ≤ 0 then ['0', '.'] ++ List.replicate (-point).toNat '0' ++ digits
    else if digits.length ≤ point then
      digits ++ List.replicate (point.toNat - digits.length) '0' ++ ['.', '0']
    else digits.take point.toNat ++ '.' :: digits.drop point.toNat
  else
    digits.take 1 ++ (if digits.length ≤ 1 then [] else '.' :: digits.drop 1) ++
      exponentText (point - 1)

end Shortest

/-- The text of a number; `infinity` and `nan` are the words for what has no
    digits. -/
def Binary64.write (infinity nan : Text) : Binary64 → Text
  | .nan => nan
  | .infinite negative => (if negative then ['-'] else []) ++ infinity
  | .finite negative mantissa exponent =>
    (if negative then ['-'] else []) ++
      if mantissa = 0 then ['0', '.', '0']
      else
        let shortest := Shortest.decimal mantissa exponent
        let digits := Nat.toDigits 10 shortest.digits
        Shortest.layout digits (digits.length + shortest.exponent)

end EnumCompanion
