import EnumCompanion.Json.Basic

/-!
# Reading JSON

A reader takes a value from the head of a text and returns it with what
follows, which is shorter than what it was given. A text that is no JSON is
refused with a `Json.Fault` and the place where it shows.

Beyond the standard, `NaN`, `Infinity` and `-Infinity` are numbers. A string
holds no control character. Of fields with one name the last value counts, in
the place of the first. There are limits to the digits of an integer and to the
values within values.

* `Json.readValue`: the value at the head of a text;
* `Json.read`: the value that a whole text writes.
-/

namespace EnumCompanion.Json

/-- What is wrong with a text. -/
inductive Flaw where
  /-- No value was found. -/
  | expectedValue
  /-- No name of a field was found. -/
  | expectedName
  /-- No colon was found. -/
  | expectedColon
  /-- No comma was found. -/
  | expectedComma
  /-- A string is not closed. -/
  | unclosedString
  /-- A string holds a control character. -/
  | controlCharacter
  /-- A backslash stands before a character that it does not escape. -/
  | badEscape
  /-- An escape by code point lacks its four digits. -/
  | badPointEscape
  /-- More text follows the value. -/
  | extraText
  /-- The text starts with a byte order mark. -/
  | byteOrderMark
  /-- An integer is too long. -/
  | tooManyDigits (count : Nat)
  /-- A list is within too many other values. -/
  | tooDeepArray
  /-- An object is within too many other values. -/
  | tooDeepObject
  deriving DecidableEq

/-- Whether a flaw is beyond the limits of a reader, in a text that may be JSON. -/
def Flaw.isLimit : Flaw → Bool
  | tooManyDigits _ | tooDeepArray | tooDeepObject => true
  | _ => false

/-- The wording of a flaw. -/
def Flaw.wording : Flaw → String
  | expectedValue => "Expecting value"
  | expectedName => "Expecting property name enclosed in double quotes"
  | expectedColon => "Expecting ':' delimiter"
  | expectedComma => "Expecting ',' delimiter"
  | unclosedString => "Unterminated string starting at"
  | controlCharacter => "Invalid control character at"
  | badEscape => "Invalid \\escape"
  | badPointEscape => "Invalid \\uXXXX escape"
  | extraText => "Extra data"
  | byteOrderMark => "Unexpected UTF-8 BOM (decode using utf-8-sig)"
  | tooManyDigits count =>
    "Exceeds the limit (4300 digits) for integer string conversion: " ++
      s!"value has {count} digits; use sys.set_int_max_str_digits() to increase the limit"
  | tooDeepArray =>
    "maximum recursion depth exceeded while decoding a JSON array from a unicode string"
  | tooDeepObject =>
    "maximum recursion depth exceeded while decoding a JSON object from a unicode string"

/-- A flaw and the number of characters from where it shows to the end. -/
structure Fault where
  /-- What is wrong. -/
  flaw : Flaw
  /-- The length of the text from there on. -/
  remaining : Nat

/-- The longest integer that is read, in digits. -/
def maxDigits : Nat := 4300

/-- The most lists and objects that are read one within the other. -/
def maxLevels : Nat := 987

/-- What a reader takes from a text. -/
structure Taken (α : Type) (text : Text) where
  /-- What was read. -/
  value : α
  /-- What follows. -/
  rest : Text
  /-- Something was taken. -/
  shorter : rest.length < text.length

/-! ### Blanks -/

/-- The blanks between the parts of a value. -/
def isSpace (c : Char) : Bool := c == ' ' || c == '\t' || c == '\n' || c == '\r'

/-- A text without the blanks at its head. -/
def skipSpace (text : Text) : Text := text.dropWhile isSpace

theorem length_skipSpace_le (text : Text) : (skipSpace text).length ≤ text.length :=
  (List.dropWhile_sublist isSpace).length_le

theorem length_dropWhile_le (p : Char → Bool) (text : Text) :
    (text.dropWhile p).length ≤ text.length :=
  (List.dropWhile_sublist p).length_le

/-! ### Strings -/

/-- The value of a hexadecimal digit. -/
def hexValue? (c : Char) : Option Nat :=
  if c.isDigit then some (c.toNat - 48)
  else if 'a' ≤ c ∧ c ≤ 'f' then some (c.toNat - 87)
  else if 'A' ≤ c ∧ c ≤ 'F' then some (c.toNat - 55)
  else none

/-- The value of four hexadecimal digits. -/
def hexValue4? (a b c d : Char) : Option Nat := do
  let a ← hexValue? a
  let b ← hexValue? b
  let c ← hexValue? c
  let d ← hexValue? d
  return ((a * 16 + b) * 16 + c) * 16 + d

/-- Whether a code point is the first half of a surrogate pair. -/
def isHighSurrogate (point : Nat) : Bool := 0xD800 ≤ point && point ≤ 0xDBFF

/-- Whether a code point is the second half of a surrogate pair. -/
def isLowSurrogate (point : Nat) : Bool := 0xDC00 ≤ point && point ≤ 0xDFFF

/-- The code point of a surrogate pair. -/
def pairPoint (high low : Nat) : Nat := (high - 0xD800) * 0x400 + (low - 0xDC00) + 0x10000

/-- The character of a code point; half a surrogate pair has none and gives the
    replacement character. -/
def pointChar (point : Nat) : Char :=
  if isHighSurrogate point || isLowSurrogate point then Char.ofNat 0xFFFD else Char.ofNat point

/-- The character that a backslash and a letter stand for. -/
def letterEscape? : Char → Option Char
  | '"' => some '"'
  | '\\' => some '\\'
  | '/' => some '/'
  | 'b' => some '\x08'
  | 'f' => some '\x0c'
  | 'n' => some '\n'
  | 'r' => some '\r'
  | 't' => some '\t'
  | _ => none

/-- A character in front of what was read of a string behind it. -/
def prepend {rest text : Text} (c : Char) (tail : Except Fault (Taken Text rest))
    (shorter : rest.length < text.length := by simp +arith) : Except Fault (Taken Text text) :=
  tail.map fun taken => ⟨c :: taken.value, taken.rest, Nat.lt_trans taken.shorter shorter⟩

/-- The characters of a string up to its closing quote. A string that is not
    closed is reported at its opening quote, the head of `opening`. -/
def stringBody (opening : Text) : (text : Text) → Except Fault (Taken Text text)
  | [] => .error ⟨.unclosedString, opening.length⟩
  | '"' :: rest => .ok ⟨[], rest, by simp⟩
  | ['\\'] => .error ⟨.unclosedString, opening.length⟩
  | '\\' :: 'u' :: a :: b :: c :: d :: next :: rest =>
    match hexValue4? a b c d with
    | none => .error ⟨.badPointEscape, rest.length + 6⟩
    | some high =>
      match next, rest with
      | '\\', 'u' :: e :: f :: g :: h :: last :: more =>
        if isHighSurrogate high then
          match hexValue4? e f g h with
          | none => .error ⟨.badPointEscape, more.length + 6⟩
          | some low =>
            if isLowSurrogate low then
              prepend (Char.ofNat (pairPoint high low)) (stringBody opening (last :: more))
            else
              prepend (pointChar high)
                (stringBody opening ('\\' :: 'u' :: e :: f :: g :: h :: last :: more))
        else
          prepend (pointChar high)
            (stringBody opening ('\\' :: 'u' :: e :: f :: g :: h :: last :: more))
      | next, rest => prepend (pointChar high) (stringBody opening (next :: rest))
  | '\\' :: 'u' :: rest => .error ⟨.badPointEscape, rest.length + 1⟩
  | '\\' :: letter :: rest =>
    match letterEscape? letter with
    | some c => prepend c (stringBody opening rest)
    | none => .error ⟨.badEscape, rest.length + 2⟩
  | c :: rest =>
    if c.toNat < 32 then .error ⟨.controlCharacter, rest.length + 1⟩
    else prepend c (stringBody opening rest)
termination_by text => text.length
decreasing_by all_goals simp +arith

/-! ### Numbers -/

/-- The number that digits write. -/
def digitsValue (digits : Text) : Nat := digits.foldl (fun n c => 10 * n + (c.toNat - 48)) 0

/-- The digits of a number behind its sign. -/
structure Numeral where
  /-- The integral part. -/
  integral : Text
  /-- The fraction, if there is one. -/
  fraction : Option Text
  /-- The power of ten, if there is one: its sign and digits. -/
  power : Option (Bool × Text)

/-- The integral part at the head of a text: a zero, or digits of which the
    first is none. -/
def integral? : Text → Option (Text × Text)
  | '0' :: rest => some (['0'], rest)
  | c :: rest =>
    if c.isDigit then some (c :: rest.takeWhile Char.isDigit, rest.dropWhile Char.isDigit) else none
  | [] => none

/-- The fraction at the head of a text. -/
def fraction? : Text → Option (Text × Text)
  | '.' :: rest =>
    if rest.head?.any Char.isDigit then
      some (rest.takeWhile Char.isDigit, rest.dropWhile Char.isDigit)
    else none
  | _ => none

/-- The sign at the head of a text, if one is there; true for a minus sign. -/
def signed : Text → Bool × Text
  | '-' :: rest => (true, rest)
  | '+' :: rest => (false, rest)
  | rest => (false, rest)

/-- The power of ten at the head of a text. -/
def power? : Text → Option ((Bool × Text) × Text)
  | c :: rest =>
    if c = 'e' ∨ c = 'E' then
      let (negative, rest) := signed rest
      if rest.head?.any Char.isDigit then
        some ((negative, rest.takeWhile Char.isDigit), rest.dropWhile Char.isDigit)
      else none
    else none
  | [] => none

/-- A part of a number at the head of a text, or nothing. -/
def orNone {α : Type} (part? : Text → Option (α × Text)) (text : Text) : Option α × Text :=
  match part? text with
  | some (part, rest) => (some part, rest)
  | none => (none, text)

theorem length_integral {text rest digits : Text} (h : integral? text = some (digits, rest)) :
    rest.length < text.length := by
  unfold integral? at h
  split at h
  · simp only [Option.some.injEq, Prod.mk.injEq] at h
    simp [← h.2]
  · next c tail _ =>
    split at h
    · simp only [Option.some.injEq, Prod.mk.injEq] at h
      have := length_dropWhile_le Char.isDigit tail
      simp only [← h.2, List.length_cons]
      omega
    · simp at h
  · simp at h

theorem length_fraction {text rest digits : Text} (h : fraction? text = some (digits, rest)) :
    rest.length < text.length := by
  unfold fraction? at h
  split at h
  · next tail =>
    split at h
    · simp only [Option.some.injEq, Prod.mk.injEq] at h
      have := length_dropWhile_le Char.isDigit tail
      simp only [← h.2, List.length_cons]
      omega
    · simp at h
  · simp at h

theorem length_signed_le (text : Text) : (signed text).2.length ≤ text.length := by
  unfold signed
  split <;> simp

theorem length_power {text rest : Text} {power : Bool × Text}
    (h : power? text = some (power, rest)) : rest.length < text.length := by
  unfold power? at h
  split at h
  · next c tail =>
    split at h
    · simp only at h
      split at h
      · simp only [Option.some.injEq, Prod.mk.injEq] at h
        have h₁ := length_signed_le tail
        have h₂ := length_dropWhile_le Char.isDigit (signed tail).2
        simp only [← h.2, List.length_cons]
        omega
      · simp at h
    · simp at h
  · simp at h

theorem length_orNone_le {α : Type} {part? : Text → Option (α × Text)}
    (h : ∀ text part rest, part? text = some (part, rest) → rest.length < text.length)
    (text : Text) : (orNone part? text).2.length ≤ text.length := by
  unfold orNone
  split
  · next part rest hpart => exact Nat.le_of_lt (h _ _ _ hpart)
  · exact Nat.le_refl _

/-- The numeral at the head of a text. -/
def numeral? (text : Text) : Option (Taken Numeral text) :=
  match h : integral? text with
  | none => none
  | some (integral, rest) =>
    let fraction := orNone fraction? rest
    let power := orNone power? fraction.2
    some {
      value := ⟨integral, fraction.1, power.1⟩
      rest := power.2
      shorter := by
        have h₁ := length_integral h
        have h₂ : fraction.2.length ≤ _ := length_orNone_le (fun _ _ _ => length_fraction) rest
        have h₃ : power.2.length ≤ _ :=
          length_orNone_le (fun _ _ _ => length_power) fraction.2
        omega }

/-- The value of a numeral behind a sign: an integer unless it has a fraction or
    a power of ten. -/
def Numeral.value (numeral : Numeral) (negative : Bool) : Except Flaw Json :=
  match numeral.fraction, numeral.power with
  | none, none =>
    if maxDigits < numeral.integral.length then .error (.tooManyDigits numeral.integral.length)
    else
      let magnitude : Int := digitsValue numeral.integral
      .ok (.int (if negative then -magnitude else magnitude))
  | fraction, power =>
    let decimals := fraction.getD []
    let exponent : Int := match power with
      | some (true, digits) => -digitsValue digits
      | some (false, digits) => digitsValue digits
      | none => 0
    .ok (.float (.ofDecimal negative (digitsValue (numeral.integral ++ decimals))
      (exponent - decimals.length)))

/-! ### Values -/

/-- The values that words stand for. -/
def words : List (Text × Json) :=
  [("null".toList, .null), ("true".toList, .bool true), ("false".toList, .bool false),
    ("NaN".toList, .float .nan), ("Infinity".toList, .float (.infinite false)),
    ("-Infinity".toList, .float (.infinite true))]

/-- The word at the head of a text. -/
def word? (text : Text) : Option (Taken Json text) :=
  words.findSome? fun (word, value) =>
    match h : word.isPrefixOf? text with
    | some rest =>
      if hword : word ≠ [] then
        some ⟨value, rest, by
          have := List.length_pos_iff.2 hword
          rw [← Text.isPrefixOf?_eq_some_iff.1 h, List.length_append]
          omega⟩
      else none
    | none => none

/-- The number at the head of a text. -/
def readNumber (text : Text) : Except Fault (Taken Json text) :=
  let negative := text.head? == some '-'
  let unsigned := if negative then text.tail else text
  match numeral? unsigned with
  | none => .error ⟨.expectedValue, text.length⟩
  | some numeral =>
    match numeral.value.value negative with
    | .error flaw => .error ⟨flaw, text.length⟩
    | .ok value => .ok ⟨value, numeral.rest, by
        have h := numeral.shorter
        have : unsigned.length ≤ text.length := by
          unfold unsigned
          split <;> simp
        omega⟩

mutual

/-- The value at the head of a text, with lists and objects up to a number of
    levels. -/
def readValue (levels : Nat) (text : Text) : Except Fault (Taken Json text) :=
  match text with
  | [] => .error ⟨.expectedValue, 0⟩
  | '"' :: rest => do
    let taken ← stringBody ('"' :: rest) rest
    return ⟨.string taken.value.str, taken.rest, by
      have := taken.shorter
      simp only [List.length_cons]
      omega⟩
  | '[' :: rest =>
    have := length_skipSpace_le rest
    if levels = 0 then .error ⟨.tooDeepArray, rest.length + 1⟩
    else match h : skipSpace rest with
    | ']' :: after => .ok ⟨.array [], after, by
        have := congrArg List.length h
        simp only [List.length_cons] at this ⊢
        omega⟩
    | _ => do
      let taken ← readElements (levels - 1) (skipSpace rest)
      return ⟨.array taken.value, taken.rest, by
        have := taken.shorter
        simp only [List.length_cons]
        omega⟩
  | '\x7b' :: rest =>
    have := length_skipSpace_le rest
    if levels = 0 then .error ⟨.tooDeepObject, rest.length + 1⟩
    else match h : skipSpace rest with
    | '\x7d' :: after => .ok ⟨.object [], after, by
        have := congrArg List.length h
        simp only [List.length_cons] at this ⊢
        omega⟩
    | _ => do
      let taken ← readFields (levels - 1) [] (skipSpace rest)
      return ⟨.object taken.value, taken.rest, by
        have := taken.shorter
        simp only [List.length_cons]
        omega⟩
  | text =>
    match word? text with
    | some taken => .ok taken
    | none => readNumber text
termination_by (text.length, 0)

/-- The elements of a list up to its closing bracket. -/
def readElements (levels : Nat) (text : Text) : Except Fault (Taken (List Json) text) := do
  let taken ← readValue levels text
  have h₁ := taken.shorter
  have h₂ := length_skipSpace_le taken.rest
  match h : skipSpace taken.rest with
  | ']' :: after => .ok ⟨[taken.value], after, by
      have := congrArg List.length h
      simp only [List.length_cons] at this
      omega⟩
  | ',' :: after => do
    have h₃ := congrArg List.length h
    have h₄ := length_skipSpace_le after
    have : (skipSpace after).length < text.length := by
      simp only [List.length_cons] at h₃
      omega
    let others ← readElements levels (skipSpace after)
    return ⟨taken.value :: others.value, others.rest, Nat.lt_trans others.shorter this⟩
  | other => .error ⟨.expectedComma, other.length⟩
termination_by (text.length, 1)

/-- Fields overlaid by those up to a closing brace. -/
def readFields (levels : Nat) (fields : List (String × Json)) (text : Text) :
    Except Fault (Taken (List (String × Json)) text) :=
  match text with
  | '"' :: opened => do
    let name ← stringBody ('"' :: opened) opened
    have h₁ := name.shorter
    have h₂ := length_skipSpace_le name.rest
    match hcolon : skipSpace name.rest with
    | ':' :: behind => do
      have h₃ := congrArg List.length hcolon
      have h₄ := length_skipSpace_le behind
      have : (skipSpace behind).length < (('"' :: opened : Text)).length := by
        simp only [List.length_cons] at h₃ ⊢
        omega
      let taken ← readValue levels (skipSpace behind)
      have h₅ := taken.shorter
      have h₆ := length_skipSpace_le taken.rest
      let fields := put fields name.value.str taken.value
      match h : skipSpace taken.rest with
      | '\x7d' :: after => .ok ⟨fields, after, by
          have := congrArg List.length h
          simp only [List.length_cons] at this h₃ ⊢
          omega⟩
      | ',' :: after => do
        have h₇ := congrArg List.length h
        have h₈ := length_skipSpace_le after
        have : (skipSpace after).length < (('"' :: opened : Text)).length := by
          simp only [List.length_cons] at h₃ h₇ ⊢
          omega
        let others ← readFields levels fields (skipSpace after)
        return ⟨others.value, others.rest, Nat.lt_trans others.shorter this⟩
      | other => .error ⟨.expectedComma, other.length⟩
    | other => .error ⟨.expectedColon, other.length⟩
  | other => .error ⟨.expectedName, other.length⟩
termination_by (text.length, 1)

end

/-! ### Documents -/

/-- The value that a text writes, blanks around it left out, with lists and
    objects up to a number of levels. -/
def readText (levels : Nat) (text : Text) : Except Fault Json :=
  if text.head? = some (Char.ofNat 0xFEFF) then .error ⟨.byteOrderMark, text.length⟩
  else do
    let taken ← readValue levels (skipSpace text)
    match skipSpace taken.rest with
    | [] => return taken.value
    | rest => .error ⟨.extraText, rest.length⟩

/-- Why a text is no JSON: a flaw, and the place where it shows. -/
structure Refusal where
  /-- What is wrong. -/
  flaw : Flaw
  /-- Where. -/
  place : Nat
  /-- The line and column of the place, counted from one. -/
  line : Nat
  /-- See `line`. -/
  column : Nat

/-- The refusal for a fault of a text. -/
def Fault.refusal (fault : Fault) (text : Text) : Refusal :=
  let before : Text := text.take (text.length - fault.remaining)
  { flaw := fault.flaw
    place := before.length
    line := before.count '\n' + 1
    column := before.lastLineLength + 1 }

/-- The wording of a refusal. -/
def Refusal.message (refusal : Refusal) : String :=
  s!"{refusal.flaw.wording}: line {refusal.line} column {refusal.column} (char {refusal.place})"

/-- The value that a text writes. -/
def read (text : Text) (levels : Nat := maxLevels) : Except Refusal Json :=
  (readText levels text).mapError (·.refusal text)

end EnumCompanion.Json
