import EnumCompanion.Number.Shortest
import EnumCompanion.Text.Quoted

/-!
# JSON values

Values of JSON with integers of any size beside binary floating-point numbers.
An object keeps the order in which its names were first given.

* `Json.put`: an object with one more field, or another value for one;
* `Json.isTruthy`: whether a value counts as given;
* `Json.same`: equality that ignores the order of fields and the kind of a
  number;
* `Json.shown`, `Json.display`: values as messages show them.
-/

namespace EnumCompanion

/-- A value of JSON. -/
inductive Json where
  /-- No value. -/
  | null
  /-- A truth value. -/
  | bool (value : Bool)
  /-- An integer. -/
  | int (value : Int)
  /-- A number with a fraction or a power of ten. -/
  | float (value : Binary64)
  /-- A string. -/
  | string (value : String)
  /-- A list of values. -/
  | array (values : List Json)
  /-- Named values. -/
  | object (fields : List (String × Json))

namespace Json

instance : Inhabited Json := ⟨null⟩

/-! ### Fields -/

/-- The value of a field. -/
def lookup (fields : List (String × Json)) (name : String) : Option Json :=
  (fields.find? fun field => field.1 == name).map Prod.snd

/-- Fields with a value for a name: in its place, or at the end if it is new. -/
def put (fields : List (String × Json)) (name : String) (value : Json) : List (String × Json) :=
  match fields with
  | [] => [(name, value)]
  | field :: rest => if field.1 = name then (name, value) :: rest else field :: put rest name value

/-- Fields overlaid by others. -/
def overlay (fields more : List (String × Json)) : List (String × Json) :=
  more.foldl (fun acc field => put acc field.1 field.2) fields

theorem lookup_cons (field : String × Json) (rest : List (String × Json)) (name : String) :
    lookup (field :: rest) name = if field.1 = name then some field.2 else lookup rest name := by
  by_cases h : field.1 = name <;> simp [lookup, h]

theorem lookup_put (fields : List (String × Json)) (name other : String) (value : Json) :
    lookup (put fields name value) other =
      if name = other then some value else lookup fields other := by
  induction fields with
  | nil => rw [put, lookup_cons]
  | cons field rest ih =>
    rw [put]
    split
    · next h => rw [lookup_cons, lookup_cons, h]; split <;> rfl
    · next h =>
      rw [lookup_cons, lookup_cons, ih]
      by_cases hother : field.1 = other
      · rw [if_pos hother, if_pos hother, if_neg (fun e => h (hother.trans e.symm))]
      · rw [if_neg hother, if_neg hother]

/-! ### Truth and equality -/

/-- Whether a value counts as given: null, false, zeros and what is empty do
    not. -/
def isTruthy : Json → Bool
  | null => false
  | bool value => value
  | int value => value != 0
  | float value => !value.isZero
  | string value => value != ""
  | array values => !values.isEmpty
  | object fields => !fields.isEmpty

/-- A number as a mantissa and an exponent of two, where a truth value counts
    as one or zero. -/
def number? : Json → Option Binary64
  | bool value => some (.finite false (if value then 1 else 0) 0)
  | int value => some (.finite (value < 0) value.natAbs 0)
  | float value => some value
  | _ => none

/-- Whether two numbers are equal. -/
def sameNumber : Binary64 → Binary64 → Bool
  | .finite n m e, .finite n' m' e' =>
    (m == 0 && m' == 0) ||
      (n == n' && m * Binary64.powerOfTwo (e - min e e').toNat ==
        m' * Binary64.powerOfTwo (e' - min e e').toNat)
  | a, b => a == b

mutual

/-- Whether two values are equal. -/
def same : Json → Json → Bool
  | null, null => true
  | string a, string b => a == b
  | array as, array bs => sameValues as bs
  | object as, object bs => as.length == bs.length && sameFields as bs
  | a, b =>
    match a.number?, b.number? with
    | some m, some n => sameNumber m n
    | _, _ => false

/-- Whether two lists of values are equal. -/
def sameValues : List Json → List Json → Bool
  | [], [] => true
  | a :: as, b :: bs => same a b && sameValues as bs
  | _, _ => false

/-- Whether fields are found among others with equal values. -/
def sameFields : List (String × Json) → List (String × Json) → Bool
  | [], _ => true
  | (name, a) :: rest, fields =>
    (match lookup fields name with
      | some b => same a b
      | none => false) && sameFields rest fields

end

/-! ### Values in messages -/

/-- The word for the type of a value in messages. -/
def typeWord : Json → String
  | null => "NoneType"
  | bool _ => "bool"
  | int _ => "int"
  | float _ => "float"
  | string _ => "str"
  | array _ => "list"
  | object _ => "dict"

/-- The decimal text of an integer. -/
def intText (value : Int) : Text :=
  (if value < 0 then ['-'] else []) ++ Nat.toDigits 10 value.natAbs

/-- Texts with a comma and a space between neighbours. -/
def listed (texts : List Text) : Text := [',', ' '].intercalate texts

mutual

/-- A value as messages show it: strings quoted, lists in brackets, objects in
    braces. -/
def shown : Json → Text
  | null => "None".toList
  | bool value => (if value then "True" else "False").toList
  | int value => intText value
  | float value => value.write "inf".toList "nan".toList
  | string value => Text.quoted value.toList
  | array values => '[' :: listed (shownValues values) ++ [']']
  | object fields => '{' :: listed (shownFields fields) ++ ['}']

/-- The values of a list as messages show them. -/
def shownValues : List Json → List Text
  | [] => []
  | value :: rest => shown value :: shownValues rest

/-- Fields as messages show them. -/
def shownFields : List (String × Json) → List Text
  | [] => []
  | (name, value) :: rest =>
    (Text.quoted name.toList ++ [':', ' '] ++ shown value) :: shownFields rest

end

/-- A value in running text: a string as it is, others as messages show them. -/
def display : Json → Text
  | string value => value.toList
  | value => value.shown

end Json

end EnumCompanion
