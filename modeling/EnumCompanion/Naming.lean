import EnumCompanion.Enumeration

/-!
# Names in generated code

The getter of a value is called `is` and the value with its first letter
capitalized; the extension that holds generated members is called like the enum
with a suffix. Two values may share a getter, and a value may be a word that
Dart reserves or the name of a parameter that generated code declares itself.
Such enumerations are generated for all the same, with a `Warning`.

* `getterName`: the getter of a value;
* `collisions`: the getters that distinct values share;
* `Enumeration.warnings`: the warnings on an enumeration.
-/

namespace EnumCompanion

namespace Naming

/-- A name whose first character, if a small ASCII letter, is capitalized. -/
def capitalized : Text → Text
  | [] => []
  | c :: rest => (if c.isLower then c.toUpper else c) :: rest

/-- The name of the getter of a value. -/
def getterName (value : Text) : Text := ['i', 's'] ++ capitalized value

/-- The name of an extension. -/
def extensionName (enumName suffix : Text) : Text := enumName ++ suffix

/-- The words of Dart that are never identifiers. -/
def reservedWords : List Text :=
  ["assert", "break", "case", "catch", "class", "const", "continue", "default", "do", "else",
    "enum", "extends", "false", "final", "finally", "for", "if", "in", "is", "new", "null",
    "rethrow", "return", "super", "switch", "this", "throw", "true", "try", "var", "void",
    "while", "with"].map String.toList

/-- The parameter that generated code declares beside those of the values. -/
def fallbackParameter : Text := ['o', 'r', 'E', 'l', 's', 'e']

/-- The distinct values of a list that have a getter. -/
def sharers (values : List Text) (getter : Text) : List Text :=
  values.eraseDups.filter fun value => getterName value = getter

/-- The getters that two or more distinct values share, in the order in which
    they are first seen, with those values. -/
def collisions (values : List Text) : List (Text × List Text) :=
  ((values.map getterName).eraseDups.map fun getter => (getter, sharers values getter)).filter
    fun (_, owners) => 1 < owners.length

end Naming

/-- A reason why code generated for an enumeration is not valid. -/
inductive Warning where
  /-- A value is declared more than once. -/
  | repeatedValue (enum value : Text)
  /-- Distinct values share a getter. -/
  | sharedGetter (enum getter : Text) (values : List Text)
  /-- A value is a word that Dart reserves. -/
  | reservedWord (enum value : Text)
  /-- A value is called like a parameter that generated code declares. -/
  | parameterClash (enum value : Text)
  deriving DecidableEq

/-- The wording of a warning. -/
def Warning.message : Warning → String
  | repeatedValue enum value =>
    s!"Value '{value.str}' is declared more than once in {enum.str}; " ++
      "generated switch arms will be duplicated"
  | sharedGetter enum getter values =>
    s!"Values {Text.listing values} of {enum.str} all map to " ++
      s!"getter '{getter.str}'"
  | reservedWord enum value => s!"Value '{value.str}' of {enum.str} is a Dart reserved word"
  | parameterClash enum value =>
    s!"Value '{value.str}' of {enum.str} clashes with the generated " ++
      s!"'{value.str}' parameter of maybeWhen()"

/-- The warnings on one value of an enumeration. -/
def Enumeration.valueWarnings (e : Enumeration) (value : Text) : List Warning :=
  (if value ∈ Naming.reservedWords then [.reservedWord e.name value] else []) ++
    (if value = Naming.fallbackParameter then [.parameterClash e.name value] else [])

/-- The warnings on an enumeration: repeated values, shared getters, and those
    on its values in order. -/
def Enumeration.warnings (e : Enumeration) : List Warning :=
  e.repeated.map (.repeatedValue e.name) ++
    (Naming.collisions e.values).map (fun (getter, values) => .sharedGetter e.name getter values) ++
    e.values.flatMap e.valueWarnings

end EnumCompanion
