import EnumCompanion.Span
import EnumCompanion.Text.Identifier
import EnumCompanion.Text.Quoted

/-!
# Enumerations

An *enumeration* is what code is generated for: the name of a Dart enum and its
values in the order of their declaration. The name is that of a type, there is
at least one value, and all are value names; values may repeat.

* `Enumeration.ofNames`: the enumeration with a name and values, or what is
  wrong with them;
* `Enumeration.repeated`: the values that occur more than once;
* `Enumeration.hasRepeats_iff`: there are such values exactly when some value
  occurs twice.
-/

namespace EnumCompanion

open Text

/-- A Dart enum. -/
structure Enumeration where
  /-- The name of the type. -/
  name : Text
  /-- The values, in order. -/
  values : List Text
  /-- Where the enum is declared, if in a text. -/
  span : Option Span := none
  /-- The name is that of a type. -/
  isTypeName_name : isTypeName name = true
  /-- There are values. -/
  values_ne_nil : values ≠ []
  /-- The values are value names. -/
  isValueName_values : ∀ value ∈ values, isValueName value = true

namespace Enumeration

/-- What keeps a name and values from being an enumeration. -/
inductive Fault where
  /-- The name, where one is given, is not that of a type. -/
  | badName (name : Option Text)
  /-- There are no values. -/
  | noValues (name : Text)
  /-- A value is not a value name. -/
  | badValue (name value : Text)
  deriving DecidableEq

/-- The wording of a fault. -/
def Fault.message : Fault → String
  | badName none => "Invalid enum name: None"
  | badName (some name) => s!"Invalid enum name: {name.quoted.str}"
  | noValues name => s!"Enum {name.str} must have at least one value"
  | badValue name value => s!"Invalid value {value.quoted.str} in enum {name.str}"

/-- The enumeration with a name and values. -/
def ofNames (name : Option Text) (values : List Text) : Except Fault Enumeration :=
  if hname : isTypeName (name.getD []) then
    if hvalues : values = [] then .error (.noValues (name.getD []))
    else match hbad : values.find? (!isValueName ·) with
      | some value => .error (.badValue (name.getD []) value)
      | none => .ok {
          name := name.getD []
          values
          isTypeName_name := hname
          values_ne_nil := hvalues
          isValueName_values := by simpa using hbad }
  else .error (.badName name)

/-- The values that occur more than once, each where it is first seen. -/
def repeated (e : Enumeration) : List Text :=
  e.values.eraseDups.filter fun value => 1 < e.values.count value

/-- Whether a value occurs more than once. -/
def hasRepeats (e : Enumeration) : Bool := !decide e.values.Nodup

theorem hasRepeats_iff (e : Enumeration) : e.hasRepeats = true ↔ ¬e.values.Nodup := by
  simp [hasRepeats]

end Enumeration

end EnumCompanion
