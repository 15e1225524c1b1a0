import EnumCompanion.Text.Basic

/-!
# Identifiers

Names in generated code are ASCII. A *type name* starts with a capital letter, a
*value name* with any letter or an underscore; letters, digits and underscores
follow. A *name fragment* is what may be appended to a type name, the dollar
sign included.
-/

namespace EnumCompanion.Text

/-- ASCII letters, digits and the underscore. -/
def isNameChar (c : Char) : Bool := c.isAlphanum || c == '_'

/-- The characters a value name may start with. -/
def isNameStart (c : Char) : Bool := c.isAlpha || c == '_'

/-- The names of types. -/
def isTypeName : Text → Bool
  | [] => false
  | c :: rest => c.isUpper && rest.all isNameChar

/-- The names of values. -/
def isValueName : Text → Bool
  | [] => false
  | c :: rest => isNameStart c && rest.all isNameChar

/-- The texts that extend a name to a name. -/
def isNameFragment (text : Text) : Bool := text.all fun c => isNameChar c || c == '$'

end EnumCompanion.Text
