import EnumCompanion.Code.Literal
import EnumCompanion.Naming

/-!
# Templates

Generated code is written from *templates*. A template is a list of sections:
fixed text, variables, and lines that are repeated for each value of the enum.
It can be written once all the variables it uses are defined.

* `Template.uses`: the variables of a template, in the order of their use;
* `Template.write`: the text of a template;
* `Template.render`: the text, unless a variable is undefined;
* `Template.named?`: the built-in templates.
-/

namespace EnumCompanion

open Text

/-- A variable of a template. -/
inductive Variable where
  /-- The name of the enum. -/
  | enumName
  /-- Its values. -/
  | values
  /-- The indentation of members. -/
  | memberIndent
  /-- The name of an extension. -/
  | extensionName
  /-- The members of an extension. -/
  | members
  /-- What stands between members. -/
  | memberSeparator
  deriving DecidableEq

/-- The name of a variable. -/
def Variable.name : Variable → String
  | enumName => "enum_name"
  | values => "values"
  | memberIndent => "member_indent"
  | extensionName => "extension_name"
  | members => "members"
  | memberSeparator => "member_separator"

/-- What the variables stand for, as far as they are defined. -/
structure Context where
  /-- The name of the enum. -/
  enumName : Option Text := none
  /-- Its values. -/
  values : Option (List Text) := none
  /-- The indentation of members. -/
  memberIndent : Option Text := none
  /-- The name of an extension. -/
  extensionName : Option Text := none
  /-- The members of an extension. -/
  members : Option (List Text) := none
  /-- What stands between members. -/
  memberSeparator : Option Text := none

/-- Whether a variable is defined. -/
def Context.defines (context : Context) : Variable → Bool
  | .enumName => context.enumName.isSome
  | .values => context.values.isSome
  | .memberIndent => context.memberIndent.isSome
  | .extensionName => context.extensionName.isSome
  | .members => context.members.isSome
  | .memberSeparator => context.memberSeparator.isSome

namespace Template

/-! ### Lines -/

/-- A piece of the line for a value. -/
inductive Piece where
  /-- Fixed text. -/
  | fixed (text : Text)
  /-- The value. -/
  | value
  /-- The string literal of the value. -/
  | literal
  /-- The getter of the value. -/
  | getter
  /-- The name of the enum. -/
  | enumName
  /-- The indentation of members, but for the first value. -/
  | indentation
  deriving DecidableEq

/-- The variables that a piece uses, in the line of the first value or not. -/
def Piece.uses (isFirst : Bool) : Piece → List Variable
  | enumName => [.enumName]
  | indentation => if isFirst then [] else [.memberIndent]
  | _ => []

/-- The text of a piece, in the line of the first value or not. -/
def Piece.write (context : Context) (isFirst : Bool) (value : Text) : Piece → Text
  | fixed text => text
  | .value => value
  | literal => value.literal
  | getter => Naming.getterName value
  | enumName => context.enumName.getD []
  | indentation => if isFirst then [] else context.memberIndent.getD []

/-- The line for a value. -/
abbrev Line := List Piece

/-- The variables that a line uses. -/
def Line.uses (line : Line) (isFirst : Bool) : List Variable := line.flatMap (Piece.uses isFirst)

/-- The text of the line for a value. -/
def Line.write (line : Line) (context : Context) (isFirst : Bool) (value : Text) : Text :=
  line.flatMap (Piece.write context isFirst value)

/-- The variables that the lines of some values use. -/
def Line.usesEach (line : Line) : List Text → List Variable
  | [] => []
  | _ :: rest => line.uses true ++ rest.flatMap fun _ => line.uses false

/-- The lines for some values. -/
def Line.writeEach (line : Line) (context : Context) : List Text → Text
  | [] => []
  | value :: rest => line.write context true value ++ rest.flatMap (line.write context false)

/-! ### Sections -/

/-- A section of a template. -/
inductive Section where
  /-- Fixed text. -/
  | fixed (text : Text)
  /-- The name of the extension. -/
  | extensionName
  /-- The name of the enum. -/
  | enumName
  /-- The indentation of members. -/
  | indentation
  /-- The members, with the separator between them. -/
  | members
  /-- A line for each value. -/
  | perValue (line : Line)
  deriving DecidableEq

/-- The variables that a section uses, in the order of their use. -/
def Section.uses (values : List Text) : Section → List Variable
  | fixed _ => []
  | extensionName => [.extensionName]
  | enumName => [.enumName]
  | indentation => [.memberIndent]
  | members => [.memberSeparator, .members]
  | perValue line => .values :: line.usesEach values

/-- The text of a section. -/
def Section.write (context : Context) : Section → Text
  | fixed text => text
  | extensionName => context.extensionName.getD []
  | enumName => context.enumName.getD []
  | indentation => context.memberIndent.getD []
  | members => (context.memberSeparator.getD []).intercalate (context.members.getD [])
  | perValue line => line.writeEach context (context.values.getD [])

end Template

/-- A template. -/
abbrev Template := List Template.Section

namespace Template

/-- The variables that a template uses, in the order of their use. -/
def uses (template : Template) (values : List Text) : List Variable :=
  template.flatMap (Section.uses values)

/-- The text of a template, where variables that are undefined are empty. -/
def write (template : Template) (context : Context) : Text :=
  template.flatMap (Section.write context)

/-- The first variable that a template uses and that is undefined. -/
def undefined? (template : Template) (context : Context) : Option Variable :=
  (template.uses (context.values.getD [])).find? (!context.defines ·)

/-! ### The built-in templates -/

/-- Fixed text in a line. -/
def piece (text : String) : Piece := .fixed text.toList

/-- Fixed text between sections. -/
def frame (text : String) : Section := .fixed text.toList

/-- A method in its frame: the signature, a parameter line for each value and
    the last parameter, and a line for each value in the body. -/
def method (signature : String) (parameter : Line) (lastParameter body : String) (line : Line) :
    Template :=
  [frame (signature ++ "(\x7b\n"), .perValue parameter,
    frame (lastParameter ++ "  \x7d) =>\n      " ++ body ++ "\x7b\n"), .perValue line,
    frame "      \x7d;"]

/-- A method that dispatches on the value. -/
def dispatch (signature : String) (parameter : Line) (lastParameter : String) (arm : Line) :
    Template :=
  method signature parameter lastParameter "switch (this) " arm

/-- The parameter of a value: a type and the value. -/
def parameterLine (type : String) : Line := [piece ("    " ++ type ++ " "), .value, piece ",\n"]

/-- The arm of a value: the value, an arrow and a call. -/
def armLine (call : String) : Line :=
  [piece "        ", .enumName, piece ".", .value, piece " => ", .value, piece (call ++ ",\n")]

/-- Exhaustive dispatch. -/
def when : Template :=
  dispatch "T when<T extends Object>" (parameterLine "required T Function()") "" (armLine "()")

/-- Partial dispatch with a fallback. -/
def maybeWhen : Template :=
  dispatch "T maybeWhen<T extends Object>" (parameterLine "T Function()?")
    "    required T Function() orElse,\n" (armLine "?.call() ?? orElse()")

/-- Partial dispatch without a fallback. -/
def whenOrNull : Template :=
  dispatch "T? whenOrNull<T extends Object?>" (parameterLine "T? Function()?") ""
    (armLine "?.call()")

/-- Exhaustive dispatch without a result. -/
def map : Template :=
  dispatch "void map" (parameterLine "required void Function()") "" (armLine "()")

/-- Partial dispatch without a result. -/
def maybeMap : Template :=
  dispatch "void maybeMap" (parameterLine "void Function()?") "" (armLine "?.call()")

/-- A map from the names of the values. -/
def mapWithValues : Template :=
  method "static Map<String, T> toMapWithValues<T extends Object>" (parameterLine "required T") ""
    "" [piece "        ", .literal, piece ": ", .value, piece ",\n"]

/-- A getter for each value. -/
def getters : Template :=
  [.perValue [.indentation, piece "bool get ", .getter, piece " => this == ", .enumName,
    piece ".", .value, piece ";\n"]]

/-- An extension with its members. -/
def extension : Template :=
  [frame "extension ", .extensionName, frame " on ", .enumName, frame " \x7b\n", .indentation,
    .members, frame "\n\x7d"]

/-- The built-in templates and their names. -/
def builtIn : List (String × Template) :=
  [("when.dart", when), ("maybe_when.dart", maybeWhen), ("when_or_null.dart", whenOrNull),
    ("map.dart", map), ("maybe_map.dart", maybeMap), ("map_with_values.dart", mapWithValues),
    ("getters.dart", getters), ("extension.dart", extension)]

/-- The built-in template of a name. -/
def named? (name : String) : Option Template :=
  (builtIn.find? fun entry => entry.1 == name).map Prod.snd

/-! ### Rendering -/

/-- What is wrong with a request for the text of a template. -/
inductive Fault where
  /-- There is no template of that name. -/
  | missing (template : String)
  /-- The template uses an undefined variable. -/
  | undefined (template : String) (unknown : Variable)
  deriving DecidableEq

/-- The cause that a fault names. -/
def Fault.cause : Fault → String
  | missing template => template
  | undefined _ unknown => s!"'{unknown.name}' is undefined"

/-- The wording of a fault. -/
def Fault.message (fault : Fault) : String :=
  match fault with
  | missing template | undefined template _ =>
    s!"Failed to render template {template}: {fault.cause}"

/-- The text of the template of a name. -/
def render (name : String) (context : Context) : Except Fault Text :=
  match named? name with
  | none => .error (.missing name)
  | some template =>
    match template.undefined? context with
    | some unknown => .error (.undefined name unknown)
    | none => .ok (template.write context)

end Template

end EnumCompanion
