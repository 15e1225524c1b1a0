import EnumCompanion.Code.Template
import EnumCompanion.Journal
import EnumCompanion.Operation.Defaults
import EnumCompanion.Settings.Basic

/-!
# Generators

A *generator* writes the code of an operation for an enum, from its registry and
its settings. The code is a *member*, or for the extension a whole *block*; a
member becomes a block in an extension of its own, its *container*.

The registry says by which routine an operation is generated. A routine writes
the template that is registered for the operation it is meant for; the one for
extensions bundles members, each generated in turn. Were one of them generated
by that routine too, there would be no end to it.

* `Generator.generate`: the code of an operation, with records;
* `Generator.block`: the code as a block;
* `Generator.containerName`: the name of the container;
* `Generator.fragment`: the code with what is known about it.
-/

namespace EnumCompanion

open Journal Text

/-- What code is generated with. -/
structure Generator where
  /-- The settings. -/
  settings : Settings := {}
  /-- The operations. -/
  registry : Registry := .builtIn

namespace Generator

/-- What keeps code from being generated. -/
inductive Fault where
  /-- The registry does not know the operation. -/
  | registry (fault : Registry.Fault)
  /-- There is no routine of the registered name. -/
  | noRoutine (operation : Operation) (routine : String)
  /-- The template cannot be written. -/
  | template (fault : Template.Fault)
  /-- A bundle is a member of itself. -/
  | endless
  deriving DecidableEq

/-- The wording of a fault. -/
def Fault.message : Fault → String
  | registry fault => fault.message
  | noRoutine operation routine =>
    s!"Operation {operation.name} has no generator method '{routine}'"
  | template fault => fault.message
  | endless => "maximum recursion depth exceeded"

/-- The indentation of members. -/
def memberIndent : Text := [' ', ' ']

/-- What stands between the members of a bundle. -/
def memberSeparator : Text := ['\n', '\n'] ++ memberIndent

/-- The members of a bundle, in order. -/
def bundled : List Operation := [.getters, .when, .maybeWhen, .whenOrNull]

/-- A text without the line feeds at its end. -/
def withoutFinalLineFeeds (text : Text) : Text := (text.reverse.dropWhile (· == '\n')).reverse

variable (generator : Generator)

/-- The spec of the operation that a request asks for. -/
def find (request : Request) : Except Fault Spec :=
  (generator.registry.find request).mapError .registry

/-- The text of the template that is registered for an operation. -/
def render (operation : Operation) (context : Context) : Except Fault Text := do
  let spec ← generator.find (.exactly operation)
  let text ← (Template.render spec.template context).mapError Fault.template
  return withoutFinalLineFeeds text

/-! ### Containers -/

/-- The value that ends the name of a container: the setting for the operation
    where there is one, and else the setting for extensions or what the registry
    says. -/
def suffix (request : Request) : Except Fault Json := do
  let spec ← generator.find request
  let given := (Json.lookup generator.settings.operationSuffixes spec.operation.name).getD .null
  if given.isTruthy then return given
  else if spec.operation = .extension then return generator.settings.extensionSuffix
  else return .string spec.suffix

/-- The name of the container of an operation. -/
def containerName (e : Enumeration) (request : Request) : Except Fault Text := do
  let suffix ← generator.suffix request
  return Naming.extensionName e.name suffix.display

/-- An extension with members. -/
def extensionText (name : Text) (e : Enumeration) (members : List Text) : Except Fault Text :=
  generator.render .extension
    { enumName := e.name, memberIndent, extensionName := name, members, memberSeparator }

/-- A member in the container of an operation. -/
def wrap (e : Enumeration) (body : Text) (request : Request) : Except Fault Text := do
  generator.extensionText (← generator.containerName e request) e [body]

/-! ### Generation -/

/-- The text that a routine for members writes. -/
def member (e : Enumeration) (operation : Operation) : Except Fault Text :=
  generator.render operation { enumName := e.name, values := e.values, memberIndent }

/-- The record on an operation that is generated. -/
def record (e : Enumeration) (operation : Operation) : Record where
  level := .debug
  source := .generator
  message := s!"Generating {operation.name} for enum {e.name.str}"

/-- The routine that generates the operation that a request asks for. -/
def routine (request : Request) : Except Fault (Operation × Operation) := do
  let spec ← generator.find request
  match Operation.ofRoutine? spec.routine with
  | some routine => return (spec.operation, routine)
  | none => .error (.noRoutine spec.operation spec.routine)

/-- A member of a bundle. -/
def bundleMember (e : Enumeration) (operation : Operation) : ExceptT Fault Logged Text := do
  let (operation, routine) ← (generator.routine (.exactly operation) : Except Fault _)
  Logged.report [record e operation]
  if routine = .extension then throw .endless
  else (generator.member e routine : Except Fault Text)

/-- The bundle of members for an enum. -/
def bundle (e : Enumeration) : ExceptT Fault Logged Text := do
  let members ← bundled.mapM (generator.bundleMember e)
  let name ← (generator.containerName e (.exactly .extension) : Except Fault Text)
  (generator.extensionText name e members : Except Fault Text)

/-- The code of the operation that a request asks for. -/
def generate (e : Enumeration) (request : Request) : ExceptT Fault Logged Text := do
  let (operation, routine) ← (generator.routine request : Except Fault _)
  Logged.report [record e operation]
  if routine = .extension then generator.bundle e
  else (generator.member e routine : Except Fault Text)

/-- The code of an operation as a block. -/
def block (e : Enumeration) (request : Request) : ExceptT Fault Logged Text := do
  let spec ← (generator.find request : Except Fault Spec)
  let code ← generator.generate e (.exactly spec.operation)
  if spec.operation = .extension then return code
  else (generator.wrap e code (.exactly spec.operation) : Except Fault Text)

end Generator

end EnumCompanion
