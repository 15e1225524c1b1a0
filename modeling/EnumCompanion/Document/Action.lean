import EnumCompanion.Code.Generator
import EnumCompanion.Document.Block
import EnumCompanion.Document.Capture
import EnumCompanion.Document.Edit

/-!
# Actions on documents

An *action* puts the code of an operation into a document: it replaces the block
of the same name behind the enum, or inserts a block on the line behind the
enum, after a blank line.

* `Generator.action`: the action of an operation for an enum;
* `Generator.actionsAtLine`: the actions of all operations for the enum on a
  line;
* `Generator.applyOperations`: a document after the actions of operations for
  its enums, each on what the ones before it left.
-/

namespace EnumCompanion

open Journal Text

/-- Edits that put generated code into a document. -/
structure Action where
  /-- The title. -/
  title : String
  /-- The kind. -/
  kind : String
  /-- The operation. -/
  operation : Operation
  /-- The name of the block. -/
  container : Text
  /-- The block. -/
  code : Text
  /-- The edits. -/
  edits : List Edit
  /-- Whether a block is replaced. -/
  replaces : Bool

/-- What keeps a document from being changed. -/
inductive Document.Fault where
  /-- The code cannot be generated. -/
  | generator (fault : Generator.Fault)
  /-- The edits do not fit. -/
  | edit (fault : Edit.Fault)
  deriving DecidableEq

/-- The wording of a fault. -/
def Document.Fault.message : Document.Fault → String
  | generator fault => fault.message
  | edit fault => fault.message

/-- The edit that inserts code behind a place. At the end of the text the code
    follows a blank line; elsewhere it goes to the start of the next line, and
    ends with a line feed whenever text follows. -/
def insertion (text code : Text) (anchor : Nat) (finalLineFeed : Bool) : Edit :=
  let ending : Text := if finalLineFeed then ['\n'] else []
  match text.seek? '\n' anchor with
  | none => ⟨text.length, text.length, ['\n', '\n'] ++ code ++ ending⟩
  | some lineFeed =>
    let position := lineFeed + 1
    -- The last brace must not run into the text that follows.
    let ending := if position < text.length then ['\n'] else ending
    ⟨position, position, '\n' :: code ++ ending⟩

namespace Generator

variable (generator : Generator)

/-- The action of an operation for an enum. -/
def action (text : Text) (e : Enumeration) (request : Request) : ExceptT Fault Logged Action := do
  let spec ← (generator.find request : Except Fault Spec)
  let code ← generator.block e (.exactly spec.operation)
  let container ← (generator.containerName e (.exactly spec.operation) : Except Fault Text)
  let anchor := e.span.elim text.length fun span => text.place span.stop
  let present := findBlock? text container anchor
  let edit := match present with
    | some span => ⟨span.start, span.stop, code⟩
    | none => insertion text code anchor generator.settings.trailingNewline.isTruthy
  return {
    title := spec.actionTitle present.isSome, kind := spec.actionKind,
    operation := spec.operation, container, code, edits := [edit], replaces := present.isSome }

/-- The record on a line without an enum. -/
def noActionsRecord (line : Int) (failure : Failure) : Record where
  level := .debug
  source := .document
  message := s!"No code actions at line {line}: {failure.message}"

/-- The actions of all operations for the enum on a line, if there is one. -/
def actionsAtLine (text : Text) (line : Int) : ExceptT Fault Logged (List Action) := do
  match ← enumAtLine text line generator.settings.allowRepeats.isTruthy with
  | .ok e => generator.registry.operations.mapM fun operation =>
      generator.action text e (.exactly operation)
  | .error failure =>
    Logged.report [noActionsRecord line failure]
    return []

/-- The record on an action for the enum of a name. -/
def actionRecord (action : Action) (name : Text) : Record where
  level := .info
  source := .document
  message := s!"{action.title} for {name.str}"

/-- The enumerations of a document, by the settings. -/
def enumsOf (text : Text) : Logged (List Enumeration) :=
  parseAllLogged text generator.settings.allowRepeats.isTruthy

/-- A document after the actions of operations for the first enum of a name. -/
def applyToEnum (name text : Text) : List Request → ExceptT Document.Fault Logged Text
  | [] => return text
  | request :: rest => do
    match (← generator.enumsOf text).find? fun e => e.name == name with
    | none => return text
    | some e =>
      let action ← (generator.action text e request).adapt Document.Fault.generator
      Logged.report [actionRecord action name]
      let changed ← ((applyEdits text action.edits).mapError .edit : Except Document.Fault Text)
      applyToEnum name changed rest

/-- A document after the actions of operations for its enums, or for those among
    them whose names are given. -/
def applyOperations (text : Text) (requests : List Request) (only : Option (List Text)) :
    ExceptT Document.Fault Logged Text := do
  let names := (← generator.enumsOf text).map Enumeration.name
  let chosen := names.filter fun name => only.all fun given => given.contains name
  chosen.foldlM (fun text name => generator.applyToEnum name text requests) text

end Generator

end EnumCompanion
