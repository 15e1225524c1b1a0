import EnumCompanion.Operation.Basic
import EnumCompanion.Text.Blank
import EnumCompanion.Text.LowerCase

/-!
# The registry of operations

A *registry* holds a `Spec` for each operation that is registered, and the names
by which users ask for it. Names that differ only in case, blanks, hyphens,
underscores and parentheses are one: `Registry.key` folds them. No name stands
for two operations, and a registration that would make one do so is refused.

* `Registry.register`, `Registry.unregister`: the two ways to change a registry;
* `Registry.resolve`: the operation that a user asks for;
* `Registry.aliases`: the names of an operation other than its own.
-/

namespace EnumCompanion

open Text

/-- What is known about an operation. -/
structure Spec where
  /-- The operation. -/
  operation : Operation
  /-- What an action for it is called. -/
  title : String
  /-- What the name of its container ends with. -/
  suffix : String
  /-- The kind of action. -/
  actionKind : String
  /-- The name of the routine that generates it. -/
  routine : String
  /-- The name of its template. -/
  template : String
  /-- What it is for. -/
  description : String
  deriving DecidableEq

/-- The title of an action, where the code may exist already. -/
def Spec.actionTitle (spec : Spec) (present : Bool) : String :=
  (if present then "Regenerate " else "Generate ") ++ spec.title

/-- What a user asks for: a name, or an operation itself. -/
inductive Request where
  /-- A name, in any spelling. -/
  | named (name : Text)
  /-- An operation. -/
  | exactly (operation : Operation)
  deriving DecidableEq

/-- A request as messages show it. -/
def Request.shown : Request → String
  | named name => name.str
  | exactly operation => operation.label

/-- Operations and their names. -/
structure Registry where
  /-- The specs, at most one for an operation. -/
  specs : List Spec
  /-- The keys of names, each with what it stands for. -/
  names : List (Text × Operation)
  deriving DecidableEq

namespace Registry

/-- What is wrong with a request or a registration. -/
inductive Fault where
  /-- A name stands for another operation. -/
  | taken (name : Text) (owner : Operation)
  /-- There is no such operation; there are others. -/
  | unknown (request : Request) (available : List Operation)
  deriving DecidableEq

/-- The wording of a fault. -/
def Fault.message : Fault → String
  | taken name owner => s!"Alias '{name.str}' already points to '{owner.name}'"
  | unknown request available =>
    s!"Unknown operation: {request.shown}. " ++
      "Available: " ++ ", ".intercalate (available.map Operation.name)

/-! ### Names -/

/-- The characters that do not count in a name. -/
def isIgnored (c : Char) : Bool := isBlank c || c ∈ ['_', '-', '(', ')']

/-- What the spellings of a name have in common. -/
def key (name : Text) : Text := lower (name.filter (!isIgnored ·))

/-- What a key stands for. -/
def owner? (registry : Registry) (key : Text) : Option Operation :=
  (registry.names.find? fun entry => entry.1 == key).map Prod.snd

/-- Whether a name stands for an operation. -/
def supports (registry : Registry) (name : Text) : Bool := (registry.owner? (key name)).isSome

/-- The keys of an operation other than that of its own name. -/
def aliases (registry : Registry) (operation : Operation) : List Text :=
  sorted ((registry.names.filter fun entry =>
    entry.2 = operation && entry.1 ≠ key operation.name.toList).map Prod.fst)

/-! ### Specs -/

/-- The registry without entries. -/
def empty : Registry := ⟨[], []⟩

/-- The spec of an operation. -/
def spec? (registry : Registry) (operation : Operation) : Option Spec :=
  registry.specs.find? fun spec => spec.operation = operation

/-- The operations that are registered, in the order of their declaration. -/
def operations (registry : Registry) : List Operation :=
  Operation.all.filter fun operation => (registry.spec? operation).isSome

/-- The fault of a request that is not met. -/
def notFound (registry : Registry) (request : Request) : Fault :=
  .unknown request registry.operations

/-- The operation that a request asks for. -/
def resolve (registry : Registry) (request : Request) : Except Fault Operation :=
  match request with
  | .exactly operation =>
    if (registry.spec? operation).isSome then .ok operation
    else .error (registry.notFound request)
  | .named name =>
    match registry.owner? (key name) with
    | some operation => .ok operation
    | none => .error (registry.notFound request)

/-- The spec of the operation that a request asks for. -/
def find (registry : Registry) (request : Request) : Except Fault Spec := do
  let operation ← registry.resolve request
  match registry.spec? operation with
  | some spec => .ok spec
  | none => .error (registry.notFound request)

/-! ### Changes -/

/-- The names under which a spec is registered. -/
def namesOf (spec : Spec) (aliases : List Text) : List Text :=
  spec.operation.name.toList :: spec.routine.toList :: aliases

/-- The first of some names that stands for another operation. -/
def conflict? (registry : Registry) (operation : Operation) (names : List Text) :
    Option (Text × Operation) :=
  names.findSome? fun name =>
    (registry.owner? (key name)).bind fun owner =>
      if owner = operation then none else some (name, owner)

/-- Names with a key for an operation, whatever it stood for before. -/
def assign (operation : Operation) (names : List (Text × Operation)) (key : Text) :
    List (Text × Operation) :=
  (key, operation) :: names.filter fun entry => entry.1 ≠ key

/-- A registry with one more spec and its names. An operation that is registered
    already stays as it is, unless it is to be replaced. -/
def register (registry : Registry) (spec : Spec) (aliases : List Text) (replace : Bool) :
    Except Fault Registry :=
  if (registry.spec? spec.operation).isSome && !replace then .ok registry
  else match registry.conflict? spec.operation (namesOf spec aliases) with
    | some (name, owner) => .error (.taken name owner)
    | none => .ok {
        specs := spec :: registry.specs.filter fun other => other.operation ≠ spec.operation
        names := ((namesOf spec aliases).map key).foldl (assign spec.operation) registry.names }

/-- A registry without an operation and its names. -/
def unregister (registry : Registry) (operation : Operation) : Registry where
  specs := registry.specs.filter fun spec => spec.operation ≠ operation
  names := registry.names.filter fun entry => entry.2 ≠ operation

end Registry

end EnumCompanion
