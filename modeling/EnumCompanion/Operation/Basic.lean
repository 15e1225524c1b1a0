/-!
# Operations

The *operations* are the kinds of companion code: methods that dispatch on the
values of an enum, a map literal, getters, and the extension that bundles the
most useful of them.

* `Operation.all`: the operations in the order of their declaration;
* `Operation.mem_all`: there are no others.
-/

namespace EnumCompanion

/-- A kind of companion code. -/
inductive Operation where
  /-- Exhaustive dispatch. -/
  | when
  /-- Partial dispatch with a fallback. -/
  | maybeWhen
  /-- Partial dispatch without one. -/
  | whenOrNull
  /-- Exhaustive dispatch without a result. -/
  | map
  /-- Partial dispatch without a result. -/
  | maybeMap
  /-- A map from the names of the values. -/
  | mapWithValues
  /-- A getter for each value. -/
  | getters
  /-- An extension with several of these. -/
  | extension
  deriving DecidableEq

namespace Operation

/-- The operations, in the order of their declaration. -/
def all : List Operation :=
  [when, maybeWhen, whenOrNull, map, maybeMap, mapWithValues, getters, extension]

theorem mem_all (operation : Operation) : operation ∈ all := by cases operation <;> decide

/-- The name of an operation. -/
def name : Operation → String
  | when => "when"
  | maybeWhen => "maybe_when"
  | whenOrNull => "when_or_null"
  | map => "map"
  | maybeMap => "maybe_map"
  | mapWithValues => "map_with_values"
  | getters => "getters"
  | extension => "extension"

/-- The name of an operation as one of its kind. -/
def label : Operation → String
  | when => "OperationKind.WHEN"
  | maybeWhen => "OperationKind.MAYBE_WHEN"
  | whenOrNull => "OperationKind.WHEN_OR_NULL"
  | map => "OperationKind.MAP"
  | maybeMap => "OperationKind.MAYBE_MAP"
  | mapWithValues => "OperationKind.MAP_WITH_VALUES"
  | getters => "OperationKind.GETTERS"
  | extension => "OperationKind.EXTENSION"

/-- The operation of a name. -/
def ofName? (name : String) : Option Operation := all.find? fun operation => operation.name == name

/-- The name of the routine that generates an operation. -/
def routine : Operation → String
  | when => "when_method"
  | maybeWhen => "maybe_when_method"
  | whenOrNull => "when_or_null_method"
  | map => "map_method"
  | maybeMap => "maybe_map_method"
  | mapWithValues => "map_with_values_method"
  | getters => "getter_methods"
  | extension => "extension_block"

/-- The operation that a routine generates. -/
def ofRoutine? (routine : String) : Option Operation :=
  all.find? fun operation => operation.routine == routine

theorem ofRoutine?_routine (operation : Operation) :
    ofRoutine? operation.routine = some operation := by
  cases operation <;> decide

end Operation

end EnumCompanion
