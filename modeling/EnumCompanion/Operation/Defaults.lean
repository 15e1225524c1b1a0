import EnumCompanion.Operation.Registry

/-!
# The built-in registry

All operations, with the names by which users know them.
-/

namespace EnumCompanion

namespace Operation

/-- The kind of the action for an operation. -/
def actionKind (name : String) : String := "refactor.dart-enum." ++ name

/-- The default spec of an operation. -/
def defaultSpec : Operation → Spec
  | when =>
    ⟨when, "when()", "WhenMethod", actionKind "when", when.routine, "when.dart",
      "Exhaustive dispatch with a required callback per value"⟩
  | maybeWhen =>
    ⟨maybeWhen, "maybeWhen()", "MaybeWhenMethod", actionKind "maybeWhen", maybeWhen.routine,
      "maybe_when.dart", "Partial dispatch with optional callbacks and a required orElse"⟩
  | whenOrNull =>
    ⟨whenOrNull, "whenOrNull()", "WhenOrNullMethod", actionKind "whenOrNull", whenOrNull.routine,
      "when_or_null.dart", "Partial dispatch returning null for missing callbacks"⟩
  | map =>
    ⟨map, "map()", "MapMethod", actionKind "map", map.routine, "map.dart",
      "Exhaustive void dispatch"⟩
  | maybeMap =>
    ⟨maybeMap, "maybeMap()", "MaybeMapMethod", actionKind "maybeMap", maybeMap.routine,
      "maybe_map.dart", "Partial void dispatch"⟩
  | mapWithValues =>
    ⟨mapWithValues, "mapWithValues()", "MapWithValuesMethod", actionKind "mapWithValues",
      mapWithValues.routine, "map_with_values.dart",
      "Static map literal from value names to caller-supplied values"⟩
  | getters =>
    ⟨getters, "'is' getters", "Getters", actionKind "getters", getters.routine, "getters.dart",
      "One boolean isValue getter per value"⟩
  | extension =>
    ⟨extension, "enum extension", "X", actionKind "extension", extension.routine, "extension.dart",
      "Getters, when, maybeWhen and whenOrNull in one extension"⟩

/-- The default names of an operation beside its own and that of its routine. -/
def defaultAliases : Operation → List Text
  | getters => ["is".toList, "is-getters".toList]
  | mapWithValues => ["to-map-with-values".toList]
  | extension => ["ext".toList]
  | _ => []

end Operation

/-- A registry with the default spec of an operation, if no name of it is
    taken. -/
def Registry.withDefault (registry : Registry) (operation : Operation) : Registry :=
  ((registry.register operation.defaultSpec operation.defaultAliases false).toOption).getD registry

/-- The registry of all operations. -/
def Registry.builtIn : Registry := Operation.all.foldl Registry.withDefault Registry.empty

end EnumCompanion
