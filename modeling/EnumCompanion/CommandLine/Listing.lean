import EnumCompanion.Code.Fragment
import EnumCompanion.CommandLine.Screen

/-!
# Listings

What the program shows about operations, enums and generated code.

* `operationsListing`: the operations, and how to start;
* `enumsTable`: the enums of a source;
* `fragmentsListing`: what is known about generated code;
* `warningsListing`: the warnings on generated code.
-/

namespace EnumCompanion

namespace CommandLine

/-! ### Operations -/

/-- The names of an operation, or that it has none but its own. -/
def aliasesCell (aliases : List Text) : String :=
  if aliases = [] then "[dim]none[/dim]" else Text.listing aliases

/-- The row of an operation. -/
def operationRow (registry : Registry) (spec : Spec) : List String :=
  [s!"🔧 {spec.operation.name}", spec.suffix, spec.description,
    aliasesCell (registry.aliases spec.operation)]

/-- The table of the operations of a registry. -/
def operationsTable (registry : Registry) : Item :=
  .table "📋 Supported Operations" ["Operation", "Container Suffix", "Description", "Aliases"]
    ((registry.operations.filterMap registry.spec?).map (operationRow registry))

/-- How to start. -/
def quickStart : Item :=
  .panel "💡 Quick Start"
    ("[bold]Usage:[/bold] dart-enum-explorer [dim]file.dart[/dim] -g [cyan]OPERATION[/cyan]\n" ++
      "[bold]Write:[/bold] dart-enum-explorer [dim]file.dart[/dim] --all --write")

/-- The operations of a registry, and how to start. -/
def operationsListing (registry : Registry) : List Item :=
  [.line "", operationsTable registry, .line "", quickStart]

/-! ### Enums -/

/-- The number of the line of an enum, counted from one. -/
def lineCell (e : Enumeration) : String :=
  e.span.elim "?" fun span => toString (span.first.line + 1)

/-- The table of the enums of a source. -/
def enumsTable (description : Text) (enums : List Enumeration) : Item :=
  .table s!"🔎 Enums in {description.str}" ["Enum", "Line", "Values"]
    (enums.map fun e => [e.name.str, lineCell e, Text.listing e.values])

/-! ### Generated code -/

/-- A truth value as a cell. -/
def truthCell (value : Bool) : String := if value then "True" else "False"

/-- The row of a fragment. -/
def fragmentRow (fragment : Fragment) : List String :=
  [fragment.enum.str, fragment.operation.name, fragment.container.str, toString fragment.count,
    truthCell fragment.hasRepeats]

/-- What is known about fragments. -/
def fragmentsListing (fragments : List Fragment) : List Item :=
  [.line "",
    .table "📊 Generation Metadata"
      ["Enum", "Operation", "Container", "Value Count", "Has Duplicates"]
      (fragments.map fragmentRow)]

/-- The warnings on fragments, each once. -/
def warningsOf (fragments : List Fragment) : List String :=
  (fragments.flatMap fun fragment => fragment.warnings.map Warning.message).eraseDups

/-- Warnings, if there are any. -/
def warningsListing (warnings : List String) : List Item :=
  if warnings = [] then []
  else .line "\n[yellow]⚠️  Warnings:[/yellow]" ::
    warnings.map (fun warning => .line s!"  [yellow]•[/yellow] {warning}") ++ [.line ""]

end CommandLine

end EnumCompanion
