import EnumCompanion.Json.Entries
import EnumCompanion.Json.Reader
import EnumCompanion.Storage.Basic
import EnumCompanion.Text.Identifier

/-!
# Settings

What a user may change about the generated code. Settings come in layers of
named fields: the defaults, a file and overrides. A later layer replaces the
fields of an earlier one, but suffixes of operations are joined one by one.
Fields may hold any JSON, and what is unfit shows only where it is used; fields
with other names are kept under *custom*.

* `Settings.layer`: fields overlaid by those of a later layer;
* `Settings.ofFields`: the settings that fields give;
* `Settings.ofLayers`: the settings from a file and overrides;
* `Settings.toEntries`: the entries that give settings;
* `Settings.warnings`: what about settings may not be meant.
-/

namespace EnumCompanion

open Json Text

/-- Custom fields. -/
inductive Custom where
  /-- As they were given, in any form. -/
  | raw (value : Json)
  /-- Joined with others. -/
  | joined (entries : Json.Entries)

/-- What a user may change. -/
structure Settings where
  /-- What the name of the extension that bundles members ends with. -/
  extensionSuffix : Json := .string "X"
  /-- What the names of containers end with, by the names of operations. -/
  operationSuffixes : List (String × Json) := []
  /-- Whether an enum may repeat a value. -/
  allowRepeats : Json := .bool false
  /-- Whether a line feed follows an inserted block. -/
  trailingNewline : Json := .bool true
  /-- Other fields. -/
  custom : Custom := .raw (.object [])

namespace Custom

/-- The keys of custom fields, if their form has any. -/
def keys? : Custom → Option (List Json)
  | raw value => value.elements?
  | joined entries => some (entries.map Prod.fst)

/-- Custom fields as entries. -/
def entries : Custom → Except Json.EntriesFault Json.Entries
  | raw value => value.entries
  | joined entries => .ok entries

/-- The entries of custom fields that have keys and values already. -/
def table? : Custom → Option Json.Entries
  | raw (.object fields) => some (.ofFields fields)
  | raw _ => none
  | joined entries => some entries

/-- Custom fields as a value. -/
def value : Custom → Json
  | raw value => value
  | joined entries => .object entries.fields

/-- Whether two lots of custom fields are equal. -/
def same : Custom → Custom → Bool
  | raw a, raw b => Json.same a b
  | a, b =>
    match a.table?, b.table? with
    | some entries, some others => entries.same others
    | _, _ => false

end Custom

namespace Settings

/-- What is wrong with settings. -/
inductive Fault where
  /-- There is no file. -/
  | notFound (path : Path)
  /-- The file is not called like one of JSON. -/
  | otherSuffix (path : Path)
  /-- The file is not JSON. -/
  | notJson (path : Path) (refusal : Json.Refusal)
  /-- The file cannot be read. -/
  | unreadable (path : Path) (fault : Storage.Fault)
  /-- The file holds no object. -/
  | notObject (path : Path)
  /-- The file cannot be written. -/
  | unwritable (path : Path) (fault : Storage.Fault)
  /-- The suffixes of operations are no object. -/
  | suffixesNotObject
  /-- The suffixes of operations cannot be joined with a value of the type. -/
  | notJoinable (type : String)
  /-- The custom fields are no fields. -/
  | noFields (fault : Json.EntriesFault)
  /-- A suffix is a value of the type instead of a string. -/
  | notString (type : String)
  /-- The file is not UTF-8. -/
  | notUtf8 (fault : Utf8.Fault)
  /-- The file is JSON beyond the limits of a reader. -/
  | beyondLimit (flaw : Json.Flaw)
  /-- The name of the file cannot be that of a file. -/
  | badName (path : Path) (fault : Storage.Fault)

/-- Whether a fault is one of those that settings declare. -/
def Fault.isDeclared : Fault → Bool
  | notFound _ | otherSuffix _ | notJson _ _ | unreadable _ _ | notObject _ | unwritable _ _
  | suffixesNotObject => true
  | notJoinable _ | noFields _ | notString _ | notUtf8 _ | beyondLimit _ | badName _ _ => false

/-- The wording of a fault. -/
def Fault.message : Fault → String
  | notFound path => s!"Configuration file not found: {path.shown.str}"
  | otherSuffix path => s!"Configuration file must be JSON: {path.shown.str}"
  | notJson path refusal =>
    s!"Invalid JSON in configuration file {path.shown.str}: {refusal.message}"
  | unreadable path fault =>
    s!"Failed to load configuration file {path.shown.str}: {fault.message path}"
  | notObject path => s!"Configuration file must contain a JSON object: {path.shown.str}"
  | unwritable path fault =>
    s!"Failed to save configuration to {path.shown.str}: {fault.message path}"
  | suffixesNotObject => "operation_suffixes must be a JSON object"
  | notJoinable type => s!"'{type}' object has no attribute 'update'"
  | noFields fault => fault.message
  | notString type => s!"expected string or bytes-like object, got '{type}'"
  | notUtf8 fault => fault.message
  | beyondLimit flaw => flaw.wording
  | badName path fault => fault.message path

/-! ### Layers -/

/-- The name of the field with the suffixes of operations. -/
def suffixesName : String := "operation_suffixes"

/-- The name of the field with custom fields. -/
def customName : String := "custom"

/-- The fields of the settings but for the custom ones. -/
def coreFields (settings : Settings) : List (String × Json) :=
  [("extension_suffix", settings.extensionSuffix),
    (suffixesName, .object settings.operationSuffixes),
    ("allow_duplicate_values", settings.allowRepeats),
    ("add_trailing_newline", settings.trailingNewline)]

/-- The names of the fields that settings know. -/
def knownNames : List String :=
  ["extension_suffix", suffixesName, "allow_duplicate_values", "add_trailing_newline", customName]

/-- The fields of the defaults. -/
def defaults : List (String × Json) := coreFields {}

/-- The value of a field, or another one if there is none. -/
def fieldOr (fields : List (String × Json)) (name : String) (value : Json) : Json :=
  (lookup fields name).getD value

/-- Fields with one field of a later layer. -/
def layerField (fields : List (String × Json)) (field : String × Json) :
    Except Fault (List (String × Json)) :=
  match field with
  | (name, .object more) =>
    if name = suffixesName then
      match fieldOr fields name (.object []) with
      | .object given => .ok (put fields name (.object (overlay given more)))
      | value => .error (.notJoinable value.typeWord)
    else .ok (put fields name (.object more))
  | (name, value) => .ok (put fields name value)

/-- Fields overlaid by those of a later layer. -/
def layer (fields later : List (String × Json)) : Except Fault (List (String × Json)) :=
  later.foldlM layerField fields

/-- The fields with names that settings do not know. -/
def unknownFields (fields : List (String × Json)) : List (String × Json) :=
  fields.filter fun field => field.1 ∉ knownNames

/-- The custom fields: those given as such, overlaid by the unknown ones. Where
    there are no unknown ones, those given are not looked at. -/
def customOf (fields : List (String × Json)) : Except Fault Custom :=
  let given := fieldOr fields customName (.object [])
  match unknownFields fields with
  | [] => .ok (.raw given)
  | unknown => (given.entries.mapError Fault.noFields).map fun custom =>
      .joined (custom.overlay (.ofFields unknown))

/-- The settings that fields give. -/
def ofFields (fields : List (String × Json)) : Except Fault Settings := do
  let custom ← customOf fields
  match fieldOr fields suffixesName (.object []) with
  | .object operationSuffixes => .ok {
      extensionSuffix := fieldOr fields "extension_suffix" (.string "X")
      operationSuffixes
      allowRepeats := fieldOr fields "allow_duplicate_values" (.bool false)
      trailingNewline := fieldOr fields "add_trailing_newline" (.bool true)
      custom }
  | _ => .error .suffixesNotObject

/-- The settings from the fields of a file and from overrides. -/
def ofLayers (file overrides : List (String × Json)) : Except Fault Settings := do
  ofFields (← layer (← layer defaults file) overrides)

/-- The entries that give settings, custom ones among them. -/
def toEntries (settings : Settings) : Except Fault Entries :=
  (settings.custom.entries.mapError Fault.noFields).map
    (Entries.ofFields settings.coreFields).overlay

/-- Whether two settings are equal. -/
def same (a b : Settings) : Bool :=
  Json.same a.extensionSuffix b.extensionSuffix &&
    Json.same (.object a.operationSuffixes) (.object b.operationSuffixes) &&
    Json.same a.allowRepeats b.allowRepeats && Json.same a.trailingNewline b.trailingNewline &&
    a.custom.same b.custom

/-! ### Warnings -/

/-- What about settings may not be meant. -/
inductive Warning where
  /-- The suffix of the bundling extension is empty. -/
  | emptySuffix
  /-- The suffix of the bundling extension does not extend a name. -/
  | badExtensionSuffix (suffix : Json)
  /-- The suffix of an operation is empty or does not extend a name. -/
  | badSuffix (operation : String) (suffix : Json)
  /-- A field is not known. -/
  | unknownField (name : Json)

/-- The wording of a warning. -/
def Warning.message : Warning → String
  | emptySuffix => "extension_suffix is empty; the extension would shadow the enum name"
  | badExtensionSuffix suffix => s!"Invalid extension_suffix: {suffix.display.str}"
  | badSuffix operation suffix => s!"Invalid suffix for {operation}: {suffix.shown.str}"
  | unknownField name => s!"Unknown configuration key: {name.display.str}"

/-- Whether a suffix extends a name. -/
def extendsName : Json → Except Fault Bool
  | .string suffix => .ok (isNameFragment suffix.toList)
  | value => .error (.notString value.typeWord)

/-- The warnings on the suffix of the bundling extension. -/
def extensionWarnings (suffix : Json) : Except Fault (List Warning) :=
  if suffix.isTruthy then
    (extendsName suffix).map fun fits => if fits then [] else [.badExtensionSuffix suffix]
  else .ok [.emptySuffix]

/-- The warnings on the suffix of an operation. -/
def suffixWarnings (operation : String) (suffix : Json) : Except Fault (List Warning) :=
  if suffix.isTruthy then
    (extendsName suffix).map fun fits => if fits then [] else [.badSuffix operation suffix]
  else .ok [.badSuffix operation suffix]

/-- The warnings on custom fields. -/
def customWarnings (custom : Custom) : Except Fault (List Warning) :=
  match custom.keys? with
  | some keys => .ok (keys.map .unknownField)
  | none => .error (.noFields (.noElements custom.value.typeWord))

/-- The warnings on settings. -/
def warnings (settings : Settings) : Except Fault (List Warning) := do
  let onExtension ← extensionWarnings settings.extensionSuffix
  let onSuffixes ← settings.operationSuffixes.mapM fun (name, suffix) => suffixWarnings name suffix
  let onCustom ← customWarnings settings.custom
  return onExtension ++ onSuffixes.flatten ++ onCustom

end Settings

end EnumCompanion
