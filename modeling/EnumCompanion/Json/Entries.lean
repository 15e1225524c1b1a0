import EnumCompanion.Json.Writer

/-!
# Entries

*Entries* are values under keys, in the order in which the keys were first given.
A key is a value that holds no others. Keys that are equal are one key, whatever
kind of number they are, and as the name of a field a key that is no string is
written as JSON.

Where entries are wanted, fields or a list of pairs will do: each pair is a key
and its value. A string of two characters is a pair of them, and an object with
two fields a pair of their names.

* `Json.elements?`: the elements of a value;
* `Json.entries`: the entries that a value gives;
* `Entries.overlay`: entries overlaid by others;
* `Entries.fields`: entries as fields.
-/

namespace EnumCompanion.Json

/-- Values under keys. -/
abbrev Entries := List (Json × Json)

namespace Entries

/-- The value of a key. -/
def lookup (entries : Entries) (key : Json) : Option Json :=
  (entries.find? fun entry => Json.same entry.1 key).map Prod.snd

/-- Entries with a value for a key: in its place, or at the end if it is new. A
    key that is there stays as it is. -/
def put (entries : Entries) (key value : Json) : Entries :=
  match entries with
  | [] => [(key, value)]
  | entry :: rest =>
    if Json.same entry.1 key then (entry.1, value) :: rest else entry :: put rest key value

/-- Entries overlaid by others. -/
def overlay (entries more : Entries) : Entries :=
  more.foldl (fun acc entry => put acc entry.1 entry.2) entries

/-- Whether two lists of entries give equal values to equal keys. -/
def same (a b : Entries) : Bool :=
  a.length == b.length && a.all fun (key, value) => (lookup b key).any (Json.same value)

/-! ### Fields -/

/-- The entries that fields are. -/
def ofFields (fields : List (String × Json)) : Entries :=
  fields.map fun (name, value) => (.string name, value)

/-- The name of a field for a key. -/
def nameOf : Json → String
  | string name => name
  | key => key.compact.str

/-- Entries as fields. Different keys may have one name. -/
def fields (entries : Entries) : List (String × Json) :=
  entries.map fun (key, value) => (nameOf key, value)

theorem fields_ofFields (fields : List (String × Json)) : (ofFields fields).fields = fields := by
  simp [ofFields, Entries.fields, nameOf, Function.comp_def]

theorem same_string (a b : String) : Json.same (.string a) (.string b) = (a == b) := by
  simp [Json.same]

theorem lookup_ofFields (fields : List (String × Json)) (name : String) :
    (ofFields fields).lookup (.string name) = Json.lookup fields name := by
  simp only [lookup, Json.lookup, ofFields, List.find?_map, Option.map_map, Function.comp_def,
    same_string]

theorem put_ofFields (fields : List (String × Json)) (name : String) (value : Json) :
    (ofFields fields).put (.string name) value = ofFields (Json.put fields name value) := by
  induction fields with
  | nil => rfl
  | cons field rest ih =>
    simp only [ofFields, List.map_cons, put, Json.put, same_string, beq_iff_eq] at ih ⊢
    split
    · next h => simp [h]
    · simp [ih]

theorem overlay_ofFields (fields more : List (String × Json)) :
    (ofFields fields).overlay (ofFields more) = ofFields (Json.overlay fields more) := by
  induction more generalizing fields with
  | nil => rfl
  | cons field rest ih =>
    have step : (ofFields fields).overlay (ofFields (field :: rest)) =
        ((ofFields fields).put (.string field.1) field.2).overlay (ofFields rest) := rfl
    rw [step, put_ofFields, ih]
    rfl

end Entries

/-! ### Pairs -/

/-- What keeps a value from giving entries. -/
inductive EntriesFault where
  /-- A value of the type has no elements. -/
  | noElements (type : String)
  /-- An element has no elements. -/
  | notSequence (index : Nat)
  /-- An element has another number of elements than two. -/
  | notPair (index count : Nat)
  /-- A value of the type is no key. -/
  | notKey (type : String)
  deriving DecidableEq

/-- The wording of a fault. -/
def EntriesFault.message : EntriesFault → String
  | noElements type => s!"'{type}' object is not iterable"
  | notSequence index =>
    s!"cannot convert dictionary update sequence element #{index} to a sequence"
  | notPair index count =>
    s!"dictionary update sequence element #{index} has length {count}; 2 is required"
  | notKey type => s!"unhashable type: '{type}'"

/-- The elements of a value: those of a list, the characters of a string, the
    names of fields. -/
def elements? : Json → Option (List Json)
  | array values => some values
  | string value => some (value.toList.map fun c => string (String.ofList [c]))
  | object fields => some (fields.map fun field => string field.1)
  | _ => none

/-- Whether a value can be a key: it holds no others. -/
def isKey : Json → Bool
  | array _ | object _ => false
  | _ => true

/-- The entry that an element gives. -/
def entry (index : Nat) (element : Json) : Except EntriesFault (Json × Json) :=
  match element.elements? with
  | none => .error (.notSequence index)
  | some [key, value] => if key.isKey then .ok (key, value) else .error (.notKey key.typeWord)
  | some values => .error (.notPair index values.length)

/-- Entries overlaid by those that elements give. -/
def overlayElements (entries : Entries) (index : Nat) : List Json → Except EntriesFault Entries
  | [] => .ok entries
  | element :: rest => do
    let (key, value) ← entry index element
    overlayElements (entries.put key value) (index + 1) rest

/-- The entries that a value gives. -/
def entries : Json → Except EntriesFault Entries
  | object fields => .ok (.ofFields fields)
  | value =>
    match value.elements? with
    | none => .error (.noElements value.typeWord)
    | some elements => overlayElements [] 0 elements

end EnumCompanion.Json
