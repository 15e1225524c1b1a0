import EnumCompanion.Proofs.Json.Distinct
import EnumCompanion.Proofs.Settings.Layers
import Mathlib

/-!
# The union of layers

Two layers are one: their *union*, in which later fields count and the suffixes of
operations are joined. Settings that are loaded from a file with overrides are thus
those of one layer, and what they hold is found by the name of each field.

* `union`, `lookup_union`, `union_assoc`: the union of fields;
* `layer_eq_union`: a layer over fields with suffixes that it can be joined with;
* `Holds`: what settings hold of the values that are given;
* `load_eq_load_union`: a file and overrides are their union.
-/

namespace EnumCompanion.Settings

open Json Journal

variable {first second fields : List (String × Json)} {name : String} {value : Json}

/-! ### Fields that are objects -/

/-- The fields of an object that is given, and none for anything else. -/
def objectFields : Option Json → List (String × Json)
  | some (.object fields) => fields
  | _ => []

/-- The suffixes of operations among fields. -/
def suffixesIn (fields : List (String × Json)) : List (String × Json) :=
  objectFields (lookup fields suffixesName)

/-- A value is an object if it is given. -/
def IsObjectIfGiven (value? : Option Json) : Prop :=
  ∀ value, value? = some value → ∃ fields, value = .object fields

/-- The fields that settings know as objects are objects if they are given. -/
structure HasObjects (fields : List (String × Json)) : Prop where
  suffixes : IsObjectIfGiven (lookup fields suffixesName)
  custom : IsObjectIfGiven (lookup fields customName)

theorem isObjectIfGiven_none : IsObjectIfGiven none := nofun

theorem isObjectIfGiven_some : IsObjectIfGiven (some value) ↔ ∃ fields, value = .object fields :=
  ⟨fun h => h value rfl, fun h _ hvalue => Option.some.inj hvalue ▸ h⟩

theorem exists_of_not_isObjectIfGiven {value? : Option Json} (h : ¬IsObjectIfGiven value?) :
    ∃ value, value? = some value ∧ ∀ fields, value ≠ .object fields := by
  rw [IsObjectIfGiven] at h
  push Not at h
  exact h

theorem IsObjectIfGiven.getD_eq {value? : Option Json} (h : IsObjectIfGiven value?) :
    value?.getD (.object []) = .object (objectFields value?) := by
  cases value? with
  | none => rfl
  | some value =>
    obtain ⟨fields, rfl⟩ := h value rfl
    rfl

theorem IsObjectIfGiven.or {value? other? : Option Json} (h : IsObjectIfGiven value?)
    (hother : IsObjectIfGiven other?) : IsObjectIfGiven (value?.or other?) := by
  cases value? with
  | none => exact hother
  | some value => exact h

theorem isProper_objectFields (h : (Json.object fields).IsProper) (name : String) :
    (Json.object (objectFields (lookup fields name))).IsProper := by
  cases hlookup : lookup fields name with
  | none => exact .empty
  | some value =>
    cases value with
    | object given => exact h.of_lookup hlookup
    | _ => exact .empty

theorem isProper_suffixesIn (h : (Json.object fields).IsProper) :
    (Json.object (suffixesIn fields)).IsProper :=
  isProper_objectFields h suffixesName

/-! ### The union of fields -/

/-- The value that suffixes of operations have after a later one: an object is
    joined with them. -/
def joined (given : List (String × Json)) : Json → Json
  | .object more => .object (overlay given more)
  | value => value

/-- The value of a later field, joined with suffixes of operations if it is one of
    these. -/
def joinedField (given : List (String × Json)) (name : String) (value : Json) : Json :=
  if name = suffixesName then joined given value else value

/-- Fields overlaid by later ones, where the suffixes of operations are joined. -/
def union (first second : List (String × Json)) : List (String × Json) :=
  overlay first (mapValues (joinedField (suffixesIn first)) second)

/-- The value that is given last under a name. -/
def lastGiven (first second : List (String × Json)) (name : String) : Option Json :=
  (lookup second name).or (lookup first name)

theorem nodup_union (h : (names first).Nodup) (second : List (String × Json)) :
    (names (union first second)).Nodup :=
  nodup_overlay h _

theorem lookup_union (hsecond : (names second).Nodup) (name : String) :
    lookup (union first second) name =
      ((lookup second name).map (joinedField (suffixesIn first) name)).or (lookup first name) := by
  rw [union, lookup_overlay (by rwa [names_mapValues]), lookup_mapValues]

/-- Fields other than the suffixes of operations are those that are given last. -/
theorem lookup_union_of_ne (hsecond : (names second).Nodup) (hname : name ≠ suffixesName) :
    lookup (union first second) name = lastGiven first second name := by
  have hsame : joinedField (suffixesIn first) name = id :=
    funext fun value => if_neg hname
  rw [lookup_union hsecond, hsame, Option.map_id_fun, id, lastGiven]

theorem lookup_union_suffixesName (hsecond : (names second).Nodup) :
    lookup (union first second) suffixesName =
      ((lookup second suffixesName).map (joined (suffixesIn first))).or
        (lookup first suffixesName) := by
  have hjoined : joinedField (suffixesIn first) suffixesName = joined (suffixesIn first) :=
    funext fun value => if_pos rfl
  rw [lookup_union hsecond, hjoined]

/-- Suffixes of operations are overlaid by later ones. -/
theorem suffixesIn_union (hsecond : (names second).Nodup)
    (hobject : IsObjectIfGiven (lookup second suffixesName)) :
    suffixesIn (union first second) = overlay (suffixesIn first) (suffixesIn second) := by
  rw [suffixesIn, lookup_union_suffixesName hsecond, suffixesIn, suffixesIn]
  cases hlater : lookup second suffixesName with
  | none => rfl
  | some value =>
    obtain ⟨more, rfl⟩ := hobject value hlater
    rfl

/-- Joined suffixes are an object if the later ones are. -/
theorem exists_joined_eq_object_iff {given : List (String × Json)} :
    (∃ fields, joined given value = .object fields) ↔ ∃ fields, value = .object fields := by
  cases value with
  | object more => exact iff_of_true ⟨_, rfl⟩ ⟨more, rfl⟩
  | _ => exact Iff.rfl

/-- The suffixes of a union are an object if those given last are. -/
theorem isObjectIfGiven_union (hsecond : (names second).Nodup) :
    IsObjectIfGiven (lookup (union first second) suffixesName) ↔
      IsObjectIfGiven (lastGiven first second suffixesName) := by
  rw [lookup_union_suffixesName hsecond, lastGiven]
  cases lookup second suffixesName with
  | none => exact Iff.rfl
  | some value =>
    rw [Option.map_some, Option.some_or, Option.some_or, isObjectIfGiven_some,
      isObjectIfGiven_some, exists_joined_eq_object_iff]

theorem HasObjects.union (hfirst : HasObjects first) (hsecond : HasObjects second)
    (hnodup : (names second).Nodup) : HasObjects (union first second) := by
  refine ⟨(isObjectIfGiven_union hnodup).2 (hsecond.suffixes.or hfirst.suffixes), ?_⟩
  rw [lookup_union_of_ne hnodup (by decide)]
  exact hsecond.custom.or hfirst.custom

theorem isProper_joinedField {given : List (String × Json)} (hgiven : (Json.object given).IsProper)
    (hvalue : value.IsProper) (name : String) : (joinedField given name value).IsProper := by
  unfold joinedField joined
  split_ifs
  · split
    · exact hgiven.overlay hvalue.of_mem_fields
    · exact hvalue
  · exact hvalue

/-- The union of proper fields is proper. -/
theorem isProper_union (hfirst : (Json.object first).IsProper)
    (hsecond : (Json.object second).IsProper) : (Json.object (union first second)).IsProper := by
  refine hfirst.overlay fun field hfield => ?_
  obtain ⟨later, hlater, rfl⟩ := List.mem_map.1 hfield
  exact isProper_joinedField (isProper_suffixesIn hfirst) (hsecond.of_mem_fields later hlater) _

theorem joined_joined (hgiven : (names second).Nodup) (first : List (String × Json)) (value : Json) :
    joined first (joined second value) = joined (overlay first second) value := by
  cases value with
  | object more => exact congrArg Json.object (overlay_overlay hgiven first more).symm
  | _ => rfl

/-- A layer may be joined with the one before it or with the one after it. -/
theorem union_assoc (hsecond : (Json.object second).IsProper)
    (hobject : IsObjectIfGiven (lookup second suffixesName)) (first third : List (String × Json)) :
    union (union first second) third = union first (union second third) := by
  have hvalues : mapValues (joinedField (suffixesIn first))
      (mapValues (joinedField (suffixesIn second)) third) =
        mapValues (joinedField (suffixesIn (union first second))) third := by
    rw [suffixesIn_union hsecond.nodup_names hobject, mapValues, mapValues, mapValues, List.map_map]
    refine List.map_congr_left fun field _ => Prod.ext rfl ?_
    change joinedField _ field.1 (joinedField _ field.1 field.2) = joinedField _ field.1 field.2
    unfold joinedField
    split_ifs
    · exact joined_joined (isProper_suffixesIn hsecond).nodup_names _ _
    · rfl
  rw [union, ← hvalues, union, overlay_overlay (by rw [names_mapValues]; exact hsecond.nodup_names),
    ← mapValues_overlay]
  rfl

/-! ### Layers -/

/-- Suffixes of operations of a later layer can be joined: if these are an object,
    so are those that are given. -/
def Joinable (first second : List (String × Json)) : Prop :=
  (∃ more, lookup second suffixesName = some (.object more)) →
    IsObjectIfGiven (lookup first suffixesName)

theorem union_cons (first : List (String × Json)) (field : String × Json)
    (rest : List (String × Json)) :
    union first (field :: rest) =
      overlay (put first field.1 (joinedField (suffixesIn first) field.1 field.2))
        (mapValues (joinedField (suffixesIn first)) rest) := rfl

/-- Other fields leave the suffixes of operations. -/
theorem suffixesIn_put (hname : name ≠ suffixesName) (fields : List (String × Json))
    (value : Json) : suffixesIn (put fields name value) = suffixesIn fields := by
  rw [suffixesIn, lookup_put, if_neg hname, suffixesIn]

theorem mapValues_joinedField (h : suffixesName ∉ names second) (given : List (String × Json)) :
    mapValues (joinedField given) second = second := by
  have hsame : mapValues (joinedField given) second = second.map id :=
    List.map_congr_left fun field hfield => Prod.ext rfl <|
      if_neg fun hname : field.1 = suffixesName => h (hname ▸ List.mem_map_of_mem hfield)
  exact hsame.trans (List.map_id second)

theorem layerField_suffixes
    (h : (∃ more, value = .object more) → IsObjectIfGiven (lookup first suffixesName)) :
    layerField first (suffixesName, value) =
      .ok (put first suffixesName (joined (suffixesIn first) value)) := by
  cases value with
  | object more =>
    rw [layerField, if_pos rfl, fieldOr, (h ⟨more, rfl⟩).getD_eq]
    rfl
  | _ => rfl

/-- A layer over fields is their union. -/
theorem layer_eq_union (hsecond : (names second).Nodup) (hjoin : Joinable first second) :
    layer first second = .ok (union first second) := by
  induction second generalizing first with
  | nil => rfl
  | cons field rest ih =>
    obtain ⟨name, value⟩ := field
    obtain ⟨hfield, hrest⟩ := List.nodup_cons.1 hsecond
    rw [layer_cons, union_cons]
    by_cases hname : name = suffixesName
    · subst hname
      have hgiven : (∃ more, value = .object more) →
          IsObjectIfGiven (lookup first suffixesName) :=
        fun ⟨more, hmore⟩ => hjoin ⟨more, by rw [lookup_cons, if_pos rfl, hmore]⟩
      rw [layerField_suffixes hgiven, ok_bind, layer_eq_overlay hfield,
        mapValues_joinedField hfield, joinedField, if_pos rfl]
    · have hjoin' : Joinable (put first name value) rest := by
        intro hmore
        rw [lookup_put, if_neg hname]
        exact hjoin (by rwa [lookup_cons, if_neg hname])
      rw [layerField_eq_put hname, ok_bind, ih hrest hjoin', union, suffixesIn_put hname,
        joinedField, if_neg hname]

/-- Suffixes that cannot be joined are a fault. -/
theorem exists_notJoinable (hjoin : ¬Joinable first second) (hsecond : (names second).Nodup) :
    ∃ type, layer first second = .error (.notJoinable type) := by
  induction second generalizing first with
  | nil => exact absurd (fun ⟨more, hmore⟩ => nomatch hmore) hjoin
  | cons field rest ih =>
    obtain ⟨name, value⟩ := field
    obtain ⟨hfield, hrest⟩ := List.nodup_cons.1 hsecond
    rw [layer_cons]
    by_cases hname : name = suffixesName
    · subst hname
      rw [Joinable, Classical.not_imp, lookup_cons, if_pos rfl] at hjoin
      obtain ⟨⟨more, hmore⟩, hgiven⟩ := hjoin
      obtain rfl : value = .object more := Option.some.inj hmore
      obtain ⟨given, hlookup, hgiven⟩ := exists_of_not_isObjectIfGiven hgiven
      refine ⟨given.typeWord, ?_⟩
      rw [layerField, if_pos rfl, fieldOr, hlookup, Option.getD_some]
      cases given with
      | object fields => exact absurd rfl (hgiven fields)
      | _ => rfl
    · rw [layerField_eq_put hname, ok_bind]
      refine ih (fun hjoin' => hjoin fun hmore => ?_) hrest
      rw [lookup_cons, if_neg hname] at hmore
      have := hjoin' hmore
      rwa [lookup_put, if_neg hname] at this

/-! ### Settings -/

theorem lookup_unknownFields (fields : List (String × Json)) (name : String) :
    lookup (unknownFields fields) name =
      if name ∈ knownNames then none else lookup fields name := by
  induction fields with
  | nil => exact (ite_self none).symm
  | cons field rest ih =>
    rw [unknownFields, List.filter_cons]
    by_cases hfield : field.1 ∈ knownNames
    · rw [if_neg (by simpa using hfield), ← unknownFields, ih, lookup_cons]
      split_ifs with hname heq
      · rfl
      · exact absurd (heq ▸ hfield) hname
      · rfl
    · rw [if_pos (by simpa using hfield), lookup_cons, ← unknownFields, ih, lookup_cons]
      split_ifs with heq hname
      · exact absurd hname (heq ▸ hfield)
      · rfl
      · rfl
      · rfl

/-- Fields overlaid by those that settings do not know. -/
theorem lookup_overlay_unknownFields (hfields : (names fields).Nodup)
    (given : List (String × Json)) (name : String) :
    lookup (overlay given (unknownFields fields)) name =
      (if name ∈ knownNames then none else lookup fields name).or (lookup given name) := by
  have hunknown : (names (unknownFields fields)).Nodup :=
    hfields.sublist (List.filter_sublist.map _)
  rw [lookup_overlay hunknown, lookup_unknownFields]

/-- The custom fields that are given are overlaid by the unknown ones. -/
theorem exists_customOf_eq_ok (h : IsObjectIfGiven (lookup fields customName)) :
    ∃ custom, customOf fields = .ok custom ∧ custom.table? = some (.ofFields
      (overlay (objectFields (lookup fields customName)) (unknownFields fields))) := by
  rw [customOf, fieldOr, h.getD_eq]
  split
  · next hunknown => exact ⟨_, rfl, by rw [hunknown]; rfl⟩
  · exact ⟨_, rfl, congrArg some (Entries.overlay_ofFields _ _)⟩

/-- The settings that fields give with custom fields, the suffixes an object. -/
def settingsWith (fields : List (String × Json)) (custom : Custom) : Settings where
  extensionSuffix := fieldOr fields "extension_suffix" (.string "X")
  operationSuffixes := suffixesIn fields
  allowRepeats := fieldOr fields "allow_duplicate_values" (.bool false)
  trailingNewline := fieldOr fields "add_trailing_newline" (.bool true)
  custom := custom

theorem ofFields_eq_map (h : IsObjectIfGiven (lookup fields suffixesName)) :
    ofFields fields = (customOf fields).map (settingsWith fields) := by
  rw [ofFields, fieldOr, h.getD_eq]
  cases customOf fields <;> rfl

/-- Suffixes that are no object are a fault. -/
theorem ofFields_eq_error (h : ¬IsObjectIfGiven (lookup fields suffixesName)) :
    ofFields fields = customOf fields >>= fun _ => .error .suffixesNotObject := by
  obtain ⟨given, hlookup, hgiven⟩ := exists_of_not_isObjectIfGiven h
  rw [ofFields, fieldOr, hlookup, Option.getD_some]
  cases given with
  | object fields => exact absurd rfl (hgiven fields)
  | _ => rfl

/-- What settings hold where values are given under names and suffixes are given
    under the names of operations. -/
structure Holds (settings : Settings) (value? suffix? : String → Option Json) : Prop where
  /-- A known field holds what is given, or else its default. -/
  extensionSuffix : settings.extensionSuffix = (value? "extension_suffix").getD (.string "X")
  allowRepeats : settings.allowRepeats = (value? "allow_duplicate_values").getD (.bool false)
  trailingNewline : settings.trailingNewline = (value? "add_trailing_newline").getD (.bool true)
  /-- A suffix is the one that is given. -/
  operationSuffixes : ∀ operation,
    lookup settings.operationSuffixes operation = suffix? operation
  /-- The custom fields are those given as such, overlaid by the unknown ones. -/
  custom : ∃ custom, settings.custom.table? = some (.ofFields custom) ∧ (names custom).Nodup ∧
    ∀ name, lookup custom name = (if name ∈ knownNames then none else value? name).or
      (lookup (objectFields (value? customName)) name)

theorem hasObjects_defaults : HasObjects defaults :=
  ⟨isObjectIfGiven_some.2 ⟨[], rfl⟩, isObjectIfGiven_none⟩

theorem isProper_defaults : (Json.object defaults).IsProper := by
  refine .object (by decide) (List.forall_mem_cons.2 ⟨.plain rfl, ?_⟩)
  refine List.forall_mem_cons.2 ⟨.empty, ?_⟩
  exact List.forall_mem_cons.2 ⟨.plain rfl, List.forall_mem_singleton.2 (.plain rfl)⟩

/-- Fields that the defaults lack are found as they are given. -/
theorem lookup_union_defaults (hfields : (names fields).Nodup) (hname : name ∉ names defaults) :
    lookup (union defaults fields) name = lookup fields name := by
  have hne : name ≠ suffixesName := fun h => hname (h ▸ by decide)
  rw [lookup_union_of_ne hfields hne, lastGiven, lookup_eq_none_iff.2 hname, Option.or_none]

theorem fieldOr_union_defaults (hfields : (names fields).Nodup) (hname : name ≠ suffixesName)
    (hdefault : lookup defaults name = some value) :
    fieldOr (union defaults fields) name value = (lookup fields name).getD value := by
  rw [fieldOr, lookup_union_of_ne hfields hname, lastGiven, hdefault, Option.getD_or,
    Option.getD_some]

/-- The settings that one layer over the defaults gives. -/
theorem exists_ofFields_union_defaults (hfields : (Json.object fields).IsProper)
    (hobjects : HasObjects fields) {value? suffix? : String → Option Json}
    (hvalue : ∀ name ≠ suffixesName, lookup fields name = value? name)
    (hsuffix : ∀ operation, lookup (suffixesIn fields) operation = suffix? operation) :
    ∃ settings, ofFields (union defaults fields) = .ok settings ∧
      settings.Holds value? suffix? := by
  have hunion := hasObjects_defaults.union hobjects hfields.nodup_names
  obtain ⟨custom, hgiven, htable⟩ := exists_customOf_eq_ok hunion.custom
  have hfield : ∀ name ≠ suffixesName, ∀ value, lookup defaults name = some value →
      fieldOr (union defaults fields) name value = (value? name).getD value := by
    intro name hname value hdefault
    rw [fieldOr_union_defaults hfields.nodup_names hname hdefault, hvalue name hname]
  have hcustom : lookup (union defaults fields) customName = value? customName := by
    rw [lookup_union_defaults hfields.nodup_names (by decide), hvalue customName (by decide)]
  refine ⟨settingsWith (union defaults fields) custom,
    by rw [ofFields_eq_map hunion.suffixes, hgiven]; rfl,
    ?_, ?_, ?_, fun operation => ?_, _, htable, ?_, fun name => ?_⟩
  · exact hfield "extension_suffix" (by decide) _ rfl
  · exact hfield "allow_duplicate_values" (by decide) _ rfl
  · exact hfield "add_trailing_newline" (by decide) _ rfl
  · rw [settingsWith, suffixesIn_union hfields.nodup_names hobjects.suffixes, lookup_overlay
      (isProper_suffixesIn hfields).nodup_names, hsuffix]
    exact Option.or_none
  · exact nodup_overlay (isProper_objectFields (isProper_union isProper_defaults hfields)
      customName).nodup_names _
  · rw [lookup_overlay_unknownFields (nodup_union (by decide) fields), hcustom]
    split_ifs with hname
    · rfl
    · rw [lookup_union_defaults hfields.nodup_names
          fun hmem => hname (mem_knownNames_of_mem_coreFields hmem),
        hvalue name fun h => hname (h ▸ by decide)]

/-! ### Settings that are loaded -/

/-- What a file holds is proper. -/
theorem isProper_of_readFile {storage : Storage} {path : Path}
    (h : readFile storage path = .ok fields) : (Json.object fields).IsProper := by
  unfold readFile at h
  split at h
  · cases h
  · cases h
  · split_ifs at h
    obtain ⟨content, -, h⟩ := exists_of_bind_eq_ok h
    obtain ⟨value, hvalue, h⟩ := exists_of_bind_eq_ok h
    rw [readJson] at hvalue
    obtain ⟨text, -, hread⟩ := exists_of_bind_eq_ok hvalue
    have hproper := isProper_of_read (mapError_eq_ok_iff.1 hread)
    split at h
    · obtain rfl := Except.ok.inj h
      exact hproper
    · cases h

/-- What is read from a file has a name. -/
theorem ne_nil_of_readFile {storage : Storage} {file : Text}
    (h : readFile storage (.ofText file) = .ok fields) : file ≠ [] := by
  rintro rfl
  unfold readFile at h
  split at h
  · cases h
  · cases h
  · rw [if_pos (by decide)] at h
    cases h

/-- The settings from a file and overrides are those from their union alone: each
    field and each suffix is the one that is given last, and the custom fields given
    last are overlaid by the unknown ones. -/
theorem load_eq_load_union {storage : Storage} {file : Text} {overrides : List (String × Json)}
    (hread : readFile storage (.ofText file) = .ok fields)
    (hoverrides : (Json.object overrides).IsProper) (hobjects : HasObjects fields)
    (hobjects' : HasObjects overrides) : ∃ settings : Settings,
      (load storage file overrides).run.value = .ok settings ∧
      (load storage [] (union fields overrides)).run.value = .ok settings ∧
      settings.Holds (lastGiven fields overrides)
        (lastGiven (suffixesIn fields) (suffixesIn overrides)) := by
  have hfields := isProper_of_readFile hread
  obtain ⟨settings, hsettings, hholds⟩ := exists_ofFields_union_defaults
    (isProper_union hfields hoverrides) (hobjects.union hobjects' hoverrides.nodup_names)
    (fun name hname => lookup_union_of_ne hoverrides.nodup_names hname) fun operation => by
      rw [suffixesIn_union hoverrides.nodup_names hobjects'.suffixes,
        lookup_overlay (isProper_suffixesIn hoverrides).nodup_names]
  refine ⟨settings, ?_, ?_, hholds⟩
  · have hfile := layer_eq_union hfields.nodup_names fun _ => hasObjects_defaults.suffixes
    have hlater := layer_eq_union hoverrides.nodup_names fun _ =>
      (hasObjects_defaults.union hobjects hfields.nodup_names).suffixes
    rw [value_run_load, if_neg (ne_nil_of_readFile hread), hread, ok_bind, ofLayers, hfile, ok_bind,
      hlater, ok_bind, union_assoc hfields hobjects.suffixes, hsettings]
  · have hunion := isProper_union hfields hoverrides
    rw [value_run_load, if_pos rfl, ok_bind, ofLayers]
    have hlater := layer_eq_union hunion.nodup_names fun _ => hasObjects_defaults.suffixes
    change layer defaults (union fields overrides) >>= ofFields = _
    rw [hlater, ok_bind, hsettings]

/-- The fields of a file with two suffixes and custom fields. -/
def teamFields : List (String × Json) :=
  [("extension_suffix", .string "Y"), (suffixesName, .object [("when", .string "A"),
    ("map", .string "B")]), (customName, .object [("team", .string "core")])]

/-- Storage with that file. -/
def teamStorage : Storage where
  files := [(["c.json".toList], Utf8.encode (Json.object teamFields).indented)]

set_option maxRecDepth 2000 in
theorem readFile_teamStorage :
    readFile teamStorage (.ofText "c.json".toList) = .ok teamFields := by
  cbv

/-- Overrides with one of the suffixes and a custom field of its own name. -/
theorem load_eq_load_union_team :
    let overrides : List (String × Json) :=
      [(suffixesName, .object [("when", .string "W")]), ("team", .string "all")]
    readFile teamStorage (.ofText "c.json".toList) = .ok teamFields ∧
      ∃ settings : Settings, (load teamStorage "c.json".toList overrides).run.value =
          .ok settings ∧
        (load teamStorage [] (union teamFields overrides)).run.value = .ok settings ∧
        settings.Holds (lastGiven teamFields overrides)
          (lastGiven (suffixesIn teamFields) (suffixesIn overrides)) := by
  intro overrides
  have hsuffixes : (Json.object [("when", .string "W")]).IsProper :=
    IsProper.empty.put (.plain rfl) "when"
  have hoverrides : (Json.object overrides).IsProper :=
    (IsProper.empty.put hsuffixes suffixesName).put (.plain rfl) "team"
  refine ⟨readFile_teamStorage, load_eq_load_union readFile_teamStorage hoverrides ⟨?_, ?_⟩
    ⟨?_, isObjectIfGiven_none⟩⟩
  · exact isObjectIfGiven_some.2 ⟨_, rfl⟩
  · exact isObjectIfGiven_some.2 ⟨_, rfl⟩
  · exact isObjectIfGiven_some.2 ⟨_, rfl⟩

end EnumCompanion.Settings
