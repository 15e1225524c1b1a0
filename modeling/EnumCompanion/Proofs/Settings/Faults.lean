import EnumCompanion.Proofs.Settings.Union
import EnumCompanion.Proofs.Storage
import EnumCompanion.Proofs.Text.Utf8

/-!
# Faults of settings

Settings are loaded with a value or a declared fault unless something unfit is met
that no declared fault is made of: a file whose bytes are no text or whose JSON is
beyond the limits of the reader, suffixes of operations that cannot be joined, and
custom fields that are no fields. What is loaded may still hold custom fields or
suffixes that warnings cannot be made of.

* `exists_warnings_iff`, `exists_toEntries_iff`: settings with warnings and entries;
* `endsWell_ofFields_iff`, `endsWell_ofLayers_iff`: fields and layers;
* `endsWell_readFile_iff`: files;
* `endsWell_load_iff`: exactly the files and overrides with which loading ends well.
-/

namespace EnumCompanion.Settings

open Json Journal

variable {fields overrides first second : List (String × Json)} {settings : Settings}
  {value? suffix? : String → Option Json}

/-! ### Settings that can be used -/

/-- Warnings and entries can be made of settings. -/
def IsUsable (settings : Settings) : Prop :=
  (∃ warnings, settings.warnings = .ok warnings) ∧ ∃ entries, settings.toEntries = .ok entries

/-- A value is a string if it counts as given. -/
def IsStringIfTruthy (value : Json) : Prop :=
  value.isTruthy = true → ∃ text, value = .string text

theorem exists_extendsName_iff {value : Json} :
    (∃ fits, extendsName value = .ok fits) ↔ ∃ text, value = .string text := by
  cases value with
  | string text => exact iff_of_true ⟨_, rfl⟩ ⟨text, rfl⟩
  | _ => exact iff_of_false not_exists_error_eq_ok nofun

/-- A suffix that counts as given is looked at, and any other is left alone. -/
theorem exists_ite_extendsName_iff {suffix : Json} {warningsOf : Bool → List Warning}
    {others : List Warning} :
    (∃ warnings, (if suffix.isTruthy then (extendsName suffix).map warningsOf else .ok others) =
      .ok warnings) ↔ IsStringIfTruthy suffix := by
  unfold IsStringIfTruthy
  split_ifs with h
  · rw [exists_map_eq_ok_iff, exists_extendsName_iff]
    exact ⟨fun htext _ => htext, fun hall => hall h⟩
  · exact iff_of_true ⟨_, rfl⟩ fun htruthy => absurd htruthy h

theorem exists_extensionWarnings_iff {suffix : Json} :
    (∃ warnings, extensionWarnings suffix = .ok warnings) ↔ IsStringIfTruthy suffix :=
  exists_ite_extendsName_iff

theorem exists_suffixWarnings_iff {operation : String} {suffix : Json} :
    (∃ warnings, suffixWarnings operation suffix = .ok warnings) ↔ IsStringIfTruthy suffix :=
  exists_ite_extendsName_iff

theorem exists_mapM_suffixWarnings_iff {suffixes : List (String × Json)} :
    (∃ warnings, (suffixes.mapM fun (name, suffix) => suffixWarnings name suffix) =
      .ok warnings) ↔ ∀ field ∈ suffixes, IsStringIfTruthy field.2 := by
  rw [exists_mapM_eq_ok_iff]
  exact forall₂_congr fun _ _ => exists_suffixWarnings_iff

theorem exists_customWarnings_iff {custom : Custom} :
    (∃ warnings, customWarnings custom = .ok warnings) ↔ ∃ keys, custom.keys? = some keys := by
  unfold customWarnings
  cases custom.keys? with
  | none => exact iff_of_false not_exists_error_eq_ok nofun
  | some keys => exact iff_of_true ⟨_, rfl⟩ ⟨keys, rfl⟩

/-- Warnings are made of settings whose suffixes are strings, where they count as
    given, and whose custom fields have keys. -/
theorem exists_warnings_iff : (∃ warnings, settings.warnings = .ok warnings) ↔
    IsStringIfTruthy settings.extensionSuffix ∧
      (∀ field ∈ settings.operationSuffixes, IsStringIfTruthy field.2) ∧
        ∃ keys, settings.custom.keys? = some keys := by
  rw [warnings, exists_bind_eq_ok_iff, ← exists_extensionWarnings_iff,
    ← exists_mapM_suffixWarnings_iff, ← exists_customWarnings_iff]
  constructor
  · rintro ⟨onExtension, hextension, h⟩
    obtain ⟨onSuffixes, hsuffixes, h⟩ := exists_bind_eq_ok_iff.1 h
    obtain ⟨onCustom, hcustom, -⟩ := exists_bind_eq_ok_iff.1 h
    exact ⟨⟨_, hextension⟩, ⟨_, hsuffixes⟩, _, hcustom⟩
  · rintro ⟨⟨onExtension, hextension⟩, ⟨onSuffixes, hsuffixes⟩, onCustom, hcustom⟩
    refine ⟨onExtension, hextension, exists_bind_eq_ok_iff.2 ⟨onSuffixes, hsuffixes, ?_⟩⟩
    exact exists_bind_eq_ok_iff.2 ⟨onCustom, hcustom, _, rfl⟩

theorem exists_toEntries_iff : (∃ entries, settings.toEntries = .ok entries) ↔
    ∃ entries, settings.custom.entries = .ok entries := by
  rw [toEntries, exists_map_eq_ok_iff]
  exact exists_congr fun _ => mapError_eq_ok_iff

/-- Custom fields that are entries have keys. -/
theorem exists_keys_of_entries {custom : Custom} {entries : Entries}
    (h : custom.entries = .ok entries) : ∃ keys, custom.keys? = some keys := by
  cases custom with
  | joined entries => exact ⟨_, rfl⟩
  | raw value =>
    cases value with
    | object fields => exact ⟨_, rfl⟩
    | array values => exact ⟨_, rfl⟩
    | string text => exact ⟨_, rfl⟩
    | null | bool _ | int _ | float _ => exact absurd h error_ne_ok

theorem isUsable_iff : settings.IsUsable ↔
    IsStringIfTruthy settings.extensionSuffix ∧
      (∀ field ∈ settings.operationSuffixes, IsStringIfTruthy field.2) ∧
        ∃ entries, settings.custom.entries = .ok entries := by
  rw [IsUsable, exists_warnings_iff, exists_toEntries_iff]
  constructor
  · rintro ⟨⟨hextension, hsuffixes, -⟩, hentries⟩
    exact ⟨hextension, hsuffixes, hentries⟩
  · rintro ⟨hextension, hsuffixes, entries, hentries⟩
    exact ⟨⟨hextension, hsuffixes, exists_keys_of_entries hentries⟩, entries, hentries⟩

/-! ### Fields -/

/-- Values under names that settings are made of, or only declared faults. Where the
    suffixes of operations are no object, no more than the custom fields is looked at,
    and these only if there are unknown fields. -/
@[mk_iff]
structure IsFit (value? suffix? : String → Option Json) : Prop where
  /-- The custom fields are fields. -/
  custom : (IsObjectIfGiven (value? suffixesName) ∨ ∃ name, name ∉ knownNames ∧
      ∃ value, value? name = some value) →
    ∃ entries, ((value? customName).getD (.object [])).entries = .ok entries
  /-- The suffix of the bundling extension is a string if it counts as given. -/
  extensionSuffix : IsObjectIfGiven (value? suffixesName) →
    ∀ value, value? "extension_suffix" = some value → IsStringIfTruthy value
  /-- So are the suffixes of operations. -/
  operationSuffixes : IsObjectIfGiven (value? suffixesName) →
    ∀ operation value, suffix? operation = some value → IsStringIfTruthy value

theorem unknownFields_ne_nil_iff : unknownFields fields ≠ [] ↔
    ∃ name, name ∉ knownNames ∧ ∃ value, lookup fields name = some value := by
  rw [unknownFields, Ne, List.filter_eq_nil_iff]
  push Not
  constructor
  · rintro ⟨field, hfield, hunknown⟩
    refine ⟨field.1, by simpa using hunknown, Option.ne_none_iff_exists'.1 fun hnone => ?_⟩
    exact lookup_eq_none_iff.1 hnone (List.mem_map_of_mem hfield)
  · rintro ⟨name, hunknown, value, hvalue⟩
    exact ⟨(name, value), mem_of_lookup hvalue, by simpa using hunknown⟩

/-- Custom fields are given by fields, unless there are unknown ones to overlay what
    is given with that is no fields. -/
theorem endsWell_customOf_iff : EndsWell (Fault.isDeclared ·) (fun _ => True) (customOf fields) ↔
    (unknownFields fields ≠ [] → ∃ entries,
      ((lookup fields customName).getD (.object [])).entries = .ok entries) := by
  rw [customOf, fieldOr]
  split
  · next h => exact iff_of_true trivial fun hne => absurd h hne
  · next h =>
    cases ((lookup fields customName).getD (.object [])).entries with
    | error fault => exact iff_of_false Bool.false_ne_true fun hall => not_exists_error_eq_ok (hall h)
    | ok entries => exact iff_of_true trivial fun _ => ⟨entries, rfl⟩

/-- The custom fields that are given are entries if what is given is fields. -/
theorem endsWell_customOf_entries_iff {P : Prop} :
    EndsWell (Fault.isDeclared ·) (fun custom => P ∧ ∃ entries, custom.entries = .ok entries)
        (customOf fields) ↔
      P ∧ ∃ entries, ((lookup fields customName).getD (.object [])).entries = .ok entries := by
  rw [customOf, fieldOr]
  split
  · exact Iff.rfl
  · cases ((lookup fields customName).getD (.object [])).entries with
    | error fault => exact iff_of_false Bool.false_ne_true fun h => not_exists_error_eq_ok h.2
    | ok entries => exact and_congr_right fun _ => iff_of_true ⟨_, rfl⟩ ⟨entries, rfl⟩

theorem isUsable_settingsWith {custom : Custom} : (settingsWith fields custom).IsUsable ↔
    (IsStringIfTruthy (fieldOr fields "extension_suffix" (.string "X")) ∧
      ∀ field ∈ suffixesIn fields, IsStringIfTruthy field.2) ∧
        ∃ entries, custom.entries = .ok entries :=
  isUsable_iff.trans and_assoc.symm

/-- Fields give settings that can be used, or a declared fault, exactly if they are
    fit. -/
theorem endsWell_ofFields_iff (hsuffixes : (names (suffixesIn fields)).Nodup) :
    EndsWell (Fault.isDeclared ·) IsUsable (ofFields fields) ↔
      IsFit (lookup fields) (lookup (suffixesIn fields)) := by
  by_cases hobject : IsObjectIfGiven (lookup fields suffixesName)
  · simp only [ofFields_eq_map hobject, endsWell_map_iff, isUsable_settingsWith,
      endsWell_customOf_entries_iff]
    constructor
    · rintro ⟨⟨hextension, hfield⟩, hcustom⟩
      refine ⟨fun _ => hcustom, fun _ value hvalue => ?_, fun _ operation value hvalue => ?_⟩
      · rwa [fieldOr, hvalue] at hextension
      · exact hfield (operation, value) (mem_of_lookup hvalue)
    · intro h
      refine ⟨⟨?_, fun field hfield => ?_⟩, h.custom (.inl hobject)⟩
      · rw [fieldOr]
        cases hvalue : lookup fields "extension_suffix" with
        | none => exact fun _ => ⟨"X", rfl⟩
        | some value => exact h.extensionSuffix hobject value hvalue
      · exact h.operationSuffixes hobject field.1 field.2 ((lookup_eq_some_iff hsuffixes).2 hfield)
  · have hcustom : EndsWell (Fault.isDeclared ·) IsUsable (ofFields fields) ↔
        EndsWell (Fault.isDeclared ·) (fun _ => True) (customOf fields) := by
      rw [ofFields_eq_error hobject, endsWell_bind_iff]
      cases customOf fields with
      | error fault => exact Iff.rfl
      | ok custom => exact iff_of_true rfl trivial
    rw [hcustom, endsWell_customOf_iff, unknownFields_ne_nil_iff]
    constructor
    · intro h
      exact ⟨fun hgiven => h (hgiven.resolve_left hobject), fun h => absurd h hobject,
        fun h => absurd h hobject⟩
    · exact fun h hunknown => h.custom (.inr hunknown)

/-! ### Layers -/

/-- The suffixes of the defaults are joined with any. -/
theorem isObjectIfGiven_union_defaults (hfields : (names fields).Nodup) :
    IsObjectIfGiven (lookup (union defaults fields) suffixesName) ↔
      IsObjectIfGiven (lookup fields suffixesName) := by
  rw [isObjectIfGiven_union hfields, lastGiven]
  cases lookup fields suffixesName with
  | none => exact iff_of_true hasObjects_defaults.suffixes isObjectIfGiven_none
  | some value => exact Iff.rfl

theorem joinable_union_defaults (hfields : (names fields).Nodup) :
    Joinable (union defaults fields) overrides ↔ Joinable fields overrides :=
  forall_congr' fun _ => isObjectIfGiven_union_defaults hfields

/-- Suffixes can be joined and what is joined is an object exactly if both layers
    give objects, if they give any. -/
theorem isObjectIfGiven_lastGiven_iff (hjoin : Joinable first second) :
    IsObjectIfGiven (lastGiven first second suffixesName) ↔
      IsObjectIfGiven (lookup first suffixesName) ∧ IsObjectIfGiven (lookup second suffixesName) := by
  rw [Joinable] at hjoin
  rw [lastGiven]
  cases hlookup : lookup second suffixesName with
  | none => exact (and_iff_left isObjectIfGiven_none).symm
  | some value =>
    rw [hlookup] at hjoin
    rw [Option.some_or]
    refine ⟨fun h => ⟨hjoin ?_, h⟩, And.right⟩
    obtain ⟨more, rfl⟩ := isObjectIfGiven_some.1 h
    exact ⟨more, rfl⟩

/-- Fields that the defaults lack are found in two layers over them as they are given
    last. -/
theorem lookup_union_union (hfields : (names fields).Nodup) (hoverrides : (names overrides).Nodup)
    {name : String} (hname : name ∉ names defaults) :
    lookup (union (union defaults fields) overrides) name = lastGiven fields overrides name := by
  have hne : name ≠ suffixesName := fun h => hname (h ▸ by decide)
  rw [lookup_union_of_ne hoverrides hne, lastGiven, lookup_union_defaults hfields hname, lastGiven]

/-- The suffixes of two layers over the defaults, if they are objects. -/
theorem lookup_suffixesIn_union_union (hfields : (Json.object fields).IsProper)
    (hoverrides : (Json.object overrides).IsProper)
    (hgiven : IsObjectIfGiven (lookup fields suffixesName))
    (hlater : IsObjectIfGiven (lookup overrides suffixesName)) (operation : String) :
    lookup (suffixesIn (union (union defaults fields) overrides)) operation =
      lastGiven (suffixesIn fields) (suffixesIn overrides) operation := by
  rw [suffixesIn_union hoverrides.nodup_names hlater,
    lookup_overlay (isProper_suffixesIn hoverrides).nodup_names,
    suffixesIn_union hfields.nodup_names hgiven,
    lookup_overlay (isProper_suffixesIn hfields).nodup_names, lastGiven]
  exact congrArg _ Option.or_none

/-- Values over the defaults are fit if the values alone are. -/
theorem isFit_union_union_iff (hfields : (Json.object fields).IsProper)
    (hoverrides : (Json.object overrides).IsProper) (hjoin : Joinable fields overrides) :
    IsFit (lookup (union (union defaults fields) overrides))
        (lookup (suffixesIn (union (union defaults fields) overrides))) ↔
      IsFit (lastGiven fields overrides)
        (lastGiven (suffixesIn fields) (suffixesIn overrides)) := by
  have hobject : IsObjectIfGiven (lookup (union (union defaults fields) overrides) suffixesName) ↔
      IsObjectIfGiven (lastGiven fields overrides suffixesName) := by
    rw [isObjectIfGiven_union hoverrides.nodup_names, isObjectIfGiven_lastGiven_iff
      ((joinable_union_defaults hfields.nodup_names).2 hjoin),
      isObjectIfGiven_union_defaults hfields.nodup_names, isObjectIfGiven_lastGiven_iff hjoin]
  have hgiven : ∀ name ∉ names defaults,
      lookup (union (union defaults fields) overrides) name = lastGiven fields overrides name :=
    fun name hname => lookup_union_union hfields.nodup_names hoverrides.nodup_names hname
  -- The default of the suffix of the bundling extension is a string.
  have hextension : (∀ value, lookup (union (union defaults fields) overrides) "extension_suffix" =
        some value → IsStringIfTruthy value) ↔
      ∀ value, lastGiven fields overrides "extension_suffix" = some value →
        IsStringIfTruthy value := by
    rw [lookup_union_of_ne hoverrides.nodup_names (by decide), lastGiven,
      lookup_union_of_ne hfields.nodup_names (by decide), lastGiven, ← Option.or_assoc, ← lastGiven]
    cases lastGiven fields overrides "extension_suffix" with
    | none =>
      refine iff_of_true (fun value h _ => ⟨"X", (Option.some.inj h).symm⟩) fun value h => ?_
      exact absurd h.symm (Option.some_ne_none value)
    | some value => exact Iff.rfl
  rw [isFit_iff, isFit_iff, hobject, hgiven customName (by decide), hextension]
  refine and_congr (imp_congr_left (or_congr_right (exists_congr fun name => ?_)))
    (and_congr_right fun _ => forall_congr' fun h => forall_congr' fun operation => ?_)
  · refine and_congr_right fun hname => ?_
    rw [hgiven name fun hmem => hname (mem_knownNames_of_mem_coreFields hmem)]
  · obtain ⟨hfirst, hlater⟩ := (isObjectIfGiven_lastGiven_iff hjoin).1 h
    rw [lookup_suffixesIn_union_union hfields hoverrides hfirst hlater]

/-- Layers give settings that can be used, or a declared fault, exactly if the
    suffixes can be joined and what is given last is fit. -/
theorem endsWell_ofLayers_iff (hfields : (Json.object fields).IsProper)
    (hoverrides : (Json.object overrides).IsProper) :
    EndsWell (Fault.isDeclared ·) IsUsable (ofLayers fields overrides) ↔
      Joinable fields overrides ∧ IsFit (lastGiven fields overrides)
        (lastGiven (suffixesIn fields) (suffixesIn overrides)) := by
  rw [ofLayers, layer_eq_union hfields.nodup_names fun _ => hasObjects_defaults.suffixes, ok_bind]
  by_cases hjoin : Joinable fields overrides
  · have hjoin' := (joinable_union_defaults hfields.nodup_names).2 hjoin
    have hunion := isProper_union (isProper_union isProper_defaults hfields) hoverrides
    rw [layer_eq_union hoverrides.nodup_names hjoin', ok_bind,
      endsWell_ofFields_iff (isProper_suffixesIn hunion).nodup_names,
      isFit_union_union_iff hfields hoverrides hjoin, and_iff_right hjoin]
  · have hjoin' := fun h => hjoin ((joinable_union_defaults hfields.nodup_names).1 h)
    obtain ⟨type, hfault⟩ := exists_notJoinable hjoin' hoverrides.nodup_names
    rw [hfault]
    exact iff_of_false Bool.false_ne_true fun h => hjoin h.1

/-! ### Files -/

/-- Bytes that are a text, and JSON within the limits of the reader if it is any. -/
def IsLegible (content : Bytes) : Prop :=
  ∃ text, content = Utf8.encode text ∧
    ∀ refusal, Json.read text.withLineFeeds = .error refusal → refusal.flaw.isLimit = false

/-- A path whose names are not too long, and which leads to legible bytes if it is
    called like a file of JSON. -/
structure IsSound (storage : Storage) (path : Path) : Prop where
  locate_ne : storage.locate path ≠ .error .tooLong
  isLegible : path.hasSuffix fileSuffix = true →
    ∀ content, storage.read path = .ok content → IsLegible content

theorem endsWell_readJson_iff (path : Path) {content : Bytes} :
    EndsWell (Fault.isDeclared ·) (fun _ => True) (readJson path content) ↔
      IsLegible content := by
  rw [readJson, endsWell_bind_iff]
  cases hdecode : Utf8.decode content with
  | error fault =>
    refine iff_of_false Bool.false_ne_true ?_
    rintro ⟨text, htext, -⟩
    rw [Utf8.decode_eq_ok_iff.2 htext] at hdecode
    cases hdecode
  | ok text =>
    obtain rfl := Utf8.decode_eq_ok_iff.1 hdecode
    have hlegible : IsLegible (Utf8.encode text) ↔ ∀ refusal,
        Json.read text.withLineFeeds = .error refusal → refusal.flaw.isLimit = false := by
      refine ⟨?_, fun h => ⟨text, rfl, h⟩⟩
      rintro ⟨other, heq, h⟩
      have hother := Utf8.decode_eq_ok_iff.2 heq
      obtain rfl : text = other := Except.ok.inj (hdecode.symm.trans hother)
      exact h
    rw [hlegible]
    change EndsWell _ _ ((Json.read text.withLineFeeds).mapError _) ↔ _
    cases hread : Json.read text.withLineFeeds with
    | ok value => exact iff_of_true trivial fun _ h => absurd h.symm error_ne_ok
    | error refusal =>
      change Fault.isDeclared (if refusal.flaw.isLimit = true then _ else _) = true ↔ _
      split_ifs with hlimit
      · exact iff_of_false Bool.false_ne_true fun h => Bool.noConfusion ((h _ rfl).symm.trans hlimit)
      · refine iff_of_true rfl fun other hother => ?_
        obtain rfl := Except.error.inj hother
        exact Bool.eq_false_iff.2 hlimit

theorem endsWell_readFile_iff {storage : Storage} {path : Path} :
    EndsWell (Fault.isDeclared ·) (fun _ => True) (readFile storage path) ↔
      IsSound storage path := by
  unfold readFile
  split
  · next fault hholds =>
    exact iff_of_false Bool.false_ne_true fun h =>
      h.locate_ne (Storage.locate_eq_tooLong_iff.2 ⟨fault, hholds⟩)
  · next hholds =>
    refine iff_of_true rfl ⟨?_, fun _ content hread => ?_⟩
    · rw [Ne, Storage.locate_eq_tooLong_iff, hholds]
      nofun
    · rw [Storage.holds_of_read hread] at hholds
      cases hholds
  · next hholds =>
    have hlocate : storage.locate path ≠ .error .tooLong := by
      rw [Ne, Storage.locate_eq_tooLong_iff, hholds]
      nofun
    split_ifs with hsuffix
    · refine iff_of_true rfl ⟨hlocate, fun h => ?_⟩
      rw [h] at hsuffix
      cases hsuffix
    · rw [Bool.not_eq_true, Bool.not_eq_false'] at hsuffix
      cases hread : storage.read path with
      | error fault =>
        refine iff_of_true rfl ⟨hlocate, fun _ content h => ?_⟩
        rw [hread] at h
        cases h
      | ok content =>
        have hsound : IsSound storage path ↔ IsLegible content := by
          refine ⟨fun h => h.isLegible hsuffix content hread, fun h => ⟨hlocate, fun _ other hother => ?_⟩⟩
          obtain rfl : content = other := Except.ok.inj (hread.symm.trans hother)
          exact h
        rw [hsound, ← endsWell_readJson_iff path]
        change EndsWell _ _ (readJson path content >>= _) ↔ _
        rw [endsWell_bind_iff]
        cases readJson path content with
        | error fault => exact Iff.rfl
        | ok value =>
          cases value with
          | object fields => exact iff_of_true trivial trivial
          | _ => exact iff_of_true rfl trivial

/-! ### Settings that are loaded -/

theorem value_run_loadFile (storage : Storage) (file : Text) :
    (loadFile storage file).run.value =
      if file = [] then .ok [] else readFile storage (.ofText file) := by
  rw [loadFile]
  split_ifs
  · rfl
  · cases readFile storage (.ofText file) <;> rfl

/-- What a file holds is proper, also where none is named. -/
theorem isProper_of_loadFile {storage : Storage} {file : Text}
    (h : (loadFile storage file).run.value = .ok fields) : (Json.object fields).IsProper := by
  rw [value_run_loadFile] at h
  split_ifs at h
  · obtain rfl := Except.ok.inj h
    exact .empty
  · exact isProper_of_readFile h

/-- Loading settings ends with settings that warnings and entries can be made of, or
    with a declared fault, exactly if the file, where one is named, is sound and what
    it holds fits the overrides. -/
theorem endsWell_load_iff {storage : Storage} {file : Text}
    (hoverrides : (Json.object overrides).IsProper) :
    EndsWell (Fault.isDeclared ·) IsUsable (load storage file overrides).run.value ↔
      (file ≠ [] → IsSound storage (.ofText file)) ∧
        ∀ fields, (loadFile storage file).run.value = .ok fields →
          Joinable fields overrides ∧ IsFit (lastGiven fields overrides)
            (lastGiven (suffixesIn fields) (suffixesIn overrides)) := by
  have hfile : EndsWell (Fault.isDeclared ·) (fun _ => True) (loadFile storage file).run.value ↔
      (file ≠ [] → IsSound storage (.ofText file)) := by
    rw [value_run_loadFile]
    split_ifs with hnil
    · exact iff_of_true trivial fun hne => absurd hnil hne
    · rw [endsWell_readFile_iff]
      exact ⟨fun h _ => h, fun h => h hnil⟩
  rw [value_run_load, ← value_run_loadFile, endsWell_bind_iff, endsWell_iff, hfile]
  exact and_congr_right fun _ => forall₂_congr fun fields h =>
    endsWell_ofLayers_iff (isProper_of_loadFile h) hoverrides

/-- A file and overrides with a suffix for one operation and custom fields. -/
theorem endsWell_load_team :
    let overrides : List (String × Json) := [(suffixesName, .object [("when", .string "W")])]
    (Json.object overrides).IsProper ∧ EndsWell (Fault.isDeclared ·) IsUsable
      (load teamStorage "c.json".toList overrides).run.value := by
  intro overrides
  have hsuffixes : (Json.object [("when", .string "W")]).IsProper :=
    IsProper.empty.put (.plain rfl) "when"
  have hoverrides : (Json.object overrides).IsProper := IsProper.empty.put hsuffixes suffixesName
  have hfile : (loadFile teamStorage "c.json".toList).run.value = .ok teamFields := by
    rw [value_run_loadFile, if_neg (ne_nil_of_readFile readFile_teamStorage), readFile_teamStorage]
  refine ⟨hoverrides, ?_⟩
  rw [endsWell_load_iff hoverrides]
  refine ⟨fun _ => ?_, fun fields hfields => ?_⟩
  · rw [← endsWell_readFile_iff, readFile_teamStorage]
    trivial
  · obtain rfl := Except.ok.inj (hfile.symm.trans hfields)
    refine ⟨fun _ => isObjectIfGiven_some.2 ⟨_, rfl⟩, fun _ => ⟨_, rfl⟩, ?_, ?_⟩
    · exact fun _ value hvalue _ => ⟨"Y", (Option.some.inj hvalue).symm⟩
    · intro _ operation value hvalue _
      have hgiven : ∀ field ∈ suffixesIn teamFields ++ suffixesIn overrides,
          ∃ text, field.2 = .string text := by
        simp [suffixesIn, objectFields, teamFields, overrides, lookup_cons, suffixesName]
      rcases Option.or_eq_some_iff.1 hvalue with hlater | ⟨-, hfirst⟩
      · exact hgiven _ (List.mem_append_right _ (mem_of_lookup hlater))
      · exact hgiven _ (List.mem_append_left _ (mem_of_lookup hfirst))

/-- Storage with a file of suffixes that are a string. -/
def stringStorage : Storage where
  files := [(["c.json".toList],
    Utf8.encode (Json.object [(suffixesName, .string "X")]).indented)]

set_option maxRecDepth 2000 in
theorem readFile_stringStorage : readFile stringStorage (.ofText "c.json".toList) =
    .ok [(suffixesName, .string "X")] := by
  cbv

/-- Suffixes of operations that are a string cannot be joined with those of the
    overrides. -/
theorem load_notJoinable_string :
    (load stringStorage "c.json".toList
        [(suffixesName, .object [("when", .string "W")])]).run.value =
      .error (.notJoinable "str") ∧ (Fault.notJoinable "str").isDeclared = false := by
  refine ⟨?_, rfl⟩
  rw [value_run_load, if_neg (ne_nil_of_readFile readFile_stringStorage), readFile_stringStorage]
  rfl

end EnumCompanion.Settings
