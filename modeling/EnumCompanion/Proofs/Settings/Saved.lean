import EnumCompanion.Proofs.Settings.Layers
import EnumCompanion.Proofs.Storage
import Mathlib

/-!
# Settings in files

Settings that are saved and loaded again are the same, unless a custom field has
the name of a field that settings know. Custom fields are saved beside the others
under names of their own, so that one of a known name is not found among the
custom fields again: it is taken for the field that it is called like.

* `save_eq_ok`, `value_run_load_saved`: what is saved and what is loaded of it;
* `layer_defaults_savedFields`: the layers where no custom field has a known name;
* `not_same_of_known`: the settings that are loaded where one has;
* `saved_reloads`: both for all settings that are loaded and saved again.
-/

namespace EnumCompanion

open Json Journal

/-- Whether a value is read back from the file that it is written to. -/
def Json.IsReadBack (value : Json) : Prop :=
  Json.read (Text.withLineFeeds value.indented) = .ok value

namespace Custom

theorem entries_eq_ok {custom : Custom} {entries : Entries} (h : custom.table? = some entries) :
    custom.entries = .ok entries := by
  cases custom with
  | joined entries' => exact congrArg Except.ok (Option.some.inj h)
  | raw value =>
    cases value with
    | object fields => exact congrArg Except.ok (Option.some.inj h)
    | _ => cases h

/-- Custom fields are equal as values or as entries. -/
theorem same_cases {given other : Custom} (h : given.same other = true) :
    (∃ value value', given = raw value ∧ other = raw value' ∧ Json.same value value' = true) ∨
      ∃ others, other.table? = some others ∧
        ∀ entries, given.table? = some entries → entries.same others = true := by
  unfold Custom.same at h
  split at h
  · exact .inl ⟨_, _, rfl, rfl, h⟩
  · split at h
    · next entries others hentries hothers =>
      refine .inr ⟨others, hothers, fun entries' hentries' => ?_⟩
      obtain rfl := Option.some.inj (hentries'.symm.trans hentries)
      exact h
    · cases h

end Custom

namespace Settings

variable {settings reloaded : Settings} {custom : List (String × Json)} {storage : Storage}
  {file : Text}

/-- Settings with equal fields, the custom ones as entries. -/
structure Agrees (settings other : Settings) : Prop where
  extensionSuffix : settings.extensionSuffix = other.extensionSuffix
  operationSuffixes : settings.operationSuffixes = other.operationSuffixes
  allowRepeats : settings.allowRepeats = other.allowRepeats
  trailingNewline : settings.trailingNewline = other.trailingNewline
  custom : settings.custom.table? = other.custom.table?

/-- The fields of a file with settings, the custom ones among them. -/
def savedFields (settings : Settings) (custom : List (String × Json)) : List (String × Json) :=
  overlay settings.coreFields custom

theorem toEntries_eq_ok (hcustom : settings.custom.table? = some (.ofFields custom)) :
    settings.toEntries = .ok (.ofFields (settings.savedFields custom)) := by
  rw [toEntries, Custom.entries_eq_ok hcustom]
  exact congrArg Except.ok (Entries.overlay_ofFields _ _)

/-- What a file of settings holds. -/
def savedContent (settings : Settings) (custom : List (String × Json)) : Bytes :=
  Utf8.encode (Json.object (settings.savedFields custom)).indented

/-- Settings are saved as the fields of an object. -/
theorem save_eq_ok {written : Storage}
    (hwrite : storage.write (.ofText file) (settings.savedContent custom) = .ok written)
    (hcustom : settings.custom.table? = some (.ofFields custom)) :
    ∃ saved, settings.save storage file = .ok saved ∧
      saved.Writes (.ofText file) (settings.savedContent custom) := by
  obtain ⟨cleared, hcleared, saved, hsaved⟩ := Storage.exists_write_again hwrite
  refine ⟨saved, ?_, Storage.writes_of_write hsaved⟩
  rw [save, hcleared, toEntries_eq_ok hcustom]
  change (cleared.write (.ofText file) (Utf8.encode (Json.object
    (Entries.ofFields (settings.savedFields custom)).fields).indented)).mapError _ = _
  rw [Entries.fields_ofFields, ← savedContent, hsaved]
  rfl

/-- What is loaded are the settings that the fields in the file give. -/
theorem value_run_load_saved {fields : List (String × Json)}
    (hsuffix : (Path.ofText file).hasSuffix fileSuffix = true)
    (hwrites : storage.Writes (.ofText file) (Utf8.encode (Json.object fields).indented))
    (hjson : (Json.object fields).IsReadBack) :
    (load storage file []).run.value = layer defaults fields >>= ofFields := by
  have hfile : file ≠ [] := by
    rintro rfl
    exact absurd hsuffix (by decide)
  have hread : readFile storage (.ofText file) = .ok fields := by
    have hvalue : readJson (.ofText file) (Utf8.encode (Json.object fields).indented) =
        .ok (.object fields) := by
      rw [readJson, Utf8.decode_encode]
      change (Json.read (Text.withLineFeeds (Json.object fields).indented)).mapError _ = _
      rw [hjson]
      rfl
    rw [readFile, hwrites.holds]
    simp only [hsuffix, hwrites.read, Bool.not_true, Bool.false_eq_true, if_false,
      Except.mapError, ok_bind, hvalue]
  rw [value_run_load, if_neg hfile, hread, ok_bind, ofLayers]
  cases layer defaults fields <;> rfl

/-! ### No custom field of a known name -/

/-- The known fields replace those of the defaults. -/
theorem layer_defaults_coreFields (h : (names settings.operationSuffixes).Nodup) :
    layer defaults settings.coreFields = .ok settings.coreFields := by
  have hsuffixes : overlay [] settings.operationSuffixes = settings.operationSuffixes :=
    overlay_eq_append h fun _ _ => List.not_mem_nil
  have hjoin : layerField (put defaults "extension_suffix" settings.extensionSuffix)
      (suffixesName, .object settings.operationSuffixes) = .ok
        (put (put defaults "extension_suffix" settings.extensionSuffix) suffixesName
          (.object (overlay [] settings.operationSuffixes))) := rfl
  rw [coreFields, layer_cons, layerField_eq_put (by decide), ok_bind, layer_cons, hjoin, ok_bind,
    hsuffixes, layer_eq_overlay (by simp [suffixesName])]
  rfl

/-- Where no custom field has a known name, all fields are those in the file. -/
theorem layer_defaults_savedFields (hsuffixes : (names settings.operationSuffixes).Nodup)
    (hcustom : (names custom).Nodup) (hunknown : ∀ name ∈ names custom, name ∉ knownNames) :
    layer defaults (settings.savedFields custom) = .ok (settings.coreFields ++ custom) := by
  have hnew : ∀ name ∈ names custom, name ∉ names settings.coreFields :=
    fun name hname hmem => hunknown name hname (mem_knownNames_of_mem_coreFields hmem)
  have hname : suffixesName ∉ names custom := fun hmem =>
    hunknown suffixesName hmem (by decide)
  rw [savedFields, overlay_eq_append hcustom hnew, layer_append,
    layer_defaults_coreFields hsuffixes, ok_bind, layer_eq_overlay hname,
    overlay_eq_append hcustom hnew]

/-- The fields beside the known ones are those of other names. -/
theorem unknownFields_coreFields_append (hunknown : ∀ name ∈ names custom, name ∉ knownNames) :
    unknownFields (settings.coreFields ++ custom) = custom := by
  have hcore : unknownFields settings.coreFields = [] := List.filter_eq_nil_iff.2
    fun field hfield => by
      simpa using mem_knownNames_of_mem_coreFields (List.mem_map_of_mem hfield)
  have hrest : unknownFields custom = custom := List.filter_eq_self.2
    fun field hfield => by simpa using hunknown _ (List.mem_map_of_mem hfield)
  rw [unknownFields, List.filter_append, ← unknownFields, ← unknownFields, hcore, hrest,
    List.nil_append]

/-- The settings that the known fields and others give. -/
theorem exists_ofFields_eq_ok (hcustom : (names custom).Nodup)
    (hunknown : ∀ name ∈ names custom, name ∉ knownNames)
    (htable : settings.custom.table? = some (.ofFields custom)) :
    ∃ reloaded, ofFields (settings.coreFields ++ custom) = .ok reloaded ∧
      settings.Agrees reloaded := by
  have hgiven : fieldOr (settings.coreFields ++ custom) customName (.object []) = .object [] := by
    have hnone : lookup (settings.coreFields ++ custom) customName = none := by
      rw [lookup_eq_none_iff, names, List.map_append, List.mem_append, not_or]
      exact ⟨by rw [← names, names_coreFields]; decide, fun hmem => hunknown _ hmem (by decide)⟩
    rw [fieldOr, hnone, Option.getD_none]
  obtain ⟨joined, hjoined, hsame⟩ : ∃ joined,
      customOf (settings.coreFields ++ custom) = .ok joined ∧
        joined.table? = some (.ofFields custom) := by
    rw [customOf, hgiven, unknownFields_coreFields_append hunknown]
    cases custom with
    | nil => exact ⟨_, rfl, rfl⟩
    | cons field rest =>
      refine ⟨_, rfl, ?_⟩
      rw [Custom.table?, Entries.overlay_ofFields,
        overlay_eq_append hcustom fun _ _ => List.not_mem_nil]
      rfl
  refine ⟨{ settings with custom := joined }, ?_, ⟨rfl, rfl, rfl, rfl, htable.trans hsame.symm⟩⟩
  rw [ofFields, hjoined]
  rfl

/-! ### A custom field of a known name -/

/-- Custom fields that are equal to fields have an equal value for each. -/
theorem exists_of_same {given other : Custom} (hsame : given.same other = true)
    (hgiven : given.table? = some (.ofFields custom)) : ∃ entries, other.table? = some entries ∧
      ∀ field ∈ custom, ∃ found, entries.lookup (.string field.1) = some found ∧
        Json.same field.2 found = true := by
  rcases Custom.same_cases hsame with
    ⟨value, value', rfl, rfl, hvalue⟩ | ⟨entries, hother, hentries⟩
  · cases value with
    | object fields =>
      have hfields : fields = custom := by
        have := congrArg Entries.fields (Option.some.inj hgiven)
        rwa [Entries.fields_ofFields, Entries.fields_ofFields] at this
      obtain ⟨others, rfl, hothers⟩ := exists_of_same_object hvalue
      refine ⟨.ofFields others, rfl, fun field hfield => ?_⟩
      rw [Entries.lookup_ofFields]
      exact hothers field (hfields ▸ hfield)
    | _ => cases hgiven
  · refine ⟨entries, hother, fun field hfield => ?_⟩
    have hall := hentries _ hgiven
    rw [Entries.same, Bool.and_eq_true, List.all_eq_true] at hall
    exact (Option.any_eq_true _ _).1 (hall.2 (.string field.1, field.2)
      (List.mem_map.2 ⟨field, hfield, rfl⟩))

/-- What custom fields hold under a known name comes from those given as such. -/
theorem exists_entries_of_lookup {fields : List (String × Json)} {joined : Custom}
    {entries : Entries} {name : String} {found : Json} (h : customOf fields = .ok joined)
    (htable : joined.table? = some entries) (hknown : name ∈ knownNames)
    (hfound : entries.lookup (.string name) = some found) :
    ∃ given, (fieldOr fields customName (.object [])).entries = .ok given ∧
      given.lookup (.string name) = some found := by
  rw [customOf] at h
  split at h
  · obtain rfl := Except.ok.inj h
    exact ⟨entries, Custom.entries_eq_ok htable, hfound⟩
  · next unknown hunknown =>
    cases hgiven : (fieldOr fields customName (.object [])).entries with
    | error fault => rw [hgiven] at h; cases h
    | ok given =>
      rw [hgiven] at h
      obtain rfl := Except.ok.inj h
      obtain rfl : given.overlay (.ofFields (unknownFields fields)) = entries :=
        Option.some.inj htable
      refine ⟨given, rfl, ?_⟩
      rwa [Entries.lookup_overlay_ofFields] at hfound
      intro hmem
      obtain ⟨field, hfield, rfl⟩ := List.mem_map.1 hmem
      exact absurd hknown (by simpa using (List.mem_filter.1 hfield).2)

/-- What is loaded as given custom fields is a custom field of that name. -/
theorem fieldOr_of_layer_savedFields (hcustom : (names custom).Nodup)
    {fields : List (String × Json)}
    (h : layer defaults (settings.savedFields custom) = .ok fields) :
    fieldOr fields customName (.object []) = (lookup custom customName).getD (.object []) := by
  have hcore : lookup settings.coreFields customName = none := by
    rw [lookup_eq_none_iff, names_coreFields]
    decide
  have hdefaults : lookup defaults customName = none := rfl
  have hsaved : (names (settings.savedFields custom)).Nodup :=
    nodup_overlay (by rw [names_coreFields]; decide) custom
  rw [fieldOr, lookup_layer hsaved h (by decide), savedFields, lookup_overlay hcustom, hcore,
    hdefaults, Option.or_none, Option.or_none]

/-- Where a custom field has a known name, other settings are loaded. -/
theorem not_same_of_known (hcustom : (names custom).Nodup)
    (htable : settings.custom.table? = some (.ofFields custom)) {name : String}
    (hname : name ∈ names custom) (hknown : name ∈ knownNames)
    (h : layer defaults (settings.savedFields custom) >>= ofFields = .ok reloaded) :
    settings.same reloaded = false := by
  obtain ⟨fields, hfields, h⟩ := exists_of_bind_eq_ok h
  have hjoined := (ofFields_eq_ok h).2
  have hgiven := fieldOr_of_layer_savedFields hcustom hfields
  rw [Bool.eq_false_iff]
  intro hsame
  rw [same, Bool.and_eq_true] at hsame
  obtain ⟨entries, hentries, hfound⟩ := exists_of_same hsame.2 htable
  -- Every custom field would be found, also the one under the name of custom fields.
  cases hvalue : lookup custom customName with
  | none =>
    obtain ⟨field, hfield, rfl⟩ := List.mem_map.1 hname
    obtain ⟨found, hlookup, -⟩ := hfound field hfield
    obtain ⟨given, hgiven', hlookup⟩ := exists_entries_of_lookup hjoined hentries hknown hlookup
    rw [hgiven, hvalue] at hgiven'
    obtain rfl : [] = given := Except.ok.inj hgiven'
    cases hlookup
  | some value =>
    obtain ⟨found, hlookup, hequal⟩ := hfound (customName, value) (Json.mem_of_lookup hvalue)
    obtain ⟨given, hgiven', hlookup⟩ := exists_entries_of_lookup hjoined hentries
      (show customName ∈ knownNames by decide) hlookup
    rw [hgiven, hvalue, Option.getD_some] at hgiven'
    obtain ⟨entry, hentry, rfl⟩ := Entries.mem_of_lookup hlookup
    exact absurd (depth_lt_of_mem_entries hgiven' entry hentry)
      (Nat.not_lt.2 (depth_le_of_same _ _ hequal))

/-! ### Settings that are saved and loaded -/

/-- Settings that were loaded are saved, in a file that they can be written to, and
    loaded again: they agree where no custom field has a known name, and where one
    has, they are not equal. -/
theorem saved_reloads {given written : Storage} {givenFile : Text}
    {overrides : List (String × Json)}
    (hload : (load given givenFile overrides).run.value = .ok settings)
    (htable : settings.custom.table? = some (.ofFields custom)) (hcustom : (names custom).Nodup)
    (hsuffix : (Path.ofText file).hasSuffix fileSuffix = true)
    (hwrite : storage.write (.ofText file) (settings.savedContent custom) = .ok written)
    (hjson : (Json.object (settings.savedFields custom)).IsReadBack) :
    ∃ saved, settings.save storage file = .ok saved ∧
      ((∀ name ∈ names custom, name ∉ knownNames) → ∃ reloaded,
        (load saved file []).run.value = .ok reloaded ∧ settings.Agrees reloaded) ∧
      ((∃ name ∈ names custom, name ∈ knownNames) → ∀ reloaded,
        (load saved file []).run.value = .ok reloaded → settings.same reloaded = false) := by
  obtain ⟨saved, hsave, hwrites⟩ := save_eq_ok hwrite htable
  refine ⟨saved, hsave, ?_, ?_⟩
  · intro hunknown
    rw [value_run_load_saved hsuffix hwrites hjson,
      layer_defaults_savedFields (nodup_operationSuffixes_of_load hload) hcustom hunknown]
    exact exists_ofFields_eq_ok hcustom hunknown htable
  · rintro ⟨name, hname, hknown⟩ reloaded hreload
    rw [value_run_load_saved hsuffix hwrites hjson] at hreload
    exact not_same_of_known hcustom htable hname hknown hreload

/-- Where nothing is there yet, a file can be written. -/
theorem exists_write_file (content : Bytes) :
    ∃ written, Storage.write {} (.ofText "c.json".toList) content = .ok written :=
  Storage.exists_write_eq_ok_iff.2 ⟨["c.json".toList], rfl, rfl, nofun⟩

set_option maxRecDepth 2000 in
/-- Settings with a custom field, from overrides, are the same when they are saved
    and loaded. -/
theorem saved_reloads_team :
    let settings : Settings := {
      operationSuffixes := [("when", .string "W")]
      custom := .joined [(.string "team", .string "core")] }
    (load {} [] [("team", .string "core"),
        (suffixesName, .object [("when", .string "W")])]).run.value = .ok settings ∧
      ∃ saved reloaded, settings.save {} "c.json".toList = .ok saved ∧
        (load saved "c.json".toList []).run.value = .ok reloaded ∧ settings.Agrees reloaded := by
  intro settings
  have hload : (load {} [] [("team", .string "core"),
      (suffixesName, .object [("when", .string "W")])]).run.value = .ok settings := rfl
  have hjson : (Json.object (settings.savedFields [("team", .string "core")])).IsReadBack := by
    unfold settings IsReadBack
    cbv
  have htable : settings.custom.table? = some (.ofFields [("team", .string "core")]) := rfl
  obtain ⟨written, hwrite⟩ := exists_write_file (settings.savedContent [("team", .string "core")])
  obtain ⟨saved, hsave, hagrees, -⟩ :=
    saved_reloads hload htable (by decide) (by decide) hwrite hjson
  obtain ⟨reloaded, hreload, hsame⟩ := hagrees (by decide)
  exact ⟨hload, saved, reloaded, hsave, hreload, hsame⟩

set_option maxRecDepth 2000 in
/-- A custom field that is called like the suffix of the bundling extension takes
    its place when the settings are saved and loaded. -/
theorem saved_differs_extensionSuffix : ∃ settings saved reloaded,
    (load {} [] [(customName, .object [("extension_suffix", .string "Y")])]).run.value =
        .ok settings ∧
      settings.save {} "c.json".toList = .ok saved ∧
        (load saved "c.json".toList []).run.value = .ok reloaded ∧
          settings.same reloaded = false := by
  let settings : Settings := { custom := .raw (.object [("extension_suffix", .string "Y")]) }
  let custom : List (String × Json) := [("extension_suffix", .string "Y")]
  have hjson : (Json.object (settings.savedFields custom)).IsReadBack := by
    unfold settings custom IsReadBack
    cbv
  have htable : settings.custom.table? = some (.ofFields custom) := rfl
  obtain ⟨written, hwrite⟩ := exists_write_file (settings.savedContent custom)
  obtain ⟨saved, hsave, hwrites⟩ := save_eq_ok hwrite htable
  have hreload : (load saved "c.json".toList []).run.value =
      .ok { extensionSuffix := .string "Y" } :=
    (value_run_load_saved (by decide) hwrites hjson).trans rfl
  exact ⟨settings, saved, _, rfl, hsave, hreload, by decide⟩

end Settings

end EnumCompanion
