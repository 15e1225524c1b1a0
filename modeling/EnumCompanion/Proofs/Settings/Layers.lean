import EnumCompanion.Proofs.Journal
import EnumCompanion.Proofs.Json.Fields
import EnumCompanion.Settings.File

/-!
# Layers of settings

A layer of fields is put over another like any fields, but for the suffixes of
operations, which are joined. These are distinct in all settings that are loaded,
since they are joined with those of the defaults, of which there are none.

* `layer_eq_overlay`, `lookup_layer`: fields overlaid by those of a later layer;
* `ofFields_eq_ok`: the settings that fields give;
* `value_run_load`: the settings that are loaded;
* `nodup_operationSuffixes_of_load`: their suffixes are distinct.
-/

namespace EnumCompanion.Settings

open Json Journal

variable {fields later result : List (String × Json)} {name : String} {value : Json}
  {settings : Settings}

/-! ### Layers -/

/-- A field is put among the others, or the suffixes of operations are joined. -/
theorem layerField_cases (h : layerField fields (name, value) = .ok result) :
    (result = put fields name value ∧ ∀ more, value = .object more → name ≠ suffixesName) ∨
      ∃ given more, name = suffixesName ∧ value = .object more ∧
        fieldOr fields suffixesName (.object []) = .object given ∧
        result = put fields suffixesName (.object (overlay given more)) := by
  cases value with
  | object more =>
    rw [layerField] at h
    split_ifs at h with hname
    · subst hname
      split at h
      · next given hgiven => exact .inr ⟨given, more, rfl, rfl, hgiven, (Except.ok.inj h).symm⟩
      · cases h
    · exact .inl ⟨(Except.ok.inj h).symm, fun _ _ => hname⟩
  | _ => exact .inl ⟨(Except.ok.inj h).symm, nofun⟩

theorem layerField_eq_put (hname : name ≠ suffixesName) (fields : List (String × Json))
    (value : Json) : layerField fields (name, value) = .ok (put fields name value) := by
  cases value with
  | object more => rw [layerField, if_neg hname]
  | _ => rfl

theorem layer_cons (fields : List (String × Json)) (field : String × Json)
    (rest : List (String × Json)) :
    layer fields (field :: rest) = layerField fields field >>= fun fields => layer fields rest :=
  List.foldlM_cons

theorem layer_append (fields first second : List (String × Json)) :
    layer fields (first ++ second) = layer fields first >>= fun fields => layer fields second :=
  List.foldlM_append

/-- Without suffixes of operations a layer is overlaid. -/
theorem layer_eq_overlay (h : suffixesName ∉ names later) (fields : List (String × Json)) :
    layer fields later = .ok (overlay fields later) := by
  induction later generalizing fields with
  | nil => rfl
  | cons field rest ih =>
    rw [names, List.map_cons, List.mem_cons, not_or] at h
    rw [layer_cons, layerField_eq_put (Ne.symm h.1), ok_bind, ih h.2]
    rfl

/-- A field other than the suffixes of operations is that of the later layer, or
    else the one that was there. -/
theorem lookup_layer (hlater : (names later).Nodup) (h : layer fields later = .ok result)
    (hname : name ≠ suffixesName) :
    lookup result name = (lookup later name).or (lookup fields name) := by
  induction later generalizing fields with
  | nil =>
    obtain rfl : fields = result := Except.ok.inj h
    rfl
  | cons field rest ih =>
    obtain ⟨hfield, hrest⟩ := List.nodup_cons.1 hlater
    rw [layer_cons] at h
    obtain ⟨fields', hfields', h⟩ := exists_of_bind_eq_ok h
    have hput : lookup fields' name =
        if field.1 = name then some field.2 else lookup fields name := by
      rcases layerField_cases hfields' with ⟨rfl, -⟩ | ⟨given, more, hsuffixes, -, -, rfl⟩
      · exact lookup_put _ _ _ _
      · rw [lookup_put, if_neg (Ne.symm hname), hsuffixes, if_neg (Ne.symm hname)]
    rw [ih hrest h, hput, lookup_cons]
    split_ifs with hfirst
    · subst hfirst
      rw [lookup_eq_none_iff.2 hfield, Option.none_or, Option.some_or]
    · rfl

/-! ### Distinct suffixes -/

/-- Where fields have suffixes of operations, these have distinct names. -/
def HasDistinctSuffixes (fields : List (String × Json)) : Prop :=
  ∀ suffixes, lookup fields suffixesName = some (.object suffixes) → (names suffixes).Nodup

theorem HasDistinctSuffixes.layerField (h : HasDistinctSuffixes fields) {field : String × Json}
    (hlayer : layerField fields field = .ok result) : HasDistinctSuffixes result := by
  intro suffixes hlookup
  rcases layerField_cases hlayer with ⟨rfl, hvalue⟩ | ⟨given, more, -, -, hgiven, rfl⟩
  · rw [lookup_put] at hlookup
    split_ifs at hlookup with hname
    · exact absurd hname (hvalue suffixes (Option.some.inj hlookup))
    · exact h suffixes hlookup
  · rw [lookup_put, if_pos rfl, Option.some.injEq, Json.object.injEq] at hlookup
    subst hlookup
    refine nodup_overlay ?_ more
    rw [fieldOr] at hgiven
    cases hsuffixes : lookup fields suffixesName with
    | none =>
      rw [hsuffixes, Option.getD_none, Json.object.injEq] at hgiven
      subst hgiven
      exact List.nodup_nil
    | some value =>
      rw [hsuffixes, Option.getD_some] at hgiven
      exact h given (hsuffixes.trans (congrArg some hgiven))

theorem HasDistinctSuffixes.layer (h : HasDistinctSuffixes fields)
    (hlayer : layer fields later = .ok result) : HasDistinctSuffixes result := by
  induction later generalizing fields with
  | nil =>
    obtain rfl : fields = result := Except.ok.inj hlayer
    exact h
  | cons field rest ih =>
    rw [layer_cons] at hlayer
    obtain ⟨fields', hfields', hrest⟩ := exists_of_bind_eq_ok hlayer
    exact ih (h.layerField hfields') hrest

theorem hasDistinctSuffixes_defaults : HasDistinctSuffixes defaults := by
  intro suffixes h
  have hdefaults : lookup defaults suffixesName = some (.object []) := rfl
  rw [hdefaults, Option.some.injEq, Json.object.injEq] at h
  exact h ▸ List.nodup_nil

/-! ### Settings -/

theorem names_coreFields (settings : Settings) :
    names settings.coreFields =
      ["extension_suffix", suffixesName, "allow_duplicate_values", "add_trailing_newline"] := rfl

theorem mem_knownNames_of_mem_coreFields (h : name ∈ names settings.coreFields) :
    name ∈ knownNames := by
  rw [names_coreFields] at h
  exact List.mem_append_left [customName] h

/-- The settings that fields give are these fields, the suffixes as an object. -/
theorem ofFields_eq_ok (h : ofFields fields = .ok settings) :
    fieldOr fields suffixesName (.object []) = .object settings.operationSuffixes ∧
      customOf fields = .ok settings.custom := by
  rw [ofFields] at h
  obtain ⟨custom, hcustom, h⟩ := exists_of_bind_eq_ok h
  split at h
  · next suffixes hsuffixes =>
    obtain rfl := Except.ok.inj h
    exact ⟨hsuffixes, hcustom⟩
  · cases h

theorem value_run_load (storage : Storage) (file : Text) (overrides : List (String × Json)) :
    (load storage file overrides).run.value =
      (if file = [] then .ok [] else readFile storage (.ofText file)) >>= fun fields =>
        ofLayers fields overrides := by
  rw [load, loadFile]
  split_ifs
  · rw [pure_bind]
    exact Logged.value_run_liftM _
  · cases readFile storage (.ofText file) with
    | error fault => rfl
    | ok fields => exact Logged.value_run_liftM _

/-- The suffixes of operations in settings that are loaded are distinct. -/
theorem nodup_operationSuffixes_of_load {storage : Storage} {file : Text}
    {overrides : List (String × Json)}
    (h : (load storage file overrides).run.value = .ok settings) :
    (names settings.operationSuffixes).Nodup := by
  rw [value_run_load] at h
  obtain ⟨fields, -, h⟩ := exists_of_bind_eq_ok h
  rw [ofLayers] at h
  obtain ⟨fromFile, hfile, h⟩ := exists_of_bind_eq_ok h
  obtain ⟨all, hall, h⟩ := exists_of_bind_eq_ok h
  have hdistinct := (hasDistinctSuffixes_defaults.layer hfile).layer hall
  have hsuffixes := (ofFields_eq_ok h).1
  rw [fieldOr] at hsuffixes
  cases hlookup : lookup all suffixesName with
  | none =>
    rw [hlookup, Option.getD_none, Json.object.injEq] at hsuffixes
    exact hsuffixes ▸ List.nodup_nil
  | some value =>
    rw [hlookup, Option.getD_some] at hsuffixes
    exact hdistinct _ (hlookup.trans (congrArg some hsuffixes))

end EnumCompanion.Settings
