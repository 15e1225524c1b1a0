import EnumCompanion.Json.Entries
import Mathlib.Data.List.Nodup
import Mathlib.Tactic.Common

/-!
# Fields of objects

Fields that are put among others keep the names distinct, and fields with new
names follow those that were there. A value under a name of an object is not as
deep as the object, and equal values are equally deep: no object holds itself.

* `lookup_overlay`, `overlay_eq_append`, `nodup_overlay`: fields overlaid by others;
* `overlay_overlay`, `mapValues_overlay`: fields overlaid twice, and with other values;
* `Json.depth`, `depth_le_of_same`: how deep a value is;
* `Entries.lookup_overlay_ofFields`, `depth_lt_of_mem_entries`: what entries hold.
-/

namespace EnumCompanion.Json

variable {fields more : List (String × Json)} {name : String} {value : Json}

/-! ### Names -/

/-- The names of fields. -/
abbrev names (fields : List (String × Json)) : List String := fields.map Prod.fst

theorem lookup_eq_none_iff : lookup fields name = none ↔ name ∉ names fields := by
  induction fields with
  | nil => simp [lookup]
  | cons field rest ih =>
    rw [names, List.map_cons, List.mem_cons, not_or, lookup_cons]
    by_cases h : field.1 = name
    · rw [if_pos h]
      exact iff_of_false (Option.some_ne_none _) fun hne => hne.1 h.symm
    · rw [if_neg h]
      exact ih.trans (and_iff_right (Ne.symm h)).symm

theorem mem_of_lookup (h : lookup fields name = some value) : (name, value) ∈ fields := by
  obtain ⟨field, hfield, rfl⟩ := Option.map_eq_some_iff.1 h
  obtain rfl : field.1 = name := by simpa using List.find?_some hfield
  exact List.mem_of_find?_eq_some hfield

/-- Where names are distinct, each field is found under its own. -/
theorem lookup_eq_some_iff (h : (names fields).Nodup) :
    lookup fields name = some value ↔ (name, value) ∈ fields := by
  refine ⟨mem_of_lookup, fun hmem => ?_⟩
  induction fields with
  | nil => exact absurd hmem List.not_mem_nil
  | cons field rest ih =>
    obtain ⟨hfield, hrest⟩ := List.nodup_cons.1 h
    rw [lookup_cons]
    rcases List.mem_cons.1 hmem with rfl | hmem
    · exact if_pos rfl
    · have hne : field.1 ≠ name := fun heq => hfield (heq ▸ List.mem_map_of_mem hmem)
      rw [if_neg hne, ih hrest hmem]

theorem names_put (fields : List (String × Json)) (name : String) (value : Json) :
    names (put fields name value) =
      if name ∈ names fields then names fields else names fields ++ [name] := by
  induction fields with
  | nil => rfl
  | cons field rest ih =>
    have hcons : ∀ rest, names (field :: rest) = field.1 :: names rest := fun rest => rfl
    rw [put, hcons]
    by_cases h : field.1 = name
    · rw [if_pos h, if_pos (h ▸ List.mem_cons_self), h]
      rfl
    · rw [if_neg h, hcons, ih]
      simp only [List.mem_cons, Ne.symm h, false_or]
      split_ifs <;> rfl

theorem nodup_put (h : (names fields).Nodup) (name : String) (value : Json) :
    (names (put fields name value)).Nodup := by
  rw [names_put]
  split_ifs with hmem
  · exact h
  · exact List.nodup_append.2 ⟨h, List.nodup_singleton _, fun a ha b hb hab =>
      hmem (List.mem_singleton.1 hb ▸ hab ▸ ha)⟩

theorem put_eq_append (h : name ∉ names fields) (value : Json) :
    put fields name value = fields ++ [(name, value)] := by
  induction fields with
  | nil => rfl
  | cons field rest ih =>
    rw [names, List.map_cons, List.mem_cons, not_or] at h
    rw [put, if_neg (Ne.symm h.1), ih h.2, List.cons_append]

/-! ### Overlaid fields -/

theorem overlay_cons (fields : List (String × Json)) (field : String × Json)
    (rest : List (String × Json)) :
    overlay fields (field :: rest) = overlay (put fields field.1 field.2) rest := rfl

theorem nodup_overlay (h : (names fields).Nodup) (more : List (String × Json)) :
    (names (overlay fields more)).Nodup := by
  induction more generalizing fields with
  | nil => exact h
  | cons field rest ih => exact ih (nodup_put h _ _)

/-- Fields with new names follow the others. -/
theorem overlay_eq_append (hmore : (names more).Nodup)
    (hnew : ∀ name ∈ names more, name ∉ names fields) : overlay fields more = fields ++ more := by
  induction more generalizing fields with
  | nil => exact (List.append_nil fields).symm
  | cons field rest ih =>
    obtain ⟨hfield, hrest⟩ := List.nodup_cons.1 hmore
    obtain ⟨hfirst, hlater⟩ := List.forall_mem_cons.1 hnew
    rw [overlay_cons, put_eq_append hfirst, ih hrest, List.append_assoc, List.singleton_append]
    intro name hname
    rw [names, List.map_append, List.mem_append, not_or]
    refine ⟨hlater name hname, fun hmem => hfield ?_⟩
    rwa [← List.mem_singleton.1 hmem]

/-- Later fields count, and then those that were there. -/
theorem lookup_overlay (hmore : (names more).Nodup) (name : String) :
    lookup (overlay fields more) name = (lookup more name).or (lookup fields name) := by
  induction more generalizing fields with
  | nil => rfl
  | cons field rest ih =>
    obtain ⟨hfield, hrest⟩ := List.nodup_cons.1 hmore
    rw [overlay_cons, ih hrest, lookup_put, lookup_cons]
    split_ifs with h
    · subst h
      rw [lookup_eq_none_iff.2 hfield, Option.none_or, Option.some_or]
    · rfl

/-! ### Fields overlaid twice -/

theorem put_put (fields : List (String × Json)) (name : String) (value value' : Json) :
    put (put fields name value) name value' = put fields name value' := by
  induction fields with
  | nil => exact if_pos rfl
  | cons field rest ih =>
    by_cases h : field.1 = name
    · rw [put, if_pos h, put, if_pos rfl, put, if_pos h]
    · rw [put, if_neg h, put, if_neg h, put, if_neg h, ih]

/-- A field that is there already is put before or after another one. -/
theorem put_comm {other : String} (hmem : name ∈ names fields) (hne : name ≠ other)
    (value value' : Json) :
    put (put fields name value) other value' = put (put fields other value') name value := by
  induction fields with
  | nil => exact absurd hmem List.not_mem_nil
  | cons field rest ih =>
    by_cases h : field.1 = name
    · have hother : field.1 ≠ other := h ▸ hne
      rw [put, if_pos h, put, if_neg hne, put, if_neg hother, put, if_pos h]
    · have hrest : name ∈ names rest := (List.mem_cons.1 hmem).resolve_left (Ne.symm h)
      rw [put, if_neg h]
      by_cases hother : field.1 = other
      · rw [put, if_pos hother, put, if_pos hother, put, if_neg (Ne.symm hne)]
      · rw [put, if_neg hother, put, if_neg hother, put, if_neg h, ih hrest]

theorem put_overlay (hmem : name ∈ names fields) (hnot : name ∉ names more) (value : Json) :
    put (overlay fields more) name value = overlay (put fields name value) more := by
  induction more generalizing fields with
  | nil => rfl
  | cons field rest ih =>
    rw [names, List.map_cons, List.mem_cons, not_or] at hnot
    have hput : name ∈ names (put fields field.1 field.2) := by
      rw [names_put]
      split_ifs
      exacts [hmem, List.mem_append_left _ hmem]
    rw [overlay_cons, overlay_cons, ih hput hnot.2, put_comm hmem hnot.1]

/-- Fields overlaid by a field among others are overlaid by the others first. -/
theorem overlay_put (hmore : (names more).Nodup) (fields : List (String × Json)) (name : String)
    (value : Json) : overlay fields (put more name value) = put (overlay fields more) name value := by
  induction more generalizing fields with
  | nil => rfl
  | cons field rest ih =>
    obtain ⟨hfield, hrest⟩ := List.nodup_cons.1 hmore
    rw [put]
    split_ifs with h
    · subst h
      have hmem : field.1 ∈ names (put fields field.1 field.2) := by
        rw [names_put]
        split_ifs with hmem
        exacts [hmem, List.mem_append_right _ (List.mem_singleton.2 rfl)]
      rw [overlay_cons, overlay_cons, put_overlay hmem hfield, put_put]
    · rw [overlay_cons, overlay_cons, ih hrest]

/-- Fields are overlaid one after the other or at once. -/
theorem overlay_overlay (hmore : (names more).Nodup) (fields others : List (String × Json)) :
    overlay (overlay fields more) others = overlay fields (overlay more others) := by
  induction others generalizing more with
  | nil => rfl
  | cons field rest ih =>
    rw [overlay_cons, overlay_cons, ← overlay_put hmore, ih (nodup_put hmore _ _)]

/-! ### Fields with other values -/

section

variable (f : String → Json → Json)

/-- Fields with the values that a function gives for names and values. -/
def mapValues (fields : List (String × Json)) : List (String × Json) :=
  fields.map fun field => (field.1, f field.1 field.2)

theorem names_mapValues (fields : List (String × Json)) :
    names (mapValues f fields) = names fields := by
  simp only [names, mapValues, List.map_map, Function.comp_def]

theorem lookup_mapValues (fields : List (String × Json)) (name : String) :
    lookup (mapValues f fields) name = (lookup fields name).map (f name) := by
  induction fields with
  | nil => rfl
  | cons field rest ih =>
    rw [mapValues, List.map_cons, lookup_cons, lookup_cons, ← mapValues, ih]
    split_ifs with h
    · rw [← h]
      rfl
    · rfl

theorem mapValues_put (fields : List (String × Json)) (name : String) (value : Json) :
    mapValues f (put fields name value) = put (mapValues f fields) name (f name value) := by
  induction fields with
  | nil => rfl
  | cons field rest ih =>
    rw [put]
    by_cases h : field.1 = name
    · rw [if_pos h, mapValues, mapValues, List.map_cons, List.map_cons, put, if_pos h]
    · rw [if_neg h, mapValues, mapValues, List.map_cons, List.map_cons, put, if_neg h, ← mapValues,
        ← mapValues, ih]

theorem mapValues_overlay (fields more : List (String × Json)) :
    mapValues f (overlay fields more) = overlay (mapValues f fields) (mapValues f more) := by
  induction more generalizing fields with
  | nil => rfl
  | cons field rest ih => rw [overlay_cons, ih, mapValues_put, mapValues, mapValues,
      mapValues, List.map_cons, overlay_cons]

end

/-! ### Depth -/

mutual

/-- How many values a value lies in at most that are held by this one. -/
def depth : Json → Nat
  | array values => depthOfValues values + 1
  | object fields => depthOfFields fields + 1
  | _ => 0

/-- The same for the values of a list. -/
def depthOfValues : List Json → Nat
  | [] => 0
  | value :: rest => max (depth value) (depthOfValues rest)

/-- The same for the values of fields. -/
def depthOfFields : List (String × Json) → Nat
  | [] => 0
  | (_, value) :: rest => max (depth value) (depthOfFields rest)

end

theorem depth_le_of_mem_values {values : List Json} (h : value ∈ values) :
    depth value ≤ depthOfValues values := by
  induction values with
  | nil => exact absurd h List.not_mem_nil
  | cons other rest ih =>
    rw [depthOfValues]
    rcases List.mem_cons.1 h with rfl | h
    · exact Nat.le_max_left _ _
    · exact Nat.le_trans (ih h) (Nat.le_max_right _ _)

theorem depth_le_of_mem_fields (h : (name, value) ∈ fields) :
    depth value ≤ depthOfFields fields := by
  induction fields with
  | nil => exact absurd h List.not_mem_nil
  | cons field rest ih =>
    rw [depthOfFields]
    rcases List.mem_cons.1 h with rfl | h
    · exact Nat.le_max_left _ _
    · exact Nat.le_trans (ih h) (Nat.le_max_right _ _)

/-- The first of equal fields is found among the others, and so are the rest. -/
theorem of_sameFields_cons {field : String × Json} {rest others : List (String × Json)}
    (h : sameFields (field :: rest) others = true) :
    (∃ found, lookup others field.1 = some found ∧ same field.2 found = true) ∧
      sameFields rest others = true := by
  rw [sameFields, Bool.and_eq_true] at h
  cases hfound : lookup others field.1 with
  | none =>
    rw [hfound] at h
    exact Bool.noConfusion h.1
  | some found =>
    rw [hfound] at h
    exact ⟨⟨found, rfl, h.1⟩, h.2⟩

mutual

/-- A value is not deeper than one it is equal to. -/
theorem depth_le_of_same : (a b : Json) → same a b = true → depth a ≤ depth b
  | array as, b, h => by
    cases b with
    | array bs =>
      rw [depth, depth]
      exact Nat.succ_le_succ (depthOfValues_le as bs (by simpa [same] using h))
    | _ => simp [same, number?] at h
  | object as, b, h => by
    cases b with
    | object bs =>
      rw [depth, depth]
      exact Nat.succ_le_succ (depthOfFields_le as bs (by simp [same] at h; exact h.2))
    | _ => simp [same, number?] at h
  | null, _, _ | bool _, _, _ | int _, _, _ | float _, _, _ | string _, _, _ => Nat.zero_le _

theorem depthOfValues_le : (as bs : List Json) → sameValues as bs = true →
    depthOfValues as ≤ depthOfValues bs
  | [], _, _ => Nat.zero_le _
  | a :: as, [], h => by simp [sameValues] at h
  | a :: as, b :: bs, h => by
    rw [sameValues, Bool.and_eq_true] at h
    rw [depthOfValues, depthOfValues]
    have := depth_le_of_same a b h.1
    have := depthOfValues_le as bs h.2
    omega

theorem depthOfFields_le : (as bs : List (String × Json)) → sameFields as bs = true →
    depthOfFields as ≤ depthOfFields bs
  | [], _, _ => Nat.zero_le _
  | (name, a) :: as, bs, h => by
    obtain ⟨⟨b, hlookup, hsame⟩, hrest⟩ := of_sameFields_cons h
    rw [depthOfFields]
    exact Nat.max_le.2 ⟨Nat.le_trans (depth_le_of_same a b hsame)
      (depth_le_of_mem_fields (mem_of_lookup hlookup)), depthOfFields_le as bs hrest⟩

end

/-- Equal to an object is an object that has an equal value for each field. -/
theorem exists_of_same_object {other : Json} (h : same (.object fields) other = true) :
    ∃ others, other = .object others ∧ ∀ field ∈ fields, ∃ found,
      lookup others field.1 = some found ∧ same field.2 found = true := by
  cases other with
  | object others =>
    have hfields : sameFields fields others = true := by
      rw [same, Bool.and_eq_true] at h
      exact h.2
    refine ⟨others, rfl, ?_⟩
    clear h
    induction fields with
    | nil => nofun
    | cons field rest ih =>
      obtain ⟨hfirst, hrest⟩ := of_sameFields_cons hfields
      exact List.forall_mem_cons.2 ⟨hfirst, ih hrest⟩
  | _ => simp [same, number?] at h

/-! ### Entries -/

theorem same_string_right {key : Json} : same key (.string name) = true ↔ key = .string name := by
  cases key <;> simp [same, number?]

namespace Entries

variable {entries : Entries}

theorem lookup_cons (entry : Json × Json) (rest : Entries) (key : Json) :
    lookup (entry :: rest) key =
      if Json.same entry.1 key then some entry.2 else lookup rest key := by
  by_cases h : Json.same entry.1 key = true <;> simp [lookup, h]

theorem lookup_put_string (entries : Entries) (name other : String) (value : Json) :
    (entries.put (.string name) value).lookup (.string other) =
      if name = other then some value else entries.lookup (.string other) := by
  induction entries with
  | nil =>
    rw [put, lookup_cons, same_string]
    simp only [beq_iff_eq]
  | cons entry rest ih =>
    rw [put]
    by_cases h : Json.same entry.1 (.string name) = true
    · rw [if_pos h, lookup_cons, lookup_cons, same_string_right.1 h, same_string]
      simp only [beq_iff_eq]
      split_ifs <;> rfl
    · rw [if_neg h, lookup_cons, lookup_cons, ih]
      by_cases hother : Json.same entry.1 (.string other) = true
      · rw [if_pos hother, if_pos hother, if_neg]
        rintro rfl
        exact h hother
      · rw [if_neg hother, if_neg hother]

/-- Fields of other names leave what is under a name. -/
theorem lookup_overlay_ofFields (entries : Entries) (h : name ∉ names more) :
    (entries.overlay (ofFields more)).lookup (.string name) = entries.lookup (.string name) := by
  induction more generalizing entries with
  | nil => rfl
  | cons field rest ih =>
    rw [names, List.map_cons, List.mem_cons, not_or] at h
    have hstep : entries.overlay (ofFields (field :: rest)) =
        (entries.put (.string field.1) field.2).overlay (ofFields rest) := rfl
    rw [hstep, ih _ h.2, lookup_put_string, if_neg (Ne.symm h.1)]

theorem mem_of_lookup {key : Json} (h : entries.lookup key = some value) :
    ∃ entry ∈ entries, entry.2 = value := by
  obtain ⟨entry, hentry, rfl⟩ := Option.map_eq_some_iff.1 h
  exact ⟨entry, List.mem_of_find?_eq_some hentry, rfl⟩

theorem mem_put {key : Json} {entry : Json × Json} (h : entry ∈ entries.put key value) :
    entry.2 = value ∨ entry ∈ entries := by
  induction entries with
  | nil => exact .inl (congrArg Prod.snd (List.mem_singleton.1 h))
  | cons other rest ih =>
    rw [put] at h
    split_ifs at h
    · rcases List.mem_cons.1 h with rfl | h
      · exact .inl rfl
      · exact .inr (List.mem_cons_of_mem _ h)
    · rcases List.mem_cons.1 h with rfl | h
      · exact .inr List.mem_cons_self
      · exact (ih h).imp_right (List.mem_cons_of_mem _)

end Entries

/-- An element is not deeper than what it is an element of. -/
theorem depth_le_of_mem_elements {whole : Json} {elements : List Json}
    (h : whole.elements? = some elements) {element : Json} (hmem : element ∈ elements) :
    depth element ≤ depth whole := by
  cases whole with
  | array values =>
    obtain rfl : values = elements := Option.some.inj h
    exact Nat.le_succ_of_le (depth_le_of_mem_values hmem)
  | string text =>
    obtain rfl := Option.some.inj h
    obtain ⟨c, -, rfl⟩ := List.mem_map.1 hmem
    exact Nat.le_refl _
  | object fields =>
    obtain rfl := Option.some.inj h
    obtain ⟨field, -, rfl⟩ := List.mem_map.1 hmem
    exact Nat.zero_le _
  | _ => exact absurd h (Option.some_ne_none _).symm

theorem depth_le_of_entry {index : Nat} {element key : Json}
    (h : entry index element = .ok (key, value)) : depth value ≤ depth element := by
  rw [entry] at h
  split at h
  · cases h
  · next key' value' helements =>
    split_ifs at h
    obtain ⟨rfl, rfl⟩ : key' = key ∧ value' = value := by simpa using h
    exact depth_le_of_mem_elements helements (List.mem_cons_of_mem _ List.mem_cons_self)
  · cases h

/-- What elements give is not deeper than they are. -/
theorem depth_lt_of_overlayElements {bound index : Nat} {elements : List Json}
    {entries result : Entries} (hentries : ∀ entry ∈ entries, depth entry.2 < bound)
    (helements : ∀ element ∈ elements, depth element < bound)
    (h : overlayElements entries index elements = .ok result) :
    ∀ entry ∈ result, depth entry.2 < bound := by
  induction elements generalizing entries index with
  | nil =>
    obtain rfl : entries = result := by simpa [overlayElements] using h
    exact hentries
  | cons element rest ih =>
    obtain ⟨hfirst, hrest⟩ := List.forall_mem_cons.1 helements
    rw [overlayElements] at h
    cases hentry : entry index element with
    | error fault => rw [hentry] at h; cases h
    | ok pair =>
      rw [hentry] at h
      refine ih (fun other hother => ?_) hrest h
      rcases Entries.mem_put hother with hvalue | hmem
      · rw [hvalue]
        exact Nat.lt_of_le_of_lt (depth_le_of_entry hentry) hfirst
      · exact hentries other hmem

/-- The entries that a value gives are not as deep as the value. -/
theorem depth_lt_of_mem_entries {whole : Json} {given : Entries} (h : whole.entries = .ok given) :
    ∀ entry ∈ given, depth entry.2 < depth whole := by
  cases whole with
  | object fields =>
    obtain rfl : Entries.ofFields fields = given := by simpa [entries] using h
    intro entry hentry
    obtain ⟨field, hfield, rfl⟩ := List.mem_map.1 hentry
    exact Nat.lt_succ_of_le (depth_le_of_mem_fields hfield)
  | array values =>
    have h : overlayElements [] 0 values = .ok given := h
    exact depth_lt_of_overlayElements (fun _ hnil => absurd hnil List.not_mem_nil)
      (fun element helement => Nat.lt_succ_of_le (depth_le_of_mem_values helement)) h
  | string text =>
    have h : overlayElements [] 0 (text.toList.map fun c => string (String.ofList [c])) =
        .ok given := h
    cases htext : text.toList with
    | nil =>
      rw [htext] at h
      obtain rfl : [] = given := by simpa [overlayElements] using h
      nofun
    | cons c rest =>
      -- A string of one character is no pair.
      have hfault : entry 0 (string (String.ofList [c])) = .error (.notPair 0 1) := by
        simp [entry, elements?]
      rw [htext, List.map_cons, overlayElements, hfault] at h
      cases h
  | _ => cases h

end EnumCompanion.Json
