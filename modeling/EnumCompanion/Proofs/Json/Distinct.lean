import EnumCompanion.Json.Reader
import EnumCompanion.Proofs.Journal
import EnumCompanion.Proofs.Json.Fields

/-!
# Objects with distinct names

A value is *proper* if no object in it has two fields of one name. What is read is
proper, as fields are put among those before them.

* `IsProper`: the values whose objects have distinct names;
* `IsProper.put`: a field that is put among others;
* `isProper_of_read`: what a text writes is proper.
-/

namespace EnumCompanion.Json

/-- The values whose objects have distinct names, and all values in them. -/
inductive IsProper : Json → Prop where
  /-- A value that holds no others. -/
  | plain {value : Json} (isKey : value.isKey = true) : IsProper value
  /-- A list of such values. -/
  | array {values : List Json} (values_isProper : ∀ value ∈ values, IsProper value) :
      IsProper (array values)
  /-- Distinct names with such values. -/
  | object {fields : List (String × Json)} (nodup : (names fields).Nodup)
      (values_isProper : ∀ field ∈ fields, IsProper field.2) : IsProper (object fields)

variable {fields : List (String × Json)} {values : List Json} {name : String} {value : Json}

/-- A field that is put among others is one of them. -/
theorem mem_put {field : String × Json} (h : field ∈ put fields name value) :
    field = (name, value) ∨ field ∈ fields := by
  induction fields with
  | nil => exact .inl (List.mem_singleton.1 h)
  | cons first rest ih =>
    rw [put] at h
    split_ifs at h
    · exact (List.mem_cons.1 h).imp_right (List.mem_cons_of_mem _)
    · rcases List.mem_cons.1 h with rfl | h
      · exact .inr List.mem_cons_self
      · exact (ih h).imp_right (List.mem_cons_of_mem _)

namespace IsProper

/-- The object without fields. -/
theorem empty : IsProper (.object []) := .object List.nodup_nil nofun

theorem nodup_names (h : IsProper (.object fields)) : (names fields).Nodup := by
  cases h with
  | plain isKey => exact Bool.noConfusion isKey
  | object nodup _ => exact nodup

theorem of_mem_fields (h : IsProper (.object fields)) : ∀ field ∈ fields, IsProper field.2 := by
  cases h with
  | plain isKey => exact Bool.noConfusion isKey
  | object _ values_isProper => exact values_isProper

theorem of_mem_values (h : IsProper (.array values)) : ∀ value ∈ values, IsProper value := by
  cases h with
  | plain isKey => exact Bool.noConfusion isKey
  | array values_isProper => exact values_isProper

theorem of_lookup (h : IsProper (.object fields)) (hlookup : lookup fields name = some value) :
    IsProper value :=
  h.of_mem_fields _ (mem_of_lookup hlookup)

theorem put (h : IsProper (.object fields)) (hvalue : IsProper value) (name : String) :
    IsProper (.object (Json.put fields name value)) := by
  refine .object (nodup_put h.nodup_names name value) fun field hfield => ?_
  rcases mem_put hfield with rfl | hmem
  exacts [hvalue, h.of_mem_fields field hmem]

theorem overlay (h : IsProper (.object fields)) {more : List (String × Json)}
    (hmore : ∀ field ∈ more, IsProper field.2) : IsProper (.object (Json.overlay fields more)) := by
  induction more generalizing fields with
  | nil => exact h
  | cons field rest ih =>
    obtain ⟨hfield, hrest⟩ := List.forall_mem_cons.1 hmore
    exact ih (h.put hfield field.1) hrest

theorem cons (h : IsProper value) (hrest : IsProper (.array values)) :
    IsProper (.array (value :: values)) :=
  .array (List.forall_mem_cons.2 ⟨h, hrest.of_mem_values⟩)

end IsProper

/-! ### What is read -/

variable {text : Text}

/-- Words stand for values that hold no others. -/
theorem isKey_of_word? {taken : Taken Json text} (h : word? text = some taken) :
    taken.value.isKey = true := by
  obtain ⟨⟨word, value⟩, hmem, h⟩ := List.exists_of_findSome?_eq_some h
  have hwords : ∀ pair ∈ words, pair.2.isKey = true := by
    simp [words, isKey]
  split at h
  next word' value' heq =>
  obtain ⟨rfl, rfl⟩ := Prod.mk.inj heq
  split at h
  · split_ifs at h
    obtain rfl := Option.some.inj h
    exact hwords _ hmem
  · cases h

/-- Numbers are integers or have a fraction or a power of ten. -/
theorem isKey_of_numeral {numeral : Numeral} {negative : Bool} {value : Json}
    (h : numeral.value negative = .ok value) : value.isKey = true := by
  unfold Numeral.value at h
  split at h
  · split at h
    · cases h
    · obtain rfl := Except.ok.inj h
      rfl
  · obtain rfl := Except.ok.inj h
    rfl

theorem isKey_of_readNumber {taken : Taken Json text} (h : readNumber text = .ok taken) :
    taken.value.isKey = true := by
  unfold readNumber at h
  dsimp only at h
  split at h
  · cases h
  · split at h
    · cases h
    · next value hvalue =>
      obtain rfl := Except.ok.inj h
      exact isKey_of_numeral hvalue

/-- A list is proper if what is read behind its bracket is. -/
theorem isProper_of_readValue_array {levels : Nat} {taken : Taken Json ('[' :: text)}
    (hvalues : levels ≠ 0 → (∀ after, skipSpace text ≠ ']' :: after) → ∀ values,
      readElements (levels - 1) (skipSpace text) = .ok values → IsProper (.array values.value))
    (h : readValue levels ('[' :: text) = .ok taken) : IsProper taken.value := by
  rw [readValue] at h
  split_ifs at h with hlevels
  split at h
  · obtain rfl := Except.ok.inj h
    exact .array (List.forall_mem_nil _)
  · next hopen =>
    obtain ⟨values, hread, h⟩ := exists_of_bind_eq_ok h
    obtain rfl := Except.ok.inj h
    exact hvalues hlevels hopen values hread

/-- An object is proper if what is read behind its brace is. -/
theorem isProper_of_readValue_object {levels : Nat} {taken : Taken Json ('\x7b' :: text)}
    (hfields : levels ≠ 0 → (∀ after, skipSpace text ≠ '\x7d' :: after) → ∀ fields,
      readFields (levels - 1) [] (skipSpace text) = .ok fields → IsProper (.object fields.value))
    (h : readValue levels ('\x7b' :: text) = .ok taken) : IsProper taken.value := by
  rw [readValue] at h
  split_ifs at h with hlevels
  split at h
  · obtain rfl := Except.ok.inj h
    exact .empty
  · next hopen =>
    obtain ⟨fields, hread, h⟩ := exists_of_bind_eq_ok h
    obtain rfl := Except.ok.inj h
    exact hfields hlevels hopen fields hread

/-- Fields are proper if their first value is, and if those behind it are as soon as
    those before them are. -/
theorem isProper_of_readFields_cons {levels : Nat}
    {taken : Taken (List (String × Json)) ('"' :: text)}
    (hvalue : ∀ (name : Taken Text text) (behind : Text), skipSpace name.rest = ':' :: behind →
      ∀ value, readValue levels (skipSpace behind) = .ok value → IsProper value.value)
    (hothers : ∀ (name : Taken Text text) (behind : Text), skipSpace name.rest = ':' :: behind →
      ∀ (value : Taken Json (skipSpace behind)) (after : Text), skipSpace value.rest = ',' :: after →
        ∀ others, IsProper (.object (put fields name.value.str value.value)) →
          readFields levels (put fields name.value.str value.value) (skipSpace after) = .ok others →
            IsProper (.object others.value))
    (hfields : IsProper (.object fields))
    (h : readFields levels fields ('"' :: text) = .ok taken) : IsProper (.object taken.value) := by
  rw [readFields] at h
  obtain ⟨name, -, h⟩ := exists_of_bind_eq_ok h
  dsimp only at h
  split at h
  · next behind hcolon =>
    obtain ⟨value, hread, h⟩ := exists_of_bind_eq_ok h
    have hput := hfields.put (hvalue name behind hcolon value hread) name.value.str
    split at h
    · obtain rfl := Except.ok.inj h
      exact hput
    · next after hcomma =>
      obtain ⟨others, hread, h⟩ := exists_of_bind_eq_ok h
      obtain rfl := Except.ok.inj h
      exact hothers name behind hcolon value after hcomma others hput hread
    · cases h
  · cases h

/-- A list is proper if its first value is and those behind it are. -/
theorem isProper_of_readElements_cons {levels : Nat} {taken : Taken (List Json) text}
    (hvalue : ∀ value, readValue levels text = .ok value → IsProper value.value)
    (hothers : ∀ (value : Taken Json text) (after : Text), skipSpace value.rest = ',' :: after →
      ∀ others, readElements levels (skipSpace after) = .ok others → IsProper (.array others.value))
    (h : readElements levels text = .ok taken) : IsProper (.array taken.value) := by
  rw [readElements] at h
  obtain ⟨value, hread, h⟩ := exists_of_bind_eq_ok h
  split at h
  · obtain rfl := Except.ok.inj h
    exact .array (List.forall_mem_singleton.2 (hvalue value hread))
  · next after hcomma =>
    obtain ⟨others, hrest, h⟩ := exists_of_bind_eq_ok h
    obtain rfl := Except.ok.inj h
    exact (hvalue value hread).cons (hothers value after hcomma others hrest)
  · cases h

/-- Values, fields and lists that are read are proper, fields if those before them
    are. -/
theorem isProper_of_readers :
    (∀ (levels : Nat) (text : Text) (taken : Taken Json text),
      readValue levels text = .ok taken → IsProper taken.value) ∧
    (∀ (levels : Nat) (fields : List (String × Json)) (text : Text)
      (taken : Taken (List (String × Json)) text), IsProper (.object fields) →
        readFields levels fields text = .ok taken → IsProper (.object taken.value)) ∧
    ∀ (levels : Nat) (text : Text) (taken : Taken (List Json) text),
      readElements levels text = .ok taken → IsProper (.array taken.value) := by
  apply readValue.mutual_induct
  -- The empty text and strings.
  case case1 =>
    intro levels taken h
    rw [readValue] at h
    cases h
  case case2 =>
    intro levels rest taken h
    rw [readValue] at h
    obtain ⟨body, -, h⟩ := exists_of_bind_eq_ok h
    obtain rfl := Except.ok.inj h
    exact .plain rfl
  -- Lists: too deep, empty, and with values.
  case case3 =>
    intro rest _ taken
    exact isProper_of_readValue_array fun hlevels => absurd rfl hlevels
  case case4 =>
    intro levels rest _ _ after hclose taken
    exact isProper_of_readValue_array fun _ hopen => absurd hclose (hopen after)
  case case5 =>
    intro levels rest _ _ _ ih taken
    exact isProper_of_readValue_array fun _ _ => ih
  -- Objects: too deep, empty, and with fields.
  case case6 =>
    intro rest _ taken
    exact isProper_of_readValue_object fun hlevels => absurd rfl hlevels
  case case7 =>
    intro levels rest _ _ after hclose taken
    exact isProper_of_readValue_object fun _ hopen => absurd hclose (hopen after)
  case case8 =>
    intro levels rest _ _ _ ih taken
    exact isProper_of_readValue_object fun _ _ fields => ih fields .empty
  -- Words and numbers.
  case case9 =>
    intro levels text h₁ h₂ h₃ h₄ word hword taken h
    rw [readValue] at h
    · rw [hword] at h
      obtain rfl := Except.ok.inj h
      exact .plain (isKey_of_word? hword)
    all_goals assumption
  case case10 =>
    intro levels text h₁ h₂ h₃ h₄ hword taken h
    rw [readValue] at h
    · rw [hword] at h
      exact .plain (isKey_of_readNumber h)
    all_goals assumption
  -- Fields, and what is none.
  case case11 =>
    intro levels fields opened ihValue ihFields taken
    exact isProper_of_readFields_cons ihValue ihFields
  case case12 =>
    intro levels fields other hquote taken hfields h
    rw [readFields] at h
    · cases h
    · exact hquote
  -- The values of a list.
  case case13 =>
    intro levels text ihValue ihRest taken
    exact isProper_of_readElements_cons ihValue ihRest

/-- What a text writes is proper. -/
theorem isProper_of_read {levels : Nat} {value : Json} (h : read text levels = .ok value) :
    IsProper value := by
  rw [read, mapError_eq_ok_iff, readText] at h
  split_ifs at h
  obtain ⟨taken, htaken, h⟩ := exists_of_bind_eq_ok h
  split at h
  · obtain rfl := Except.ok.inj h
    exact isProper_of_readers.1 _ _ taken htaken
  · cases h

end EnumCompanion.Json
