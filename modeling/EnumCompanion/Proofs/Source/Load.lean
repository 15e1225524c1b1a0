import EnumCompanion.Proofs.Journal
import EnumCompanion.Proofs.Storage
import EnumCompanion.Proofs.Text.Utf8
import EnumCompanion.Source.Load

/-!
# Faults of sources

A source is loaded or its fault is declared, but for three choices: a file whose
name is too long to look for, a malformed address, and a standard input that is no
text. Files and answers that are no text are declared faults, and so is every
failure of a request.

* `endsWell_ofFile_iff`, `endsWell_ofUrl_iff`, `endsWell_ofInput_iff`: the three sources;
* `endsWell_load_iff_isSound`: exactly the choices with which loading ends well.
-/

namespace EnumCompanion

open Journal

namespace Source

variable {around : Surroundings} {choice : Choice} {storage : Storage} {path : Path}

/-- Loading ends with a source or with a declared fault. -/
abbrev EndsDeclared (computation : ExceptT Fault Logged Source) : Prop :=
  EndsWell (Fault.isDeclared ·) (fun _ => True) computation.run.value

/-! ### Files -/

/-- What is read of a file is its text, with a line feed for each of its line
    ends. -/
theorem exists_text_of_readFile {text' : Text}
    (h : readFile storage path = .ok text') :
    ∃ text, storage.read path = .ok (Utf8.encode text) ∧ text' = text.withLineFeeds := by
  rw [readFile] at h
  obtain ⟨content, hread, hrest⟩ := exists_of_bind_eq_ok h
  obtain ⟨text, hdecode, htext⟩ := exists_of_bind_eq_ok hrest
  obtain rfl := Utf8.decode_eq_ok_iff.1 (mapError_eq_ok_iff.1 hdecode)
  exact ⟨text, mapError_eq_ok_iff.1 hread, (Except.ok.inj htext).symm⟩

theorem exists_text_of_fetchFile {source : Source}
    (h : (fetchFile storage path).run.value = .ok source) :
    ∃ text, storage.read path = .ok (Utf8.encode text) ∧ source.text = text.withLineFeeds := by
  rw [fetchFile] at h
  cases hfile : readFile storage path with
  | error fault =>
    rw [hfile] at h
    exact absurd h error_ne_ok
  | ok text =>
    rw [hfile] at h
    obtain rfl := Except.ok.inj h
    exact exists_text_of_readFile hfile

/-- What keeps a file from being read is declared. -/
theorem isDeclared_of_readFile {fault : Fault} (h : readFile storage path = .error fault) :
    fault.isDeclared = true := by
  rw [readFile] at h
  cases hread : storage.read path with
  | error reason =>
    rw [hread] at h
    obtain rfl := Except.error.inj h
    rfl
  | ok content =>
    rw [hread] at h
    change (Utf8.decode content).mapError (Fault.fileNotUtf8 path) >>= _ = _ at h
    cases hdecode : Utf8.decode content with
    | error reason =>
      rw [hdecode] at h
      obtain rfl := Except.error.inj h
      rfl
    | ok text =>
      rw [hdecode] at h
      exact absurd h.symm error_ne_ok

/-- What keeps a file that is there from being loaded is declared. -/
theorem endsWell_fetchFile : EndsDeclared (fetchFile storage path) := by
  rw [EndsDeclared, fetchFile]
  cases hfile : readFile storage path with
  | error fault => exact isDeclared_of_readFile hfile
  | ok text => trivial

/-- A file is loaded or its fault is declared if its name is not too long. -/
theorem endsWell_ofFile_iff {file : Text} : EndsDeclared (ofFile storage file) ↔
    storage.locate (.ofText file) ≠ .error .tooLong := by
  rw [Ne, Storage.locate_eq_tooLong_iff, EndsDeclared, ofFile, Logged.value_run_bind,
    Logged.value_run_lift, ok_bind, Logged.value_run_bind, findFile]
  cases storage.holds (.ofText file) with
  | error fault => exact iff_of_false Bool.false_ne_true (not_not_intro ⟨fault, rfl⟩)
  | ok present =>
    refine iff_of_true ?_ not_exists_ok_eq_error
    cases present with
    | false => rfl
    | true => exact endsWell_fetchFile

/-! ### Downloads -/

/-- What an address leads to is loaded or its fault is declared if the address is not
    malformed, whatever comes of the request. -/
theorem endsWell_ofUrl_iff {reply : Reply} {url : Text} : EndsDeclared (ofUrl reply url) ↔
    ∃ address, Address.read url = .ok address := by
  rw [EndsDeclared, ofUrl, Logged.value_run_bind, Logged.value_run_liftM, endsWell_bind_iff]
  cases Address.read url with
  | error fault => exact iff_of_false Bool.false_ne_true not_exists_error_eq_ok
  | ok address =>
    refine iff_of_true ?_ ⟨address, rfl⟩
    simp only [Except.mapError, EndsWell]
    split_ifs
    · rfl
    · rw [Logged.value_run_bind, Logged.value_run_lift, ok_bind]
      cases reply.body with
      | error failure => rfl
      | ok body =>
        dsimp only
        cases Utf8.decode body with
        | error fault => rfl
        | ok text => trivial

/-! ### The standard input -/

/-- The standard input is loaded if it is a text. -/
theorem endsWell_ofInput_iff {input : Bytes} : EndsDeclared (ofInput input) ↔
    ∃ text, input = Utf8.encode text := by
  simp only [← Utf8.decode_eq_ok_iff]
  rw [EndsDeclared, ofInput, Logged.value_run_bind, Logged.value_run_liftM, endsWell_bind_iff]
  cases Utf8.decode input with
  | error fault => exact iff_of_false Bool.false_ne_true not_exists_error_eq_ok
  | ok text => exact iff_of_true trivial ⟨text, rfl⟩

/-! ### Choice -/

/-- What is chosen can be asked for: the name of a file is not too long, an address
    is not malformed, and the standard input is a text. -/
structure IsSound (around : Surroundings) (choice : Choice) : Prop where
  file : choice.file ≠ [] → around.storage.locate (.ofText choice.file) ≠ .error .tooLong
  url : choice.url ≠ [] → ∃ address, Address.read choice.url = .ok address
  input : choice.input = true → ∃ text, around.input = Utf8.encode text

/-- The one source that is chosen. -/
theorem Choice.cases_of_length_kinds (h : choice.kinds.length = 1) :
    (choice.file ≠ [] ∧ choice.url = [] ∧ choice.input = false) ∨
      (choice.file = [] ∧ choice.url ≠ [] ∧ choice.input = false) ∨
        (choice.file = [] ∧ choice.url = [] ∧ choice.input = true) := by
  by_cases hfile : choice.file = [] <;> by_cases hurl : choice.url = [] <;>
    cases hinput : choice.input <;> simp_all [kinds]

/-- The source is from where the one that is chosen is. -/
theorem Choice.origin_eq (h : choice.kinds.length = 1) : choice.origin =
    if choice.file ≠ [] then .ok (.file choice.file)
    else if choice.url ≠ [] then .ok (.address choice.url)
    else .ok .input := by
  have hne : choice.kinds ≠ [] := List.ne_nil_of_length_eq_add_one h
  rw [origin, if_neg hne, if_neg (Nat.not_lt.2 (Nat.le_of_eq h))]

/-- A source is loaded, or its fault is declared, exactly if not one source is chosen
    or the one that is chosen can be asked for. -/
theorem endsWell_load_iff_isSound : EndsDeclared (load around choice) ↔
    (choice.kinds.length = 1 → IsSound around choice) := by
  rw [EndsDeclared, load, Logged.value_run_bind, Logged.value_run_liftM]
  by_cases hone : choice.kinds.length = 1
  · rw [Choice.origin_eq hone, forall_prop_of_true hone]
    rcases Choice.cases_of_length_kinds hone with
      ⟨hfile, hurl, hinput⟩ | ⟨hfile, hurl, hinput⟩ | ⟨hfile, hurl, hinput⟩
    · rw [if_pos hfile, ok_bind, ← EndsDeclared, endsWell_ofFile_iff]
      refine ⟨fun h => ⟨fun _ => h, fun hne => absurd hurl hne, ?_⟩, fun h => h.file hfile⟩
      exact fun htrue => Bool.noConfusion (htrue.symm.trans hinput)
    · rw [if_neg (not_not_intro hfile), if_pos hurl, ok_bind, ← EndsDeclared, endsWell_ofUrl_iff]
      refine ⟨fun h => ⟨fun hne => absurd hfile hne, fun _ => h, ?_⟩, fun h => h.url hurl⟩
      exact fun htrue => Bool.noConfusion (htrue.symm.trans hinput)
    · rw [if_neg (not_not_intro hfile), if_neg (not_not_intro hurl), ok_bind, ← EndsDeclared,
        endsWell_ofInput_iff]
      exact ⟨fun h => ⟨fun hne => absurd hfile hne, fun hne => absurd hurl hne, fun _ => h⟩,
        fun h => h.input hinput⟩
  · refine iff_of_true ?_ fun h => absurd h hone
    rw [Choice.origin]
    split_ifs with hnone hseveral
    · rfl
    · rfl
    all_goals
      have := List.length_pos_iff.2 hnone
      omega

/-- An address with a bracket that nothing closes is a fault that is not declared. -/
theorem load_malformedUrl_bracket : ∃ fault,
    (load { storage := {}, input := [], reply := .answered 200 false [] }
        { url := "http://[".toList }).run.value = .error fault ∧
      fault.isDeclared = false :=
  ⟨.malformedUrl .misplacedBracket, rfl, rfl⟩

end Source

end EnumCompanion
