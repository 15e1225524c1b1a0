import EnumCompanion.Storage.Basic
import EnumCompanion.Proofs.Journal
import Mathlib.Data.List.TakeDrop
import Mathlib.Tactic.Common

/-!
# Files that are written

A file that is written can be read, and all other files are as they were: where a
path leads depends on the folders, as long as it leads somewhere, and these stay.
A write that fails leaves all files as they were, or that one file with a
beginning of what was to be written.

* `Storage.locate_eq_ok`: the same folders lead to the same place;
* `Storage.Changes`, `Storage.exists_of_extend`: a change is one of a single file;
* `Storage.Falters`, `Storage.falters_of_write`: what a write that fails leaves;
* `Storage.AgreesBut`: storages that differ in files at some places;
* `Storage.Writes`, `Storage.writes_of_write`: what a file is after it was written.
-/

namespace EnumCompanion.Storage

variable {storage storage' : Storage} {path : Path} {content : Bytes}

theorem isFolderAt_eq (h : storage'.folders = storage.folders) (location : Location) :
    storage'.isFolderAt location = storage.isFolderAt location := by
  rw [isFolderAt, isFolderAt, h]

theorem walk_eq_ok (h : storage'.folders = storage.folders) {here there : Location}
    {parts : List Text} (hwalk : storage.walk here parts = .ok there) :
    storage'.walk here parts = .ok there := by
  induction parts generalizing here with
  | nil => exact hwalk
  | cons part rest ih =>
    rw [walk] at hwalk ⊢
    rw [isFolderAt_eq h]
    split_ifs at hwalk ⊢
    · exact ih hwalk
    · exact ih hwalk

/-- The same folders lead to the same place. -/
theorem locate_eq_ok (h : storage'.folders = storage.folders) {location : Location}
    (hlocate : storage.locate path = .ok location) : storage'.locate path = .ok location := by
  rw [locate] at hlocate ⊢
  split_ifs at hlocate ⊢
  exact walk_eq_ok h hlocate

/-- The same folders lead to the same places. -/
theorem locate_eq_ok_iff (h : storage'.folders = storage.folders) {location : Location} :
    storage'.locate path = .ok location ↔ storage.locate path = .ok location :=
  ⟨locate_eq_ok h.symm, locate_eq_ok h⟩

/-! ### What is there -/

/-- Only of a path that is too long it is not known whether there is something. -/
theorem locate_eq_tooLong_iff :
    storage.locate path = .error .tooLong ↔ ∃ fault, storage.holds path = .error fault := by
  unfold holds
  cases storage.locate path with
  | ok location => exact iff_of_false (Ne.symm error_ne_ok) not_exists_ok_eq_error
  | error fault =>
    cases fault with
    | tooLong => exact iff_of_true rfl ⟨_, rfl⟩
    | _ => exact iff_of_false nofun not_exists_ok_eq_error

/-- What is read is there. -/
theorem holds_of_read (h : storage.read path = .ok content) : storage.holds path = .ok true := by
  rw [Storage.read] at h
  obtain ⟨location, hlocate, h⟩ := exists_of_bind_eq_ok h
  simp only [holds, hlocate]
  split_ifs at h
  cases hfile : storage.file? location with
  | none =>
    rw [hfile] at h
    cases h
  | some held => rw [Option.isSome_some, Bool.or_true]

/-! ### One file -/

/-- A storage and another one, in which the file at a place has some content. -/
structure Changes (storage storage' : Storage) (location : Location) (content : Bytes) : Prop where
  folders : storage'.folders = storage.folders
  room : storage'.room = storage.room
  isFolderAt : storage.isFolderAt location = false
  file : storage'.file? location = some content
  /-- All other files are as they were. -/
  frame : ∀ other, other ≠ location → storage'.file? other = storage.file? other

theorem changes_put {location : Location} (hfolder : storage.isFolderAt location = false) :
    storage.Changes (storage.put location content) location content := by
  refine ⟨rfl, rfl, hfolder, ?_, fun other hother => ?_⟩
  · rw [file?, put, List.find?_cons_of_pos (by simp)]
    rfl
  · rw [file?, file?, put, List.find?_cons_of_neg (by simpa using hother.symm), List.find?_filter]
    congr 2
    funext file
    by_cases hfile : file.1 = other
    · simp [hfile, hother]
    · simp [hfile]

/-- Content for which there is room is taken as a whole. -/
theorem taken_eq_self_iff {location : Location} {held : Bytes} :
    storage.taken location held content = content ↔
      ∀ most, storage.room location = some most → content.length ≤ most - held.length := by
  rw [taken]
  cases storage.room location with
  | none => exact iff_of_true rfl nofun
  | some most => simp [List.take_eq_self_iff]

/-- A file that is extended is the one at the place that the path leads to. -/
theorem exists_of_extend {kept : Bytes → Bytes} (h : storage.extend path kept content = .ok storage') :
    ∃ location, storage.locate path = .ok location ∧
      storage.Changes storage' location (kept ((storage.file? location).getD []) ++ content) := by
  rw [extend] at h
  cases hlocate : storage.locate path with
  | error fault =>
    rw [hlocate] at h
    cases h
  | ok location =>
    rw [hlocate] at h
    dsimp only at h
    split_ifs at h with hfolder htaken
    obtain rfl := Except.ok.inj h
    rw [htaken]
    exact ⟨location, rfl, changes_put (Bool.eq_false_iff.2 hfolder)⟩

/-- What is left where a file cannot be extended. -/
theorem cases_of_extend_eq_error {kept : Bytes → Bytes} {failure : Failure}
    (h : storage.extend path kept content = .error failure) :
    failure.storage = storage ∨ ∃ location, storage.locate path = .ok location ∧
      storage.taken location (kept ((storage.file? location).getD [])) content ≠ content ∧
        storage.Changes failure.storage location (kept ((storage.file? location).getD []) ++
          storage.taken location (kept ((storage.file? location).getD [])) content) := by
  rw [extend] at h
  cases hlocate : storage.locate path with
  | error fault =>
    rw [hlocate] at h
    obtain rfl := Except.error.inj h
    exact .inl rfl
  | ok location =>
    rw [hlocate] at h
    dsimp only at h
    split_ifs at h with hfolder htaken
    · obtain rfl := Except.error.inj h
      exact .inl rfl
    · obtain rfl := Except.error.inj h
      exact .inr ⟨location, rfl, htaken, changes_put (Bool.eq_false_iff.2 hfolder)⟩

/-- What a write that fails leaves: the files as they were, or the one at the place
    that the path leads to with the beginning that there is room for. -/
inductive Falters (storage : Storage) (path : Path) (content : Bytes) (storage' : Storage) : Prop
  /-- The file cannot be opened. -/
  | unopened (same : storage' = storage)
  /-- There is no room for the rest. -/
  | cut {location : Location} {most : Nat} (locate : storage.locate path = .ok location)
      (room : storage.room location = some most) (short : most < content.length)
      (changes : storage.Changes storage' location (content.take most))

theorem falters_of_write {failure : Failure} (h : storage.write path content = .error failure) :
    storage.Falters path content failure.storage := by
  rcases cases_of_extend_eq_error h with hsame | ⟨location, hlocate, htaken, hchanges⟩
  · exact .unopened hsame
  rw [Ne, taken_eq_self_iff] at htaken
  simp only [not_forall, exists_prop] at htaken
  obtain ⟨most, hmost, hshort⟩ := htaken
  rw [taken, hmost] at hchanges
  exact .cut hlocate hmost (Nat.not_le.1 hshort) hchanges

/-- The file at the place that was changed is read as what it holds now. -/
theorem Changes.read_eq {location : Location} (h : storage.Changes storage' location content)
    (hlocate : storage.locate path = .ok location) : storage'.read path = .ok content := by
  rw [Storage.read, locate_eq_ok h.folders hlocate, ok_bind, isFolderAt_eq h.folders, h.isFolderAt,
    if_neg Bool.false_ne_true, h.file]

/-! ### All other files -/

/-- A storage and another one with the same folders and the same room, and with the
    same files but for those at some places. -/
structure AgreesBut (touched : Location → Prop) (storage storage' : Storage) : Prop where
  folders : storage'.folders = storage.folders
  room : storage'.room = storage.room
  frame : ∀ location, ¬touched location → storage'.file? location = storage.file? location

namespace AgreesBut

variable {touched touched' : Location → Prop} {storage'' : Storage}

theorem refl (touched : Location → Prop) (storage : Storage) : storage.AgreesBut touched storage :=
  ⟨rfl, rfl, fun _ _ => rfl⟩

theorem trans (h : AgreesBut touched storage storage') (h' : AgreesBut touched storage' storage'') :
    AgreesBut touched storage storage'' :=
  ⟨h'.folders.trans h.folders, h'.room.trans h.room, fun location hnot =>
    (h'.frame location hnot).trans (h.frame location hnot)⟩

theorem mono (h : AgreesBut touched storage storage')
    (htouched : ∀ location, touched location → touched' location) :
    AgreesBut touched' storage storage' :=
  ⟨h.folders, h.room, fun location hnot =>
    h.frame location fun htouch => hnot (htouched location htouch)⟩

/-- A file that is not at one of the places is read as before. -/
theorem read_eq (h : AgreesBut touched storage storage') {location : Location}
    (hlocate : storage.locate path = .ok location) (hnot : ¬touched location) :
    storage'.read path = storage.read path := by
  rw [Storage.read, Storage.read, locate_eq_ok h.folders hlocate, hlocate, ok_bind, ok_bind,
    isFolderAt_eq h.folders, h.frame location hnot]

end AgreesBut

/-- A change of a file agrees but for its place. -/
theorem Changes.agreesBut {location : Location} (h : storage.Changes storage' location content) :
    AgreesBut (· = location) storage storage' :=
  ⟨h.folders, h.room, h.frame⟩

/-- More content in a file, or what there is room for, agrees but for the place that
    its path leads to. -/
theorem agreesBut_append (storage : Storage) (path : Path) (content : Bytes) :
    AgreesBut (fun location => storage.locate path = .ok location) storage
      (match storage.append path content with
        | .ok storage => storage
        | .error failure => failure.storage) := by
  cases happend : storage.append path content with
  | ok storage' =>
    obtain ⟨location, hlocate, hchanges⟩ := exists_of_extend happend
    exact hchanges.agreesBut.mono fun other hother => hother ▸ hlocate
  | error failure =>
    rcases cases_of_extend_eq_error happend with hsame | ⟨location, hlocate, -, hchanges⟩
    · exact hsame ▸ .refl _ _
    · exact hchanges.agreesBut.mono fun other hother => hother ▸ hlocate

/-! ### A file that is written -/

/-- A file can be written where its path leads to no folder and there is room. -/
theorem exists_write_eq_ok_iff : (∃ storage', storage.write path content = .ok storage') ↔
    ∃ location, storage.locate path = .ok location ∧ storage.isFolderAt location = false ∧
      ∀ most, storage.room location = some most → content.length ≤ most := by
  rw [write, extend]
  cases storage.locate path with
  | error fault => exact iff_of_false not_exists_error_eq_ok fun ⟨_, h, _⟩ => error_ne_ok h
  | ok location =>
    simp only [Except.ok.injEq, exists_eq_left']
    by_cases hfolder : storage.isFolderAt location = true
    · rw [if_pos hfolder, hfolder]
      exact iff_of_false not_exists_error_eq_ok fun h => Bool.noConfusion h.1
    rw [if_neg hfolder, and_iff_right (Bool.eq_false_iff.2 hfolder)]
    by_cases htaken : storage.taken location [] content = content
    · rw [if_pos htaken]
      exact iff_of_true ⟨_, rfl⟩ (taken_eq_self_iff.1 htaken)
    · rw [if_neg htaken]
      exact iff_of_false not_exists_error_eq_ok fun h => htaken (taken_eq_self_iff.2 h)

/-- A file that can be written can be emptied before it is. -/
theorem exists_write_again (h : storage.write path content = .ok storage') :
    ∃ cleared, storage.write path [] = .ok cleared ∧
      ∃ saved, cleared.write path content = .ok saved := by
  obtain ⟨location, hlocate, hfolder, hroom⟩ := exists_write_eq_ok_iff.1 ⟨storage', h⟩
  obtain ⟨cleared, hcleared⟩ : ∃ cleared, storage.write path [] = .ok cleared :=
    exists_write_eq_ok_iff.2 ⟨location, hlocate, hfolder, fun most _ => Nat.zero_le most⟩
  obtain ⟨there, hthere, hchanges⟩ := exists_of_extend hcleared
  refine ⟨cleared, hcleared, exists_write_eq_ok_iff.2
    ⟨location, locate_eq_ok hchanges.folders hlocate, ?_, ?_⟩⟩
  · rwa [isFolderAt_eq hchanges.folders]
  · rwa [hchanges.room]

/-- What a file is after it was written: it is there and holds what was written. -/
structure Writes (storage : Storage) (path : Path) (content : Bytes) : Prop where
  holds : storage.holds path = .ok true
  read : storage.read path = .ok content

theorem writes_of_write (h : storage.write path content = .ok storage') :
    storage'.Writes path content := by
  obtain ⟨location, hlocate, hchanges⟩ := exists_of_extend h
  have hread : storage'.read path = .ok content := hchanges.read_eq hlocate
  exact ⟨holds_of_read hread, hread⟩

end EnumCompanion.Storage
