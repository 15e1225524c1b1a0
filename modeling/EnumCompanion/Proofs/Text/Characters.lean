import EnumCompanion.Text.Blank
import EnumCompanion.Text.Identifier
import EnumCompanion.Text.Word
import Mathlib.Data.List.Basic
import Mathlib.Data.List.TakeWhile
import Mathlib.Tactic.Common

/-!
# Classes of characters

How the classes lie to one another: what a name is made of belongs to words and
is no blank. Beside these stand the facts on runs of characters of a class that
the scans of declarations and of documents share.

* `isNameChar_iff`: the characters of names, by their code points;
* `isWordChar_of_isNameChar`, `isWordChar_of_isBlank`: the first are word
  characters, blanks are none;
* `takeWhile_append_exact`, `dropWhile_append_exact`: a run ends where the class
  does.
-/

namespace EnumCompanion.Text

/-! ### Names -/

theorem isUpper_iff {c : Char} : c.isUpper = true ↔ 65 ≤ c.toNat ∧ c.toNat ≤ 90 := by
  change decide ('A'.val ≤ c.val ∧ c.val ≤ 'Z'.val) = true ↔ _
  rw [decide_eq_true_eq, UInt32.le_iff_toNat_le, UInt32.le_iff_toNat_le]
  exact Iff.rfl

theorem isLower_iff {c : Char} : c.isLower = true ↔ 97 ≤ c.toNat ∧ c.toNat ≤ 122 := by
  change (decide ('a'.val ≤ c.val) && decide (c.val ≤ 'z'.val)) = true ↔ _
  rw [Bool.and_eq_true, decide_eq_true_eq, decide_eq_true_eq, UInt32.le_iff_toNat_le,
    UInt32.le_iff_toNat_le]
  exact Iff.rfl

/-- What holds of the small letters one by one holds of them all. -/
theorem of_isLower {p : Char → Prop} (h : ∀ n ∈ List.range' 97 26, p (Char.ofNat n)) {c : Char}
    (hc : c.isLower = true) : p c := by
  have hmem : c.toNat ∈ List.range' 97 26 := by
    have := isLower_iff.1 hc
    rw [List.mem_range'_1]
    omega
  have := h c.toNat hmem
  rwa [Char.ofNat_toNat] at this

theorem isNameChar_iff {c : Char} : isNameChar c = true ↔
    (48 ≤ c.toNat ∧ c.toNat ≤ 57) ∨ (65 ≤ c.toNat ∧ c.toNat ≤ 90) ∨ c.toNat = 95 ∨
      (97 ≤ c.toNat ∧ c.toNat ≤ 122) := by
  have hunderscore : c = '_' ↔ c.toNat = 95 := by
    rw [← Char.toNat_inj]
    rfl
  have halpha : c.isAlpha = (c.isUpper || c.isLower) := rfl
  have hdigit : c.isDigit = true ↔ 48 ≤ c.toNat ∧ c.toNat ≤ 57 := by
    simp only [Char.isDigit, Bool.and_eq_true, decide_eq_true_eq, UInt32.le_iff_toNat_le, ge_iff_le]
    exact Iff.rfl
  simp only [isNameChar, Char.isAlphanum, halpha, Bool.or_eq_true, beq_iff_eq, hunderscore,
    isUpper_iff, isLower_iff, hdigit]
  omega

/-- A character of a name belongs to a word. -/
theorem isWordChar_of_isNameChar {c : Char} (h : isNameChar c = true) : isWordChar c = true := by
  have hlt : c.toNat < 128 := by
    have := isNameChar_iff.1 h
    omega
  rw [isWordChar, isAlnum_of_lt hlt]
  exact h

/-- A blank belongs to no word. -/
theorem isWordChar_of_isBlank {c : Char} (h : isBlank c = true) : isWordChar c = false := by
  have hmem : c.toNat ∈ [9, 10, 11, 12, 13, 28, 29, 30, 31, 32, 133, 160, 5760, 8192, 8193, 8194,
      8195, 8196, 8197, 8198, 8199, 8200, 8201, 8202, 8232, 8233, 8239, 8287, 12288] := by
    simp only [isBlank, inRanges, blankRanges, List.any_cons, List.any_nil, Bool.or_eq_true,
      Bool.and_eq_true, decide_eq_true_eq, Bool.false_eq_true, or_false] at h
    simp only [List.mem_cons, List.not_mem_nil, or_false]
    omega
  have hblanks : ∀ n ∈ [9, 10, 11, 12, 13, 28, 29, 30, 31, 32, 133, 160, 5760, 8192, 8193, 8194,
      8195, 8196, 8197, 8198, 8199, 8200, 8201, 8202, 8232, 8233, 8239, 8287, 12288],
      isWordChar (Char.ofNat n) = false := by decide +kernel
  have := hblanks _ hmem
  rwa [Char.ofNat_toNat] at this

/-- A character of a name is no blank. -/
theorem isBlank_of_isNameChar {c : Char} (h : isNameChar c = true) : isBlank c = false := by
  rw [Bool.eq_false_iff]
  exact fun hblank =>
    Bool.noConfusion ((isWordChar_of_isNameChar h).symm.trans (isWordChar_of_isBlank hblank))

theorem isNameChar_of_isUpper {c : Char} (h : c.isUpper = true) : isNameChar c = true := by
  have := isUpper_iff.1 h
  exact isNameChar_iff.2 (by omega)

theorem isNameChar_of_isNameStart {c : Char} (h : isNameStart c = true) : isNameChar c = true := by
  simp only [isNameStart, isNameChar, Char.isAlphanum, Bool.or_eq_true] at h ⊢
  exact h.imp_left .inl

/-- The name of a type is a capital and what may follow it. -/
theorem isTypeName_iff {name : Text} : isTypeName name = true ↔
    ∃ c rest, name = c :: rest ∧ c.isUpper = true ∧ ∀ d ∈ rest, isNameChar d = true := by
  cases name with
  | nil => simp [isTypeName]
  | cons c rest => simp [isTypeName]

theorem isNameChar_of_isTypeName {name : Text} (h : isTypeName name = true) :
    ∀ c ∈ name, isNameChar c = true := by
  obtain ⟨c, rest, rfl, hc, hrest⟩ := isTypeName_iff.1 h
  rintro d (_ | ⟨_, hd⟩)
  exacts [isNameChar_of_isUpper hc, hrest d hd]

/-- The name of a value is a letter or an underscore and what may follow it. -/
theorem isValueName_iff {name : Text} : isValueName name = true ↔
    ∃ c rest, name = c :: rest ∧ isNameStart c = true ∧ ∀ d ∈ rest, isNameChar d = true := by
  cases name with
  | nil => simp [isValueName]
  | cons c rest => simp [isValueName]

theorem isNameChar_of_isValueName {name : Text} (h : isValueName name = true) :
    ∀ c ∈ name, isNameChar c = true := by
  obtain ⟨c, rest, rfl, hc, hrest⟩ := isValueName_iff.1 h
  rintro d (_ | ⟨_, hd⟩)
  exacts [isNameChar_of_isNameStart hc, hrest d hd]

theorem ne_nil_of_isTypeName {name : Text} (h : isTypeName name = true) : name ≠ [] := by
  rintro rfl
  exact Bool.noConfusion h

theorem ne_nil_of_isValueName {name : Text} (h : isValueName name = true) : name ≠ [] := by
  rintro rfl
  exact Bool.noConfusion h

/-- A name fragment holds characters of names and dollar signs. -/
theorem isNameFragment_iff {name : Text} :
    isNameFragment name = true ↔ ∀ c ∈ name, isNameChar c = true ∨ c = '$' := by
  simp [isNameFragment]

theorem isNameFragment_of_isNameChar {name : Text} (h : ∀ c ∈ name, isNameChar c = true) :
    isNameFragment name = true :=
  isNameFragment_iff.2 fun c hc => .inl (h c hc)

theorem isNameFragment_of_isTypeName {name : Text} (h : isTypeName name = true) :
    isNameFragment name = true :=
  isNameFragment_of_isNameChar (isNameChar_of_isTypeName h)

theorem isBlank_of_isNameFragment {name : Text} (h : isNameFragment name = true) :
    ∀ c ∈ name, isBlank c = false := by
  intro c hc
  rcases isNameFragment_iff.1 h c hc with hletter | rfl
  · exact isBlank_of_isNameChar hletter
  · decide

/-! ### Runs -/

/-- A check of all characters of a text. It does not go through all characters
    there are. -/
theorem forall_mem_of_all {p : Char → Prop} [DecidablePred p] {text : Text}
    (h : (text.all fun c => decide (p c)) = true) : ∀ c ∈ text, p c := by
  simpa using h

variable {p : Char → Bool}

/-- A run of a class is read to its end. -/
theorem takeWhile_append_exact {run rest : Text} (hrun : ∀ c ∈ run, p c = true)
    (hrest : rest.head?.any p = false) : (run ++ rest).takeWhile p = run := by
  have hstop : rest.takeWhile p = [] := by
    cases rest with
    | nil => rfl
    | cons c rest => exact List.takeWhile_cons_of_neg (by simpa using hrest)
  rw [List.takeWhile_append_of_pos hrun, hstop, List.append_nil]

/-- Behind a run of a class stands what follows it. -/
theorem dropWhile_append_exact {run rest : Text} (hrun : ∀ c ∈ run, p c = true)
    (hrest : rest.head?.any p = false) : (run ++ rest).dropWhile p = rest := by
  rw [List.dropWhile_append_of_pos hrun]
  cases rest with
  | nil => rfl
  | cons c rest => exact List.dropWhile_cons_of_neg (by simpa using hrest)

theorem head?_dropWhile_any (text : Text) : (text.dropWhile p).head?.any p = false := by
  induction text with
  | nil => rfl
  | cons c rest ih =>
    by_cases h : p c = true
    · rw [List.dropWhile_cons_of_pos h, ih]
    · rw [List.dropWhile_cons_of_neg h]
      simpa using h

theorem of_mem_takeWhile {text : Text} {c : Char} (h : c ∈ text.takeWhile p) : p c = true := by
  have hall : (text.takeWhile p).all p = true := by simp
  exact List.all_eq_true.1 hall c h

/-- The last character of a text, with a character before the text for one that
    is empty. -/
theorem getLast?_cons_or (c : Char) (text : Text) (previous : Option Char) :
    (c :: text).getLast?.or previous = text.getLast?.or (some c) := by
  rw [List.getLast?_cons]
  cases text.getLast? <;> rfl

end EnumCompanion.Text
