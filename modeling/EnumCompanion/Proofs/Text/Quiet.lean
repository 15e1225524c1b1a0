import EnumCompanion.Proofs.Text.Characters

/-!
# Texts without mentions

Declarations and blocks are found by a word in small letters, blanks and a
capital. A text is *quiet* for some words when none of them introduces a capital
in it, whatever follows, and none is left open at its end. Texts that are quiet
stay so when they are put together.

* `Quiet`: the texts without mentions;
* `Quiet.append`: two of them, one behind the other;
* `quiet_of_isQuiet`: a check for fixed texts;
* `quiet_name_append`, `quiet_run_append`: any name or run without blanks, and a
  fixed text behind it;
* `eq_append_of_introduction`: a word, blanks and a name are not cut by a `Blunt`
  text.
-/

namespace EnumCompanion.Text

/-- A text that starts with one of some words, blanks and a capital, where
    `previous` is the character before it. -/
def Introduces (words : List Text) (previous : Option Char) (text : Text) : Prop :=
  previous.any isWordChar = false ∧ ∃ word ∈ words, ∃ gap c rest, gap ≠ [] ∧
    (∀ b ∈ gap, isBlank b = true) ∧ c.isUpper = true ∧ text = word ++ (gap ++ c :: rest)

/-- A text in which none of some words introduces a capital. -/
def Quiet (words : List Text) (text : Text) : Prop :=
  ∀ before rest behind, text = before ++ rest → rest ≠ [] →
    ¬Introduces words before.getLast? (rest ++ behind)

variable {words : List Text}

theorem quiet_nil : Quiet words [] := by
  intro before rest behind h hne
  exact absurd (List.append_eq_nil_iff.1 h.symm).2 hne

theorem Introduces.none {previous : Option Char} {text : Text}
    (h : Introduces words previous text) : Introduces words none text := ⟨rfl, h.2⟩

theorem Quiet.append {text rest : Text} (h : Quiet words text) (hrest : Quiet words rest) :
    Quiet words (text ++ rest) := by
  intro before rest' behind htext hne
  rcases List.append_eq_append_iff.1 htext with ⟨before', rfl, hrest'⟩ | ⟨more, htext', rfl⟩
  · intro hintroduces
    rw [List.getLast?_append] at hintroduces
    cases before' with
    | nil => exact hrest [] rest' behind hrest' hne hintroduces.none
    | cons c before' =>
      obtain ⟨d, hd⟩ := Option.isSome_iff_exists.1
        (List.getLast?_isSome.2 (List.cons_ne_nil c before'))
      rw [hd, Option.some_or, ← hd] at hintroduces
      exact hrest (c :: before') rest' behind hrest' hne hintroduces
  · cases more with
    | nil =>
      intro hintroduces
      exact hrest [] rest behind rfl hne hintroduces.none
    | cons c more =>
      rw [List.append_assoc]
      exact h before (c :: more) (rest ++ behind) htext' (List.cons_ne_nil c more)

/-! ### Fixed texts -/

/-- Whether a text goes on with something other than blanks and a capital. -/
def straysGap : Text → Bool
  | [] => false
  | c :: rest => if isBlank c then straysGap rest else !c.isUpper

/-- Whether a text goes on with something other than a word, blanks and a
    capital. -/
def strays : Text → Text → Bool
  | _, [] => false
  | [], c :: rest => !isBlank c || straysGap rest
  | d :: word, c :: rest => c != d || strays word rest

/-- Whether a text is quiet for some words, where `previous` is the character
    before it. -/
def isQuiet (words : List Text) (previous : Option Char) : Text → Bool
  | [] => true
  | c :: rest =>
    ((words.all fun word => strays word (c :: rest)) || previous.any isWordChar) &&
      isQuiet words (some c) rest

theorem straysGap_append {gap : Text} (hgap : ∀ b ∈ gap, isBlank b = true) {c : Char}
    (hc : c.isUpper = true) {text rest : Text} (h : text <+: gap ++ c :: rest) :
    straysGap text = false := by
  induction gap generalizing text with
  | nil =>
    cases text with
    | nil => rfl
    | cons d text =>
      obtain ⟨rfl, -⟩ := List.cons_prefix_cons.1 h
      rw [straysGap, isBlank_of_isNameChar (isNameChar_of_isUpper hc)]
      simp [hc]
  | cons b gap ih =>
    cases text with
    | nil => rfl
    | cons d text =>
      obtain ⟨rfl, htail⟩ := List.cons_prefix_cons.1 h
      rw [straysGap, if_pos (hgap d List.mem_cons_self)]
      exact ih (fun a ha => hgap a (List.mem_cons_of_mem _ ha)) htail

theorem strays_append {word gap : Text} (hne : gap ≠ []) (hgap : ∀ b ∈ gap, isBlank b = true)
    {c : Char} (hc : c.isUpper = true) {text rest : Text} (h : text <+: word ++ (gap ++ c :: rest)) :
    strays word text = false := by
  induction word generalizing text with
  | nil =>
    cases text with
    | nil => rfl
    | cons d text =>
      obtain ⟨b, gap, rfl⟩ := List.exists_cons_of_ne_nil hne
      obtain ⟨rfl, htail⟩ := List.cons_prefix_cons.1 h
      rw [strays, hgap d List.mem_cons_self,
        straysGap_append (fun a ha => hgap a (List.mem_cons_of_mem _ ha)) hc htail]
      rfl
  | cons d word ih =>
    cases text with
    | nil => rfl
    | cons e text =>
      obtain ⟨rfl, htail⟩ := List.cons_prefix_cons.1 h
      rw [strays, ih htail]
      simp

/-- The check is right, whatever stands before the text. -/
theorem not_introduces_of_isQuiet {previous : Option Char} {text : Text}
    (h : isQuiet words previous text = true) {before rest : Text} (htext : text = before ++ rest)
    (hne : rest ≠ []) (behind : Text) :
    ¬Introduces words (before.getLast?.or previous) (rest ++ behind) := by
  induction text generalizing previous before with
  | nil => exact absurd (List.append_eq_nil_iff.1 htext.symm).2 hne
  | cons c text ih =>
    rw [isQuiet, Bool.and_eq_true, Bool.or_eq_true] at h
    cases before with
    | nil =>
      obtain rfl := htext
      rintro ⟨hprevious, word, hword, gap, d, more, hgapne, hgap, hd, hsplit⟩
      rcases h.1 with hstrays | hw
      · have := List.all_eq_true.1 hstrays word hword
        rw [strays_append hgapne hgap hd (hsplit ▸ List.prefix_append _ behind)] at this
        exact Bool.noConfusion this
      · exact Bool.noConfusion (hw.symm.trans hprevious)
    | cons d before =>
      obtain ⟨rfl, rfl⟩ := List.cons.inj htext
      rw [getLast?_cons_or]
      exact ih h.2 rfl

theorem quiet_of_isQuiet {text : Text} (h : isQuiet words none text = true) : Quiet words text := by
  intro before rest behind htext hne
  have := not_introduces_of_isQuiet h htext hne behind
  rwa [Option.or_none] at this

/-! ### Names -/

/-- Whether a text ends a name and does not go on with blanks and a capital. -/
def endsName (text : Text) : Bool := text.head?.any (!isWordChar ·) && straysGap text

/-- A name and a fixed text behind it. -/
theorem quiet_name_append (hwords : ∀ word ∈ words, ∀ c ∈ word, isWordChar c = true) {name : Text}
    (hname : ∀ c ∈ name, isNameChar c = true) (hne : name ≠ []) {text : Text}
    (hends : endsName text = true) (h : isQuiet words (some 'x') text = true) :
    Quiet words (name ++ text) := by
  rw [endsName, Bool.and_eq_true] at hends
  obtain ⟨d, text, rfl⟩ := List.exists_cons_of_ne_nil (l := text) (by rintro rfl; simp at hends)
  have hd : isWordChar d = false := by simpa using hends.1
  have hword : ∀ c ∈ name, isWordChar c = true := fun c hc => isWordChar_of_isNameChar (hname c hc)
  intro before rest behind htext hrest
  rcases List.append_eq_append_iff.1 htext with ⟨before', rfl, hrest'⟩ | ⟨more, rfl, rfl⟩
  · -- Behind the name its last letter is that of a word.
    intro hintroduces
    refine not_introduces_of_isQuiet h hrest' hrest behind ⟨?_, hintroduces.2⟩
    have hprevious := hintroduces.1
    rw [List.getLast?_append] at hprevious
    cases hlast : before'.getLast? with
    | some b => rwa [hlast] at hprevious
    | none =>
      obtain ⟨b, hb⟩ := Option.isSome_iff_exists.1 (List.getLast?_isSome.2 hne)
      rw [hlast, hb] at hprevious
      exact Bool.noConfusion ((hword b (List.mem_of_getLast? hb)).symm.trans hprevious)
  · rintro ⟨hprevious, word, hmem, gap, c, tail, hgapne, hgap, hc, hsplit⟩
    cases hlast : before.getLast? with
    | some b =>
      rw [hlast] at hprevious
      have hb := hword b (List.mem_append_left _ (List.mem_of_getLast? hlast))
      exact Bool.noConfusion (hb.symm.trans hprevious)
    | none =>
      -- The whole name would be the word, and the fixed text the gap and a capital.
      have hafter : (more ++ (d :: (text ++ behind))).dropWhile isWordChar = d :: (text ++ behind) :=
        dropWhile_append_exact (fun b hb => hword b (List.mem_append_right _ hb)) hd
      have hgaphead : (gap ++ c :: tail).head?.any isWordChar = false := by
        obtain ⟨b, gap, rfl⟩ := List.exists_cons_of_ne_nil hgapne
        exact isWordChar_of_isBlank (hgap b List.mem_cons_self)
      have hafter' : (word ++ (gap ++ c :: tail)).dropWhile isWordChar = gap ++ c :: tail :=
        dropWhile_append_exact (hwords word hmem) hgaphead
      rw [← hsplit, List.append_assoc, List.cons_append, hafter] at hafter'
      have hbegins : d :: text <+: gap ++ c :: tail := ⟨behind, hafter'⟩
      have hstrays := straysGap_append hgap hc hbegins
      exact Bool.noConfusion (hends.2.symm.trans hstrays)

/-- A run without blanks and a text that goes on with some, but not with a capital
    behind them. -/
theorem quiet_run_append (hwords : ∀ word ∈ words, ∀ c ∈ word, isWordChar c = true) {run : Text}
    (hrun : ∀ c ∈ run, isBlank c = false) {text : Text} (hblank : text.head?.any isBlank = true)
    (hstrays : straysGap text = true) (h : Quiet words text) : Quiet words (run ++ text) := by
  have hclass : ∀ {run : Text}, (∀ c ∈ run, isBlank c = false) → ∀ c ∈ run, (!isBlank c) = true :=
    fun hrun c hc => by rw [hrun c hc]; rfl
  intro before rest behind htext hne
  rcases List.append_eq_append_iff.1 htext with ⟨before', rfl, hrest⟩ | ⟨more, rfl, rfl⟩
  · intro hintroduces
    cases hlast : before'.getLast? with
    | none =>
      rw [List.getLast?_eq_none_iff.1 hlast] at hrest
      exact h [] rest behind hrest hne hintroduces.none
    | some b =>
      rw [List.getLast?_append, hlast, Option.some_or, ← hlast] at hintroduces
      exact h before' rest behind hrest hne hintroduces
  · rintro ⟨-, word, hmem, gap, c, tail, hgapne, hgap, hc, hsplit⟩
    -- The rest of the run would be the word, and the text the gap and a capital.
    have hafter : (more ++ (text ++ behind)).dropWhile (!isBlank ·) = text ++ behind := by
      refine dropWhile_append_exact (hclass fun b hb => hrun b (List.mem_append_right _ hb)) ?_
      obtain ⟨b, text, rfl⟩ := List.exists_cons_of_ne_nil (l := text) (by rintro rfl; simp at hblank)
      simpa using hblank
    have hafter' : (word ++ (gap ++ c :: tail)).dropWhile (!isBlank ·) = gap ++ c :: tail := by
      refine dropWhile_append_exact (hclass fun b hb => ?_) ?_
      · rw [Bool.eq_false_iff]
        exact fun hblank => Bool.noConfusion
          ((hwords word hmem b hb).symm.trans (isWordChar_of_isBlank hblank))
      · obtain ⟨b, gap, rfl⟩ := List.exists_cons_of_ne_nil hgapne
        simpa using hgap b List.mem_cons_self
    rw [← hsplit, List.append_assoc, hafter] at hafter'
    exact Bool.noConfusion (hstrays.symm.trans (straysGap_append hgap hc ⟨behind, hafter'⟩))

/-! ### Seams -/

/-- A text that goes on neither with a word that ends behind `previous` nor with
    blanks and a capital. -/
structure Blunt (previous : Option Char) (text : Text) : Prop where
  seam : previous.any isWordChar = false ∨ text.head?.any isWordChar = false
  strays : (text.dropWhile isBlank).head?.any Char.isUpper = false

/-- A run of a word is not cut by a blunt text. -/
theorem eq_append_of_word_append {word behind text rest : Text}
    (hword : ∀ c ∈ word, isWordChar c = true) (h : word ++ behind = text ++ rest) (hne : text ≠ [])
    (hseam : text.getLast?.any isWordChar = false ∨ rest.head?.any isWordChar = false) :
    ∃ text', text = word ++ text' ∧ behind = text' ++ rest := by
  rcases List.append_eq_append_iff.1 h with hlater | ⟨_ | ⟨d, more⟩, rfl, rfl⟩
  · exact hlater
  · exact ⟨[], by simp, by simp⟩
  · -- The word would go on behind the seam.
    obtain ⟨c, hc⟩ := Option.isSome_iff_exists.1 (List.getLast?_isSome.2 hne)
    have hlast := hword c (List.mem_append_left _ (List.mem_of_getLast? hc))
    have hhead := hword d (List.mem_append_right _ List.mem_cons_self)
    rw [hc, Option.any_some, hlast] at hseam
    rcases hseam with hseam | hseam
    · exact Bool.noConfusion hseam
    · exact Bool.noConfusion (hhead.symm.trans hseam)

/-- A word, blanks and a name that start before a blunt text end there. -/
theorem eq_append_of_introduction {word gap name behind text rest : Text}
    (hword : ∀ c ∈ word, isWordChar c = true) (hgap : ∀ c ∈ gap, isBlank c = true)
    (hgapne : gap ≠ []) (hname : isTypeName name = true)
    (h : word ++ (gap ++ (name ++ behind)) = text ++ rest) (hne : text ≠ [])
    (hblunt : Blunt text.getLast? rest) :
    ∃ text', text = word ++ (gap ++ (name ++ text')) ∧ behind = text' ++ rest := by
  obtain ⟨c, letters, rfl, hc, -⟩ := isTypeName_iff.1 hname
  obtain ⟨text₁, rfl, h₁⟩ := eq_append_of_word_append hword h hne hblunt.seam
  obtain ⟨text₂, rfl, h₂⟩ : ∃ text₂, text₁ = gap ++ text₂ ∧
      c :: letters ++ behind = text₂ ++ rest := by
    rcases List.append_eq_append_iff.1 h₁ with hlater | ⟨more, rfl, rfl⟩
    · exact hlater
    · -- Blanks and a capital would follow the seam.
      have hdrop : (more ++ (c :: letters ++ behind)).dropWhile isBlank = c :: letters ++ behind :=
        dropWhile_append_exact (fun b hb => hgap b (List.mem_append_right _ hb))
          (isBlank_of_isNameChar (isNameChar_of_isUpper hc))
      have := hblunt.strays
      rw [hdrop] at this
      exact Bool.noConfusion (hc.symm.trans this)
  have hne₂ : text₂ ≠ [] := by
    rintro rfl
    have := hblunt.strays
    rw [List.nil_append] at h₂
    rw [← h₂, List.cons_append, List.dropWhile_cons_of_neg
      (by simpa using isBlank_of_isNameChar (isNameChar_of_isUpper hc))] at this
    exact Bool.noConfusion (hc.symm.trans this)
  have hseam := hblunt.seam
  rw [← List.append_assoc, List.getLast?_append_of_ne_nil _ hne₂] at hseam
  obtain ⟨text₃, rfl, h₃⟩ := eq_append_of_word_append
    (fun d hd => isWordChar_of_isNameChar (isNameChar_of_isTypeName hname d hd)) h₂ hne₂ hseam
  exact ⟨text₃, rfl, h₃⟩

end EnumCompanion.Text
