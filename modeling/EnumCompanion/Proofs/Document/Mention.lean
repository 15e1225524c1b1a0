import EnumCompanion.Document.Block
import EnumCompanion.Proofs.Text.Quiet

/-!
# Mentions of blocks

A block is looked for by its mention: a keyword, blanks and a name, of which the
first that stands at or behind a place counts. Whether a mention stands at a
place is a matter of the text up to the end of the name, so that what follows
may be exchanged for anything that does not go on with it.

* `Block.Mentions`, `Block.mention?_eq_some_iff`: the texts that start with a
  mention;
* `Block.Unmentioned`: the texts in which none starts behind a place;
* `Block.first?_eq_some_iff`, `Block.unmentioned_of_le_first?`: the first mention, with
  none before it;
* `Block.Unmentioned.of_append`: what follows a text may be exchanged.
-/

namespace EnumCompanion

open Text

namespace Block

/-! ### One mention -/

/-- A text that starts with a mention of a name, where `previous` is the
    character before it: a keyword, a gap of blanks, the name and what follows
    as another word. -/
structure Mentions (name : Text) (previous : Option Char) (text keyword gap behind : Text) :
    Prop where
  text_eq : text = keyword ++ (gap ++ (name ++ behind))
  previous : previous.any isWordChar = false
  keyword_mem : keyword ∈ keywords
  gap_ne_nil : gap ≠ []
  gap_blank : ∀ c ∈ gap, isBlank c = true
  behind : behind.head?.any isWordChar = false

variable {name : Text} (hname : isTypeName name = true)

theorem isWordChar_of_mem_keywords :
    ∀ keyword ∈ keywords, ∀ c ∈ keyword, isWordChar c = true := by
  have hall : ∀ keyword ∈ keywords, (keyword.all fun c => decide (isWordChar c = true)) = true := by
    decide
  exact fun keyword hkeyword => forall_mem_of_all (hall keyword hkeyword)

theorem head?_of_mem_keywords :
    ∀ keyword ∈ keywords, keyword.head? = some 'e' ∨ keyword.head? = some 'c' := by decide

/-- Two keywords that start one text are one. -/
theorem eq_of_keywords {keyword keyword' rest rest' : Text} (h : keyword ∈ keywords)
    (h' : keyword' ∈ keywords) (htext : keyword ++ rest = keyword' ++ rest') :
    keyword = keyword' := by
  have hhead : keyword.head? = keyword'.head? := by
    have := congrArg List.head? htext
    have hne : ∀ keyword ∈ keywords, keyword ≠ [] := by decide
    rwa [List.head?_append_of_ne_nil _ (hne _ h), List.head?_append_of_ne_nil _ (hne _ h')] at this
  have hkeywords : ∀ keyword ∈ keywords, ∀ keyword' ∈ keywords,
      keyword.head? = keyword'.head? → keyword = keyword' := by decide
  exact hkeywords _ h _ h' hhead

theorem eq_append_of_nameHere? {previous : Char} {text rest : Text}
    (h : nameHere? name previous text = some rest) : text = name ++ rest := by
  simp only [nameHere?, Option.bind_eq_bind, Option.bind_eq_some_iff, isPrefixOf?_eq_some_iff,
    Option.ite_none_right_eq_some, Option.some.injEq] at h
  obtain ⟨rest, rfl, -, rfl⟩ := h
  rfl

theorem exists_of_nameBehindBlanks? {previous : Char} {text rest : Text}
    (h : nameBehindBlanks? name previous text = some rest) :
    ∃ gap, (∀ c ∈ gap, isBlank c = true) ∧ text = gap ++ (name ++ rest) := by
  induction text generalizing previous with
  | nil =>
    rw [nameBehindBlanks?] at h
    exact ⟨[], List.forall_mem_nil _, (eq_append_of_nameHere? h).trans rfl⟩
  | cons c text ih =>
    rw [nameBehindBlanks?, Option.orElse_eq_orElse, Option.orElse_eq_or,
      Option.or_eq_some_iff] at h
    rcases h with h | ⟨-, h⟩
    · obtain ⟨hc, h⟩ := Option.ite_none_right_eq_some.1 h
      obtain ⟨gap, hgap, rfl⟩ := ih h
      exact ⟨c :: gap, List.forall_mem_cons.2 ⟨hc, hgap⟩, rfl⟩
    · exact ⟨[], List.forall_mem_nil _, (eq_append_of_nameHere? h).trans rfl⟩

/-- A mention of a name of any kind is a keyword, blanks and the name. -/
theorem exists_of_mention? {previous : Option Char} {text behind : Text}
    (h : mention? name previous text = some behind) : ∃ keyword ∈ keywords, ∃ gap, gap ≠ [] ∧
      (∀ c ∈ gap, isBlank c = true) ∧ text = keyword ++ (gap ++ (name ++ behind)) := by
  rw [mention?] at h
  split_ifs at h
  obtain ⟨keyword, hkeyword, h⟩ := List.exists_of_findSome?_eq_some h
  rw [keywordMention?] at h
  split at h
  · next c rest hbegins =>
    obtain ⟨hc, h⟩ := Option.ite_none_right_eq_some.1 h
    obtain ⟨gap, hgap, rfl⟩ := exists_of_nameBehindBlanks? h
    exact ⟨keyword, hkeyword, c :: gap, List.cons_ne_nil _ _, List.forall_mem_cons.2 ⟨hc, hgap⟩,
      (isPrefixOf?_eq_some_iff.1 hbegins).symm⟩
  · exact absurd h (Option.some_ne_none _).symm

include hname

theorem nameHere?_eq_some_iff {previous : Char} {text rest : Text} :
    nameHere? name previous text = some rest ↔
      text = name ++ rest ∧ rest.head?.any isWordChar = false := by
  have hboundary : isBoundary (previous :: name).getLast? rest.head? =
      !rest.head?.any isWordChar := by
    obtain ⟨c, hc⟩ := Option.isSome_iff_exists.1 (List.getLast?_isSome.2 (ne_nil_of_isTypeName hname))
    have hword := isWordChar_of_isNameChar
      (isNameChar_of_isTypeName hname c (List.mem_of_getLast? hc))
    rw [List.getLast?_cons, hc, Option.getD_some, isBoundary, Option.any_some, hword]
    cases rest.head?.any isWordChar <;> rfl
  simp only [nameHere?, Option.bind_eq_bind, Option.bind_eq_some_iff, isPrefixOf?_eq_some_iff,
    Option.ite_none_right_eq_some, Option.some.injEq]
  constructor
  · rintro ⟨rest', rfl, hbound, rfl⟩
    exact ⟨rfl, by rwa [hboundary, Bool.not_eq_true'] at hbound⟩
  · rintro ⟨rfl, hrest⟩
    exact ⟨rest, rfl, by rw [hboundary, hrest]; rfl, rfl⟩

/-- A name starts with no blank, so that all blanks before it are passed. -/
theorem nameBehindBlanks?_eq_some_iff {previous : Char} {text rest : Text} :
    nameBehindBlanks? name previous text = some rest ↔ ∃ gap, (∀ c ∈ gap, isBlank c = true) ∧
      text = gap ++ (name ++ rest) ∧ rest.head?.any isWordChar = false := by
  obtain ⟨d, letters, hd, hupper, -⟩ := isTypeName_iff.1 hname
  have hdblank := isBlank_of_isNameChar (isNameChar_of_isUpper hupper)
  induction text generalizing previous with
  | nil =>
    rw [nameBehindBlanks?, nameHere?_eq_some_iff hname]
    constructor
    · rintro ⟨h, -⟩
      rw [hd] at h
      exact absurd h nofun
    · rintro ⟨gap, -, h, -⟩
      rw [hd] at h
      simp at h
  | cons c text ih =>
    rw [nameBehindBlanks?]
    by_cases hc : isBlank c = true
    · have hnone : nameHere? name previous (c :: text) = none := by
        rw [Option.eq_none_iff_forall_ne_some]
        intro rest' h
        obtain ⟨htext, -⟩ := (nameHere?_eq_some_iff hname).1 h
        rw [hd] at htext
        rw [(List.cons.inj htext).1, hdblank] at hc
        exact Bool.noConfusion hc
      rw [if_pos hc, hnone, Option.orElse_eq_orElse, Option.orElse_eq_or, Option.or_none]
      refine ih.trans ?_
      constructor
      · rintro ⟨gap, hgap, rfl, hrest⟩
        refine ⟨c :: gap, ?_, rfl, hrest⟩
        rintro b (_ | ⟨_, hb⟩)
        exacts [hc, hgap b hb]
      · rintro ⟨_ | ⟨b, gap⟩, hgap, htext, hrest⟩
        · rw [hd] at htext
          rw [(List.cons.inj htext).1, hdblank] at hc
          exact Bool.noConfusion hc
        · obtain ⟨rfl, rfl⟩ := List.cons.inj htext
          exact ⟨gap, fun b hb => hgap b (List.mem_cons_of_mem _ hb), rfl, hrest⟩
    · rw [if_neg hc, Option.orElse_eq_orElse, Option.orElse_none, nameHere?_eq_some_iff hname]
      constructor
      · rintro ⟨htext, hrest⟩
        exact ⟨[], nofun, htext, hrest⟩
      · rintro ⟨_ | ⟨b, gap⟩, hgap, htext, hrest⟩
        · exact ⟨htext, hrest⟩
        · obtain ⟨rfl, -⟩ := List.cons.inj htext
          exact absurd (hgap c List.mem_cons_self) hc

theorem keywordMention?_eq_some_iff {keyword text behind : Text} :
    keywordMention? name keyword text = some behind ↔ behind.head?.any isWordChar = false ∧
      ∃ gap, gap ≠ [] ∧ (∀ c ∈ gap, isBlank c = true) ∧
        text = keyword ++ (gap ++ (name ++ behind)) := by
  rw [keywordMention?]
  constructor
  · intro h
    split at h
    · next c rest hbegins =>
      split_ifs at h with hc
      obtain ⟨gap, hgap, rfl, hbehind⟩ := (nameBehindBlanks?_eq_some_iff hname).1 h
      refine ⟨hbehind, c :: gap, List.cons_ne_nil _ _, ?_, (isPrefixOf?_eq_some_iff.1 hbegins).symm⟩
      rintro b (_ | ⟨_, hb⟩)
      exacts [hc, hgap b hb]
    · exact absurd h nofun
  · rintro ⟨hbehind, gap, hne, hgap, rfl⟩
    obtain ⟨c, gap, rfl⟩ := List.exists_cons_of_ne_nil hne
    have hbegins : keyword.isPrefixOf? (keyword ++ (c :: gap ++ (name ++ behind))) =
        some (c :: (gap ++ (name ++ behind))) := isPrefixOf?_eq_some_iff.2 rfl
    simp only [hbegins, hgap c List.mem_cons_self, if_true]
    exact (nameBehindBlanks?_eq_some_iff hname).2
      ⟨gap, fun b hb => hgap b (List.mem_cons_of_mem _ hb), rfl, hbehind⟩

/-- A mention is found exactly where one stands. -/
theorem mention?_eq_some_iff {previous : Option Char} {text behind : Text} :
    mention? name previous text = some behind ↔
      ∃ keyword gap, Mentions name previous text keyword gap behind := by
  rw [mention?]
  split_ifs with hprevious
  · refine iff_of_false nofun ?_
    rintro ⟨keyword, gap, h⟩
    exact Bool.noConfusion (hprevious.symm.trans h.previous)
  rw [Bool.not_eq_true] at hprevious
  constructor
  · intro h
    obtain ⟨keyword, hmem, hkeyword⟩ := List.exists_of_findSome?_eq_some h
    obtain ⟨hbehind, gap, hne, hgap, htext⟩ := (keywordMention?_eq_some_iff hname).1 hkeyword
    exact ⟨keyword, gap, htext, hprevious, hmem, hne, hgap, hbehind⟩
  · rintro ⟨keyword, gap, h⟩
    have hkeyword : keywordMention? name keyword text = some behind :=
      (keywordMention?_eq_some_iff hname).2 ⟨h.behind, gap, h.gap_ne_nil, h.gap_blank, h.text_eq⟩
    -- No other keyword starts the text.
    have hother : ∀ other ∈ keywords, other ≠ keyword → keywordMention? name other text = none := by
      intro other hother hne
      rw [Option.eq_none_iff_forall_ne_some]
      intro behind' h'
      obtain ⟨-, gap', -, -, htext⟩ := (keywordMention?_eq_some_iff hname).1 h'
      exact hne (eq_of_keywords hother h.keyword_mem (htext.symm.trans h.text_eq))
    have hmem := h.keyword_mem
    rw [keywords] at hmem hother ⊢
    rcases hmem with _ | ⟨_, _ | ⟨_, ⟨⟩⟩⟩
    · rw [List.findSome?_cons, hkeyword]
    · rw [List.findSome?_cons, hother _ List.mem_cons_self (by decide), List.findSome?_cons, hkeyword]

omit hname in
/-- Of the character before a mention it counts only whether it is one of a
    word. -/
theorem mention?_congr {previous previous' : Option Char}
    (h : previous.any isWordChar = previous'.any isWordChar) (text : Text) :
    mention? name previous text = mention? name previous' text := by
  rw [mention?, mention?, h]

/-- A mention stays one where its last word does not go on. -/
theorem mention?_append {previous : Option Char} {text behind : Text}
    (h : mention? name previous text = some behind) {rest : Text}
    (hseam : text.getLast?.any isWordChar = false ∨ rest.head?.any isWordChar = false) :
    mention? name previous (text ++ rest) = some (behind ++ rest) := by
  obtain ⟨keyword, gap, h⟩ := (mention?_eq_some_iff hname).1 h
  refine (mention?_eq_some_iff hname).2 ⟨keyword, gap, ?_, h.previous, h.keyword_mem, h.gap_ne_nil,
    h.gap_blank, ?_⟩
  · rw [h.text_eq]
    simp only [List.append_assoc]
  · cases behind with
    | cons c behind => exact h.behind
    | nil =>
      refine hseam.resolve_left fun hlast => ?_
      obtain ⟨c, hc⟩ := Option.isSome_iff_exists.1
        (List.getLast?_isSome.2 (ne_nil_of_isTypeName hname))
      have hword := isWordChar_of_isNameChar
        (isNameChar_of_isTypeName hname c (List.mem_of_getLast? hc))
      rw [h.text_eq, List.append_nil, List.getLast?_append, List.getLast?_append, hc] at hlast
      exact Bool.noConfusion (hword.symm.trans hlast)

/-- A mention that starts before a blunt text ends there. -/
theorem mention?_of_append {previous : Option Char} {text rest behind : Text}
    (h : mention? name previous (text ++ rest) = some behind) (hne : text ≠ [])
    (hblunt : Blunt text.getLast? rest) :
    ∃ behind', mention? name previous text = some behind' ∧ behind = behind' ++ rest := by
  obtain ⟨keyword, gap, h⟩ := (mention?_eq_some_iff hname).1 h
  obtain ⟨behind', rfl, rfl⟩ := eq_append_of_introduction
    (isWordChar_of_mem_keywords keyword h.keyword_mem) h.gap_blank h.gap_ne_nil hname
    h.text_eq.symm hne hblunt
  refine ⟨behind', (mention?_eq_some_iff hname).2 ⟨keyword, gap, rfl, h.previous, h.keyword_mem,
    h.gap_ne_nil, h.gap_blank, ?_⟩, rfl⟩
  cases behind' with
  | nil => rfl
  | cons c behind' => exact h.behind

/-! ### Texts without mentions -/

omit hname

/-- No mention of a name starts in a text, `start` or more characters behind its
    head, where `previous` is the character before it and another text
    follows. -/
def Unmentioned (name : Text) (start : Nat) (previous : Option Char) (text behind : Text) : Prop :=
  ∀ before rest, text = before ++ rest → rest ≠ [] → start ≤ before.length →
    mention? name (before.getLast?.or previous) (rest ++ behind) = none

variable {start : Nat} {previous : Option Char} {text behind : Text}

theorem unmentioned_nil : Unmentioned name start previous [] behind := by
  intro before rest h hne
  exact absurd (List.append_eq_nil_iff.1 h.symm).2 hne

theorem unmentioned_of_length_le (h : text.length ≤ start) :
    Unmentioned name start previous text behind := by
  rintro before rest rfl hne hstart
  have := List.length_pos_of_ne_nil hne
  rw [List.length_append] at h
  omega

theorem unmentioned_cons {c : Char} : Unmentioned name start previous (c :: text) behind ↔
    (start = 0 → mention? name previous (c :: (text ++ behind)) = none) ∧
      Unmentioned name (start - 1) (some c) text behind := by
  constructor
  · intro h
    refine ⟨fun hstart => h [] (c :: text) rfl (List.cons_ne_nil _ _) (Nat.le_of_eq hstart),
      fun before rest htext hne hstart => ?_⟩
    rw [← getLast?_cons_or c before previous]
    exact h (c :: before) rest (by rw [htext]; rfl) hne (by simpa using Nat.le_add_of_sub_le hstart)
  · rintro ⟨hhead, htail⟩ before rest htext hne hstart
    cases before with
    | nil =>
      obtain rfl : c :: text = rest := htext
      exact hhead (Nat.le_zero.1 hstart)
    | cons d before =>
      obtain ⟨rfl, rfl⟩ := List.cons.inj htext
      rw [getLast?_cons_or]
      exact htail before rest rfl hne (Nat.sub_le_of_le_add hstart)

theorem unmentioned_append {rest : Text} : Unmentioned name start previous (text ++ rest) behind ↔
    Unmentioned name start previous text (rest ++ behind) ∧
      Unmentioned name (start - text.length) (text.getLast?.or previous) rest behind := by
  induction text generalizing start previous with
  | nil => exact (and_iff_right unmentioned_nil).symm
  | cons c text ih =>
    rw [List.cons_append, unmentioned_cons, unmentioned_cons, ih, getLast?_cons_or,
      List.append_assoc, List.length_cons, Nat.sub_sub, Nat.add_comm 1, and_assoc]

theorem unmentioned_congr_previous {previous' : Option Char}
    (h : previous.any isWordChar = previous'.any isWordChar) :
    Unmentioned name start previous text behind ↔ Unmentioned name start previous' text behind := by
  have hor : ∀ before : Text, (before.getLast?.or previous).any isWordChar =
      (before.getLast?.or previous').any isWordChar := by
    intro before
    cases before.getLast? with
    | none => exact h
    | some c => rfl
  refine forall_congr' fun before => forall_congr' fun rest => ?_
  rw [mention?_congr (hor before)]

include hname

/-- What follows a text may be exchanged for a blunt text, if no word is joined
    to what followed. -/
theorem Unmentioned.of_append {behind' : Text} (h : Unmentioned name start previous text behind)
    (hseam : text.getLast?.any isWordChar = false ∨ behind.head?.any isWordChar = false)
    (hblunt : Blunt text.getLast? behind') : Unmentioned name start previous text behind' := by
  intro before rest htext hne hstart
  rw [Option.eq_none_iff_forall_ne_some]
  intro found hfound
  have hlast : text.getLast? = rest.getLast? := by
    rw [htext, List.getLast?_append_of_ne_nil _ hne]
  obtain ⟨found', hfound', -⟩ := mention?_of_append hname hfound hne (hlast ▸ hblunt)
  have hmention := mention?_append hname hfound' (hlast ▸ hseam)
  exact absurd ((h before rest htext hne hstart).symm.trans hmention) nofun

/-- In a text that introduces nothing there is no mention. -/
theorem unmentioned_of_quiet {words : List Text} (h : Quiet words text)
    (hwords : ∀ keyword ∈ keywords, keyword ∈ words) (start : Nat) (previous : Option Char)
    (behind : Text) : Unmentioned name start previous text behind := by
  intro before rest htext hne hstart
  rw [Option.eq_none_iff_forall_ne_some]
  intro found hfound
  obtain ⟨keyword, gap, hmention⟩ := (mention?_eq_some_iff hname).1 hfound
  obtain ⟨c, letters, rfl, hc, -⟩ := isTypeName_iff.1 hname
  have hprevious : before.getLast?.any isWordChar = false := by
    have := hmention.previous
    cases hlast : before.getLast? with
    | none => rfl
    | some b => rwa [hlast] at this
  exact h before rest behind htext hne ⟨hprevious, keyword, hwords _ hmention.keyword_mem, gap, c,
    letters ++ found, hmention.gap_ne_nil, hmention.gap_blank, hc, hmention.text_eq⟩

/-! ### The first mention -/

omit hname in
theorem mention?_nil (previous : Option Char) : mention? name previous [] = none := by
  rw [mention?]
  split <;> rfl

omit hname in
theorem firstFrom?_eq_some_iff {offset first after : Nat} :
    firstFrom? name start previous offset text = some (first, after) ↔
      ∃ before rest behind, text = before ++ rest ∧ first = offset + before.length ∧
        start ≤ first ∧ mention? name (before.getLast?.or previous) rest = some behind ∧
          after = first + (rest.length - behind.length) ∧
            Unmentioned name (start - offset) previous before rest := by
  induction text generalizing offset previous with
  | nil =>
    refine iff_of_false nofun ?_
    rintro ⟨before, rest, behind, htext, -, -, hmention, -⟩
    obtain ⟨rfl, rfl⟩ := List.append_eq_nil_iff.1 htext.symm
    rw [mention?_nil] at hmention
    exact absurd hmention nofun
  | cons c text ih =>
    rw [firstFrom?]
    split
    · next behind hhere =>
      obtain ⟨hstart, hmention⟩ := Option.ite_none_right_eq_some.1 hhere
      rw [Option.some.injEq, Prod.mk.injEq]
      constructor
      · rintro ⟨rfl, rfl⟩
        exact ⟨[], c :: text, behind, rfl, rfl, hstart, hmention, rfl, unmentioned_nil⟩
      · rintro ⟨_ | ⟨d, before⟩, rest, behind', htext, rfl, -, hmention', rfl, hnone⟩
        · obtain rfl : c :: text = rest := htext
          rw [List.getLast?_nil, Option.none_or, hmention] at hmention'
          rw [Option.some.inj hmention']
          exact ⟨rfl, rfl⟩
        · obtain ⟨rfl, rfl⟩ := List.cons.inj htext
          have := (unmentioned_cons.1 hnone).1 (Nat.sub_eq_zero_of_le hstart)
          exact absurd (this.symm.trans hmention) nofun
    · next hhere =>
      rw [ih]
      constructor
      · rintro ⟨before, rest, behind, rfl, rfl, hstart, hmention, rfl, hnone⟩
        refine ⟨c :: before, rest, behind, rfl, ?_, hstart, ?_, rfl, ?_⟩
        · rw [List.length_cons]
          omega
        · rw [getLast?_cons_or]
          exact hmention
        · refine unmentioned_cons.2 ⟨fun hzero => ?_, by rwa [Nat.sub_sub]⟩
          rwa [if_pos (Nat.sub_eq_zero_iff_le.1 hzero)] at hhere
      · rintro ⟨_ | ⟨d, before⟩, rest, behind, htext, rfl, hstart, hmention, rfl, hnone⟩
        · obtain rfl : c :: text = rest := htext
          rw [if_pos (by simpa using hstart)] at hhere
          exact absurd (hhere.symm.trans hmention) nofun
        · obtain ⟨rfl, rfl⟩ := List.cons.inj htext
          rw [getLast?_cons_or] at hmention
          refine ⟨before, rest, behind, rfl, ?_, hstart, hmention, rfl, ?_⟩
          · rw [List.length_cons]
            omega
          · rw [← Nat.sub_sub]
            exact (unmentioned_cons.1 hnone).2

omit hname in
/-- The first mention is one before which there is none. -/
theorem first?_eq_some_iff {masked : Text} {first after : Nat} :
    first? masked name start = some (first, after) ↔
      ∃ before rest behind, masked = before ++ rest ∧ first = before.length ∧ start ≤ first ∧
        mention? name before.getLast? rest = some behind ∧
          after = first + (rest.length - behind.length) ∧
            Unmentioned name start none before rest := by
  simp only [first?, firstFrom?_eq_some_iff, Option.or_none, Nat.zero_add, Nat.sub_zero]

omit hname in
theorem firstFrom?_eq_none_iff {offset : Nat} : firstFrom? name start previous offset text = none ↔
    Unmentioned name (start - offset) previous text [] := by
  induction text generalizing offset previous with
  | nil => exact iff_of_true rfl unmentioned_nil
  | cons c text ih =>
    rw [firstFrom?, unmentioned_cons, Nat.sub_sub, List.append_nil]
    split
    · next behind hhere =>
      obtain ⟨hstart, hmention⟩ := Option.ite_none_right_eq_some.1 hhere
      refine iff_of_false (Option.some_ne_none _) fun hnone => ?_
      exact absurd (hmention.symm.trans (hnone.1 (Nat.sub_eq_zero_of_le hstart)))
        (Option.some_ne_none _)
    · next hhere =>
      rw [ih, and_iff_right]
      intro hzero
      rwa [if_pos (Nat.sub_eq_zero_iff_le.1 hzero)] at hhere

omit hname in
/-- There is no first mention where there is none at all. -/
theorem first?_eq_none_iff {masked : Text} :
    first? masked name start = none ↔ Unmentioned name start none masked [] :=
  firstFrom?_eq_none_iff

omit hname in
/-- Before the first mention there is none. -/
theorem unmentioned_of_le_first? {before behind : Text}
    (h : ∀ mention ∈ first? (before ++ behind) name start, before.length ≤ mention.1) :
    Unmentioned name start none before behind := by
  cases hfirst : first? (before ++ behind) name start with
  | none =>
    have hnone := (unmentioned_append.1 (first?_eq_none_iff.1 hfirst)).1
    rwa [List.append_nil] at hnone
  | some mention =>
    have hle := h mention hfirst
    obtain ⟨run, rest, found, hsplit, hplace, -, -, -, hnone⟩ :=
      first?_eq_some_iff.1 (show first? _ name start = some (mention.1, mention.2) from hfirst)
    rw [hplace] at hle
    obtain ⟨more, rfl⟩ := List.prefix_of_prefix_length_le (List.prefix_append before behind)
      (hsplit ▸ List.prefix_append run rest) hle
    have hbehind : behind = more ++ rest := by
      rw [List.append_assoc] at hsplit
      exact List.append_cancel_left hsplit
    rw [hbehind]
    exact (unmentioned_append.1 hnone).1

end Block

end EnumCompanion
