import EnumCompanion.Document.Action
import EnumCompanion.Proofs.Code.Mask
import EnumCompanion.Proofs.Declaration.Exchange

/-!
# Sites of code

The *site* of code is what an action does to a text, put in parts: the text
before the edit and behind it, the part that is taken out, and the line feeds
around the code that is put in. Where a site is sound, the masks of the text
before and behind stay as they are, and the code is masked by itself.

* `Site`, `Site.IsSound`: the sites, and those where only the part is touched;
* `Site.masked_text`, `Site.masked_changed`: the mask before and after;
* `Site.Retains`, `Site.readings_changed`: all declarations are read as before.
-/

namespace EnumCompanion

open Text Mask Block

/-- What an action does to a text, in parts. -/
structure Site where
  /-- The text before the edit. -/
  before : Text
  /-- What is taken out. -/
  part : Text
  /-- The text behind the edit. -/
  behind : Text
  /-- The line feeds before the code. -/
  lead : Text
  /-- The line feeds behind the code. -/
  ending : Text

namespace Site

/-- The text as it was. -/
def text (site : Site) : Text := site.before ++ (site.part ++ site.behind)

theorem text_eq (site : Site) : site.text = site.before ++ (site.part ++ site.behind) := rfl

/-- What is put in. -/
def patch (site : Site) (code : Text) : Text := site.lead ++ (code ++ site.ending)

theorem patch_ne_nil {site : Site} {code : Text} (h : code ≠ []) : site.patch code ≠ [] := by
  simp [patch, h]

/-- The text with code in it. -/
def changed (site : Site) (code : Text) : Text := site.before ++ (site.patch code ++ site.behind)

/-- The mask of what is taken out. -/
def maskedPart (site : Site) : Text := maskFrom (after (.code .clear) site.before) site.part

/-- How code gets into a text. -/
inductive Kind (site : Site) : Prop where
  /-- In the place of a block with its margins. -/
  | replaced (lead : site.lead = []) (ending : site.ending = [])
      (before : IsFlush site.before.reverse) (behind : IsFlush site.behind)
  /-- On lines of its own. -/
  | inserted (part : site.part = []) (last : site.before.getLast? = some '\n')
      (lead : site.lead ≠ []) (ending : site.ending ≠ [])
  /-- At the end of the text. -/
  | appended (part : site.part = []) (behind : site.behind = []) (lead : site.lead ≠ [])

/-- A site where nothing but the part is touched. -/
structure IsSound (site : Site) : Prop where
  kind : site.Kind
  lead : ∀ c ∈ site.lead, c = '\n'
  ending : ∀ c ∈ site.ending, c = '\n'
  seam_before : Seam site.before (site.part ++ site.behind)
  seam_part : Seam site.part site.behind
  /-- Behind the lead the machine is in code. -/
  entry : site.lead ≠ [] → (after (.code .clear) site.before).step '\n' none = .code .clear
  ready : site.lead = [] → (after (.code .clear) site.before).isReady = true
  leave : site.behind ≠ [] → after (after (.code .clear) site.before) site.part = .code .clear
  closing : Closing site.maskedPart
  word_before : site.before.masked.getLast?.any isWordChar = false ∨
    site.lead ≠ [] ∧ site.part = [] ∧ site.behind = []
  word_part : site.behind ≠ [] →
    (site.maskedPart.getLast?.or site.before.masked.getLast?).any isWordChar = false

/-- A site beside which all declarations are read as before with code put in. -/
@[mk_iff]
structure Retains (site : Site) (code : Text) (allowRepeats : Bool) : Prop where
  text : readings allowRepeats site.text.masked = readings allowRepeats site.before.masked ++
    (readings allowRepeats site.behind.masked).map
      (Reading.moved (site.before.length + site.part.length))
  changed : readings allowRepeats (site.changed code).masked =
    readings allowRepeats site.before.masked ++ (readings allowRepeats site.behind.masked).map
      (Reading.moved (site.before.length + (site.patch code).length))

variable {site : Site}

/-! ### Masks -/

theorem masked_text (h : site.IsSound) :
    site.text.masked = site.before.masked ++ (site.maskedPart ++ site.behind.masked) := by
  have hbehind : maskFrom (after (after (.code .clear) site.before) site.part) site.behind =
      site.behind.masked := by
    by_cases hne : site.behind = []
    · rw [hne]
      rfl
    · rw [h.leave hne]
      rfl
  rw [text, masked, Mask.maskFrom_append h.seam_before, Mask.maskFrom_append h.seam_part, hbehind]
  rfl

theorem isBlank_of_lineFeeds {feeds : Text} (h : ∀ c ∈ feeds, c = '\n') :
    ∀ c ∈ feeds, isBlank c = true := fun c hc => by
  rw [h c hc]
  decide

/-- What starts with a small letter is masked behind the lead as by itself. -/
theorem maskFrom_lead (h : site.IsSound) (rest : Text) :
    maskFrom (after (.code .clear) site.before) (site.lead ++ 'e' :: rest) =
        site.lead ++ maskFrom (.code .clear) ('e' :: rest) ∧
      after (after (.code .clear) site.before) (site.lead ++ 'e' :: rest) =
        after (.code .clear) ('e' :: rest) := by
  cases hlead : site.lead with
  | nil =>
    exact maskFrom_of_isReady (h.ready hlead)
      (isProper_after (show Mode.IsProper (.code .clear) from trivial) _) (by decide) (by decide) (by decide) rest
  | cons c feeds =>
    have hfeeds := h.lead
    rw [hlead] at hfeeds
    obtain rfl := hfeeds c List.mem_cons_self
    have hstep : ∀ next, (after (.code .clear) site.before).step '\n' next = .code .clear :=
      fun next => (Mode.step_eq_none fun hc => absurd hc (by decide)).trans (h.entry (by simp [hlead]))
    have hshown : ∀ next, shown (after (.code .clear) site.before) '\n' next = '\n' := fun next => by
      rw [shown]
      split <;> rfl
    obtain ⟨hmask, hafter⟩ := append_of_isBlank
      (isBlank_of_lineFeeds fun d hd => hfeeds d (List.mem_cons_of_mem _ hd)) ('e' :: rest)
    rw [List.cons_append, maskFrom_cons, after, hstep, hshown, hmask, hafter]
    exact ⟨rfl, rfl⟩

section

variable {container enumName inner : Text} (hcontainer : isTypeName container = true)
  (henum : isTypeName enumName = true) (hinner : Tame [] [] inner)

include hcontainer henum hinner

/-- The mask of the text with a block in it. -/
theorem masked_changed (h : site.IsSound) :
    (site.changed (blockText container enumName inner)).masked = site.before.masked ++
      (site.patch (maskFrom (.code .clear) (blockText container enumName inner)) ++
        site.behind.masked) := by
  obtain ⟨rest, hrest⟩ : ∃ rest, blockText container enumName inner = 'e' :: rest :=
    ⟨"xtension ".toList ++ blockTail container enumName inner, blockText_eq _ _ _⟩
  have hlast : (blockText container enumName inner).getLast? = some '}' := by
    rw [blockText, ← List.cons_append, ← List.append_assoc, List.getLast?_concat]
  have hcode := after_blockText (isNameFragment_of_isTypeName hcontainer) henum hinner
  have hmask : ∀ more, maskFrom (.code .clear) (blockText container enumName inner ++ more) =
      maskFrom (.code .clear) (blockText container enumName inner) ++ maskFrom (.code .clear) more := by
    intro more
    rw [Mask.maskFrom_append (seam_of_getLast? (by rw [hlast]; decide) more), hcode]
  have hentry := (maskFrom_lead h (rest ++ (site.ending ++ site.behind))).1
  rw [← List.cons_append, ← hrest, hmask, (append_of_isBlank (isBlank_of_lineFeeds h.ending) _).1] at hentry
  have hseam : Seam site.before (site.lead ++ (blockText container enumName inner ++
      (site.ending ++ site.behind))) := by
    refine seam_of_head? ?_ _
    cases hlead : site.lead with
    | nil => simp [hrest]
    | cons c feeds =>
      obtain rfl := h.lead c (by rw [hlead]; exact List.mem_cons_self)
      exact ⟨by simp, by simp⟩
  have hassoc : ∀ code : Text, site.patch code ++ site.behind =
      site.lead ++ (code ++ (site.ending ++ site.behind)) := fun code => by
    rw [patch]
    simp only [List.append_assoc]
  rw [changed, hassoc, masked, Mask.maskFrom_append hseam, hentry, patch]
  simp only [List.append_assoc]
  rfl

/-! ### Declarations -/

omit hcontainer henum hinner in
theorem balanced_lineFeeds {feeds : Text} (h : ∀ c ∈ feeds, c = '\n') : Balanced feeds := by
  induction feeds with
  | nil => rfl
  | cons c feeds ih =>
    obtain rfl := h c List.mem_cons_self
    exact ih fun d hd => h d (List.mem_cons_of_mem _ hd)

omit hcontainer henum hinner in
theorem quiet_lineFeeds (words : List Text) (hwords : ∀ word ∈ words, word.head?.any isWordChar = true)
    {feeds : Text} (h : ∀ c ∈ feeds, c = '\n') : Quiet words feeds := by
  rintro before (_ | ⟨c, rest⟩) behind rfl hne ⟨-, word, hmem, gap, d, more, -, -, -, hsplit⟩
  · exact hne rfl
  obtain rfl := h c (by simp)
  have hword := hwords word hmem
  cases word with
  | nil => exact Bool.noConfusion hword
  | cons e word =>
    obtain rfl := (List.cons.inj hsplit).1
    exact absurd (show isWordChar '\n' = true from hword) (by decide)

omit hcontainer henum hinner in
/-- What is put in starts with a keyword on its own. -/
theorem fits_patch (h : site.IsSound) : Fits site.before.masked
    (site.patch (maskFrom (.code .clear) (blockText container enumName inner))) where
  word := by
    refine ⟨site.lead, 'e', "xtension ".toList ++
      maskFrom (.code .clear) (blockTail container enumName inner) ++ site.ending,
      isBlank_of_lineFeeds h.lead, .inl rfl, ?_⟩
    rw [patch, blockText_eq, maskFrom_extension]
    rfl
  seam := by
    refine h.word_before.imp_right fun ⟨hlead, _⟩ => ?_
    obtain ⟨c, feeds, hcons⟩ := List.exists_cons_of_ne_nil hlead
    rw [patch, hcons, h.lead c (by rw [hcons]; exact List.mem_cons_self)]
    rfl

theorem getLast?_patch (h : site.IsSound) : (site.patch (maskFrom (.code .clear)
    (blockText container enumName inner))).getLast?.any isWordChar = false := by
  rw [patch, List.getLast?_append_of_ne_nil, List.getLast?_append]
  · cases hlast : site.ending.getLast? with
    | some c =>
      rw [Option.some_or, h.ending c (List.mem_of_getLast? hlast)]
      exact (by decide : isWordChar '\n' = false)
    | none =>
      rw [Option.none_or,
        maskFrom_blockText (isNameFragment_of_isTypeName hcontainer) henum hinner, blockText,
        ← List.cons_append, ← List.append_assoc, List.getLast?_concat]
      exact (by decide : isWordChar '}' = false)
  · rw [blockText_eq, maskFrom_extension]
    simp

/-- No enum is mentioned in what is put in. -/
theorem quiet_patch (h : site.IsSound) : Quiet [Header.keyword]
    (site.patch (maskFrom (.code .clear) (blockText container enumName inner))) :=
  (quiet_lineFeeds _ (by decide) h.lead).append
    ((quiet_blockText (isNameFragment_of_isTypeName hcontainer) henum hinner).append
      (quiet_lineFeeds _ (by decide) h.ending))

omit hcontainer henum hinner in
theorem length_patch_maskFrom (code : Text) :
    (site.patch (maskFrom (.code .clear) code)).length = (site.patch code).length := by
  simp only [patch, List.length_append, length_maskFrom]

/-- The mask of the part that is taken out is exchanged for that of a block. -/
theorem exchange (h : site.IsSound) : Exchange site.before.masked site.maskedPart
    (site.patch (maskFrom (.code .clear) (blockText container enumName inner)))
    site.behind.masked where
  quiet := quiet_patch hcontainer henum hinner h
  balanced := (balanced_lineFeeds h.lead).append
    ((balanced_blockText (isNameFragment_of_isTypeName hcontainer) henum hinner).append
      (balanced_lineFeeds h.ending))
  mem_brace := by
    rw [patch, maskFrom_blockText (isNameFragment_of_isTypeName hcontainer) henum hinner, blockText]
    simp
  fits := fits_patch h
  word_part := fun hne => h.word_part fun hnil => by
    rw [hnil] at hne
    exact hne rfl
  word_block := fun _ => by
    have hpatch := getLast?_patch hcontainer henum hinner h
    cases hlast : (site.patch (maskFrom (.code .clear)
        (blockText container enumName inner))).getLast? with
    | some c => rwa [hlast] at hpatch
    | none =>
      exact absurd (List.getLast?_eq_none_iff.1 hlast)
        (patch_ne_nil (isBlock_blockText hcontainer henum hinner).ne_nil)

/-- Where code is put apart from all declarations, they are read as before. -/
theorem readings_changed (h : site.IsSound) (hapart : Apart site.text.masked site.before.length
      (site.before.length + site.part.length)) (allowRepeats : Bool) :
    site.Retains (blockText container enumName inner) allowRepeats := by
  have hexchange := exchange hcontainer henum hinner h
  have hbefore : site.before.length = site.before.masked.length := (length_masked _).symm
  have hpart : site.part.length = site.maskedPart.length := (length_maskFrom _ _).symm
  rw [masked_text h, hbefore, hpart] at hapart
  rw [retains_iff, masked_changed hcontainer henum hinner h, masked_text h, ← length_patch_maskFrom,
    hbefore, hpart]
  exact readings_exchange hapart h.closing hexchange.balanced hexchange.quiet hexchange.fits
    hexchange.word_part hexchange.word_block allowRepeats

end

end Site

end EnumCompanion
