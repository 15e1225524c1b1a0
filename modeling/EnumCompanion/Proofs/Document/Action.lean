import EnumCompanion.Proofs.Code.Container
import EnumCompanion.Proofs.Document.Frame

/-!
# The sites of actions

An action has one edit, whose site is that of the block that is found, or else
the line behind the enum or the end of the text. The site of a block that is
found is always sound; that of an insertion is so if code is read there as code,
neither as a comment nor as a literal.

* `Site.edit`, `Site.applyEdits_edit`: the edit of a site, and what it makes of the
  text;
* `Site.Replaces`, `exists_site_of_findBlock`: the site of a block;
* `LandsInCode`, `Site.Follows`, `exists_site_of_insertion`: the site of an
  insertion;
* `Generator.Makes.exists_action`: the action of an operation for an enum.
-/

namespace EnumCompanion

open Text Mask Block

/-! ### Edits -/

/-- The edit that puts code into a text. -/
def Site.edit (site : Site) (code : Text) : Edit :=
  ⟨site.before.length, (site.before.length + site.part.length : Nat), site.patch code⟩

theorem Site.applyEdits_edit (site : Site) (code : Text) :
    applyEdits site.text [site.edit code] = .ok (site.changed code) := by
  have hordered : Edit.ordered [site.edit code] = [site.edit code] := by
    simp [Edit.ordered]
  have hfault : Edit.firstFault? site.text.length 0 [site.edit code] = none := by
    rw [Edit.firstFault?, if_neg]
    · rfl
    · simp only [edit, text, List.length_append]
      omega
  rw [applyEdits, hordered, hfault]
  simp only [weave, edit, text, changed, Int.toNat_natCast, Nat.sub_zero, List.take_left,
    ← List.drop_drop, List.drop_left, List.append_assoc]

/-! ### The site of a block -/

/-- No brace stands in a mention. -/
theorem Block.brace_notMem_mention {keyword gap name head : Text} (hkeyword : keyword ∈ keywords)
    (hgap : ∀ c ∈ gap, isBlank c = true) (hname : isTypeName name = true) (hhead : '{' ∉ head) :
    '{' ∉ keyword ++ (gap ++ (name ++ head)) := by
  have hkeywords : ∀ keyword ∈ keywords, '{' ∉ keyword := by decide
  simp only [List.mem_append, not_or]
  refine ⟨hkeywords keyword hkeyword, fun hbrace => ?_, fun hbrace => ?_, hhead⟩
  · exact absurd (hgap _ hbrace) (by decide)
  · exact absurd (isNameChar_of_isTypeName hname _ hbrace) (by decide)

/-- A block closes the braces that it opens. -/
theorem IsBlock.closing {name block : Text} (hname : isTypeName name = true)
    (h : IsBlock name block) : Closing block := by
  obtain ⟨keyword, hmem, gap, head, body, -, hgap, -, hhead, hbody, rfl⟩ := h
  have hgroup : Balanced ('{' :: (body ++ ['}'])) :=
    Balanced.group (show ('{', '}') ∈ bracketPairs by decide) hbody (rfl : Balanced [])
  have := (closing_of_notMem (brace_notMem_mention hmem hgap hname hhead)).append
    (closing_of_balanced hgroup)
  simpa only [List.append_assoc] using this

theorem closing_of_isBlank {text : Text} (h : ∀ c ∈ text, isBlank c = true) : Closing text :=
  closing_of_notMem fun hbrace => absurd (h _ hbrace) (by decide)

theorem IsBlock.getLast? {name block : Text} (h : IsBlock name block) :
    block.getLast? = some '}' := by
  obtain ⟨keyword, -, gap, head, body, -, -, -, -, -, rfl⟩ := h
  simp only [← List.cons_append, ← List.append_assoc, List.getLast?_concat]

/-- A block starts with a letter that shows. -/
theorem IsBlock.exists_cons {name block : Text} (h : IsBlock name block) :
    ∃ c rest, block = c :: rest ∧ (c = 'e' ∨ c = 'c') := by
  obtain ⟨keyword, hmem, gap, head, body, -, -, -, -, -, rfl⟩ := h
  cases keyword with
  | nil => exact absurd hmem (by decide)
  | cons c keyword =>
    exact ⟨c, _, rfl, by simpa using head?_of_mem_keywords _ hmem⟩

/-- Behind a block that is found the machine is in code, and before it it is
    ready for a word. -/
theorem Block.Found.masks {text name : Text} {start : Nat} {masked block maskedBehind : Text}
    (h : Found text.masked name start masked block maskedBehind) {before middle behind : Text}
    (htext : text = before ++ (middle ++ behind)) (hbefore : before.length = masked.length)
    (hmiddle : middle.length = block.length) :
    (after (.code .clear) before).isReady = true ∧ before.masked = masked ∧
      maskFrom (after (.code .clear) before) middle = block ∧
      after (after (.code .clear) before) middle = .code .clear ∧ behind.masked = maskedBehind ∧
      (∃ c rest, middle = c :: rest ∧ (c = 'e' ∨ c = 'c')) ∧ middle.getLast? = some '}' := by
  have hmasked : maskFrom (.code .clear) (before ++ (middle ++ behind)) =
      masked ++ (block ++ maskedBehind) := by
    rw [← htext]
    exact h.masked_eq
  obtain ⟨c, letters, rfl, hc⟩ := h.isBlock.exists_cons
  have hfirst : c ≠ ' ' ∧ c ≠ '\n' ∧ c ≠ '/' ∧ c ≠ '*' := by
    rcases hc with rfl | rfl <;> decide
  obtain ⟨hshows, hbeforeMask, hmiddleMask, hbehindMask⟩ :=
    shows_of_masked hmasked hbefore hmiddle rfl hfirst h.isBlock.getLast?
  obtain ⟨trail, htrail⟩ := hshows.resume
  obtain ⟨tail, htail⟩ := List.head?_eq_some_iff.1 hshows.head
  exact ⟨Mode.isReady_of_resume? hfirst.2.1 htrail, hbeforeMask, hmiddleMask, hshows.leave,
    hbehindMask, ⟨c, tail, htail, hc⟩, hshows.last⟩

/-- A line feed at the end of a text shows in its mask. -/
theorem getLast?_maskFrom_lineFeed {mode : Mode} {text : Text} (h : text.getLast? = some '\n') :
    (maskFrom mode text).getLast? = some '\n' := by
  obtain ⟨init, rfl⟩ := List.getLast?_eq_some_iff.1 h
  have hfeed : ∀ mode, maskFrom mode ['\n'] = ['\n'] := by
    intro mode
    rw [maskFrom_cons, shown]
    split <;> rfl
  rw [Mask.maskFrom_append (seam_of_head? (by simp) _), hfeed, List.getLast?_concat]

/-- A text neither of whose first characters opens a comment. -/
theorem seam_of_isBlank {gap rest : Text} (hgap : ∀ c ∈ gap, isBlank c = true)
    (hrest : rest.head? ≠ some '/' ∧ rest.head? ≠ some '*') (text : Text) :
    Seam text (gap ++ rest) := by
  cases gap with
  | nil => exact seam_of_head? hrest text
  | cons c gap =>
    have hc := hgap c List.mem_cons_self
    refine seam_of_head? ⟨?_, ?_⟩ text <;> intro hhead <;> rw [Option.some.inj hhead] at hc <;>
      exact absurd hc (by decide)

section

variable {name before left middle right behind block : Text}
  (hmargins : Margins (before ++ left) (right ++ behind) before left right behind)
  (hhead : ∃ c rest, middle = c :: rest ∧ (c = 'e' ∨ c = 'c'))
  (hlast : middle.getLast? = some '}')
  (hmiddle : maskFrom (after (.code .clear) (before ++ left)) middle = block)
  (hafter : after (after (.code .clear) (before ++ left)) middle = .code .clear)

include hmargins hhead hlast hmiddle hafter

/-- The mask of a block with its margins. -/
theorem maskFrom_margins :
    (before ++ left).masked = before.masked ++ maskFrom (after (.code .clear) before) left ∧
      after (.code .clear) (before ++ left) = after (after (.code .clear) before) left ∧
      maskFrom (after (.code .clear) before) (left ++ (middle ++ right)) =
        maskFrom (after (.code .clear) before) left ++ (block ++ right) ∧
      after (after (.code .clear) before) (left ++ (middle ++ right)) = .code .clear := by
  have hleft := hmargins.left_blank
  have hright := fun c hc => (hmargins.right_blank c hc).1
  have hseamBefore : Seam before left := by
    rw [← List.append_nil left]
    exact seam_of_isBlank (fun c hc => (hleft c hc).1) (by simp) before
  have hseamLeft : Seam left (middle ++ right) := by
    obtain ⟨c, rest, rfl, hc⟩ := hhead
    refine seam_of_head? ?_ _
    rcases hc with rfl | rfl <;> simp
  have hseamMiddle : Seam middle right := seam_of_getLast? (by rw [hlast]; decide) _
  have hmode : after (.code .clear) (before ++ left) = after (after (.code .clear) before) left :=
    after_append hseamBefore
  rw [hmode] at hmiddle hafter
  refine ⟨Mask.maskFrom_append hseamBefore, hmode, ?_, ?_⟩
  · rw [Mask.maskFrom_append hseamLeft, Mask.maskFrom_append hseamMiddle, hmiddle, hafter,
      maskFrom_of_plain fun c hc => isPlain_of_isBlank (hright c hc)]
  · rw [after_append hseamLeft, after_append hseamMiddle, hafter, after_of_isBlank hright]

/-- The site of a block with its margins is sound. -/
theorem Site.isSound_of_margins (hname : isTypeName name = true) (hblock : IsBlock name block)
    (hready : (after (.code .clear) (before ++ left)).isReady = true)
    (hprevious : (before ++ left).masked.getLast?.any isWordChar = false) :
    (⟨before, left ++ (middle ++ right), behind, [], []⟩ : Site).IsSound := by
  have hleft := hmargins.left_blank
  have hright := fun c hc => (hmargins.right_blank c hc).1
  obtain ⟨hmask, hmode, hpart, hleave⟩ := maskFrom_margins hmargins hhead hlast hmiddle hafter
  have hblank : ∀ c ∈ maskFrom (after (.code .clear) before) left, isBlank c = true :=
    isBlank_of_mem_maskFrom fun c hc => (hleft c hc).1
  have hseamPart : ∀ text, Seam text (left ++ (middle ++ right) ++ behind) := by
    intro text
    obtain ⟨c, rest, rfl, hc⟩ := hhead
    rw [List.append_assoc]
    refine seam_of_isBlank (fun c hc => (hleft c hc).1) ?_ text
    rcases hc with rfl | rfl <;> simp
  have hwordBefore : before.masked.getLast?.any isWordChar = false := by
    rcases hmargins.endsLine with rfl | rfl | hfeed
    · rwa [List.append_nil] at hprevious
    · rfl
    · rw [masked, getLast?_maskFrom_lineFeed hfeed]
      exact (by decide : isWordChar '\n' = false)
  have hnil : ∀ c ∈ ([] : Text), c = '\n' := fun c hc => absurd hc List.not_mem_nil
  refine ⟨.replaced rfl rfl hmargins.flush_wide hmargins.flush_narrow, hnil, hnil, hseamPart _, ?_,
    fun hne => absurd rfl hne, fun _ => ?_, fun _ => hleave, ?_, .inl hwordBefore, fun _ => ?_⟩
  · rcases List.eq_nil_or_concat right with rfl | ⟨init, c, rfl⟩
    · refine seam_of_getLast? ?_ _
      rw [List.append_nil, List.getLast?_append, hlast, Option.some_or]
      decide
    · refine seam_of_getLast? ?_ _
      intro hslash
      simp only [List.concat_eq_append, ← List.append_assoc, List.getLast?_concat,
        Option.some.injEq] at hslash
      have := hright c (by simp)
      rw [hslash] at this
      exact absurd this (by decide)
  · rw [hmode] at hready
    exact isReady_of_after (isProper_after (show Mode.IsProper (.code .clear) from trivial) _) hleft hready
  · rw [maskedPart, hpart]
    exact (closing_of_isBlank hblank).append ((hblock.closing hname).append
      (closing_of_isBlank hright))
  · rw [maskedPart, hpart, List.getLast?_append, List.getLast?_append, hblock.getLast?]
    cases hlast' : right.getLast? with
    | none => exact (by decide : isWordChar '}' = false)
    | some c => exact isWordChar_of_isBlank (hright c (List.mem_of_getLast? hlast'))

end

/-- A block mentions its name. -/
theorem IsBlock.mention?_ne_none {name block : Text} (hname : isTypeName name = true)
    (h : IsBlock name block) {previous : Option Char} (hprevious : previous.any isWordChar = false)
    (rest : Text) : mention? name previous (block ++ rest) ≠ none := by
  obtain ⟨keyword, hmem, gap, head, body, hne, hgap, hword, -, -, rfl⟩ := h
  have hmention : Mentions name previous
      (keyword ++ (gap ++ (name ++ (head ++ '{' :: (body ++ ['}'])))) ++ rest) keyword gap
      (head ++ '{' :: (body ++ ['}']) ++ rest) := by
    refine ⟨by simp only [List.append_assoc], hprevious, hmem, hne, hgap, ?_⟩
    cases head with
    | nil => exact (by decide : isWordChar '{' = false)
    | cons c head => exact hword
  rw [(mention?_eq_some_iff hname).2 ⟨_, _, hmention⟩]
  exact Option.some_ne_none _

/-- The site of a block of a name that is found from a place on: the block with its
    margins. -/
structure Site.Replaces (site : Site) (text name : Text) (start : Nat) (span : Span) : Prop where
  text_eq : site.text = text
  isSound : site.IsSound
  edit_eq : ∀ code, ⟨span.start, span.stop, code⟩ = site.edit code
  start_lt : start < site.before.length + site.part.length
  /-- The margin of the block starts behind what is no blank. -/
  start_le : (text.take start).getLast?.any isBlank = false → start ≤ site.before.length
  /-- The name is mentioned in the block, -/
  mentioned : ∀ {start}, start ≤ site.before.length → ∀ behind,
    ¬Unmentioned name start none (site.before.masked ++ site.maskedPart) behind
  /-- and not before it. -/
  unmentioned : Unmentioned name start none site.before.masked (site.maskedPart ++ site.behind.masked)
  /-- There is the mask of a block between blanks. -/
  exists_block : ∃ left block right, site.maskedPart = left ++ (block ++ right) ∧
    IsBlock name block ∧ (∀ c ∈ left, isBlank c = true) ∧ ∀ c ∈ right, isBlank c = true

/-- A block that is found has a site. -/
theorem exists_site_of_findBlock {text name : Text} (hname : isTypeName name = true) {start : Nat}
    {span : Span} (h : findBlock? text name start = some span) :
    ∃ site : Site, site.Replaces text name start span := by
  obtain ⟨masked, block, maskedBehind, hfound, rfl⟩ := (findBlock?_eq_some_iff hname).1 h
  obtain ⟨_, middle, _, before, left, right, behind, rfl, hbefore, hmiddle, hmargins⟩ :=
    hfound.exists_margins
  obtain ⟨hready, hbeforeMask, hmiddleMask, hafter, hbehindMask, hhead, hlast⟩ :=
    hfound.masks rfl hbefore hmiddle
  rw [← hbefore, ← hmiddle, hmargins.ofOffsets_eq]
  obtain rfl := hmargins.before_eq
  obtain rfl := hmargins.behind_eq
  obtain ⟨hmask, -, hpart, -⟩ := maskFrom_margins hmargins hhead hlast hmiddleMask hafter
  have hstart := hfound.start_le
  have hleft := hmargins.left_blank
  have hright := fun c hc => (hmargins.right_blank c hc).1
  let site : Site := ⟨before, left ++ (middle ++ right), behind, [], []⟩
  have hmaskedPart : site.maskedPart =
      maskFrom (after (.code .clear) before) left ++ (block ++ right) := hpart
  refine ⟨site, (hmargins.text_eq middle).symm,
    Site.isSound_of_margins hmargins hhead hlast hmiddleMask hafter hname hfound.isBlock hready
      (by rw [hbeforeMask]; exact hfound.previous), fun code => ?_, ?_, fun hlast => ?_,
    fun {start'} hle behind' hnone => ?_, ?_, ⟨_, block, right, hmaskedPart, hfound.isBlock,
      isBlank_of_mem_maskFrom fun c hc => (hleft c hc).1, hright⟩⟩
  · simp only [site, Site.edit, Site.patch, Span.ofOffsets, List.nil_append, List.append_nil]
  · obtain ⟨c, letters, rfl, -⟩ := hhead
    simp only [site, List.length_append, List.length_cons] at hbefore ⊢
    omega
  · -- Otherwise the margin would end in a blank before the place.
    by_contra hover
    obtain ⟨taken, rfl⟩ := Nat.exists_eq_add_of_le (Nat.le_of_not_le hover)
    rw [← hbefore, List.length_append] at hstart
    have hne : left.take taken ≠ [] := by
      rw [← List.length_pos_iff, List.length_take_of_le (Nat.le_of_add_le_add_left hstart)]
      dsimp only [site] at hover
      omega
    rw [List.append_assoc, List.take_length_add_append,
      List.take_append_of_le_length (Nat.le_of_add_le_add_left hstart),
      List.getLast?_append_of_ne_nil _ hne, List.getLast?_eq_getLast_of_ne_nil hne,
      Option.any_some] at hlast
    have hmem := List.mem_of_mem_take (List.getLast_mem hne)
    exact Bool.noConfusion ((hleft _ hmem).1.symm.trans hlast)
  · -- The block stands behind the place.
    rw [hmaskedPart, ← List.append_assoc, ← hmask, hbeforeMask] at hnone
    refine hfound.isBlock.mention?_ne_none hname hfound.previous (right ++ behind') ?_
    have hplace : start' ≤ masked.length := by
      rw [← hbefore, List.length_append]
      exact Nat.le_add_right_of_le hle
    have := hnone masked (block ++ right) rfl
      (List.append_ne_nil_of_left_ne_nil hfound.isBlock.ne_nil _) hplace
    rwa [Option.or_none, List.append_assoc] at this
  · have hnone := hfound.unmentioned
    have hrest : maskedBehind = right ++ behind.masked := by
      rw [← hbehindMask]
      exact (append_of_isBlank hright behind).1
    rw [← hbeforeMask, hmask, unmentioned_append, hrest] at hnone
    rw [hmaskedPart]
    simpa only [List.append_assoc] using hnone.1

/-! ### The site of an insertion -/

/-- Whether what is inserted on a new line at a place is read as code. -/
def LandsInCode (text : Text) (place : Nat) : Prop :=
  after (.code .clear) (if place < text.length then text.take place else text ++ ['\n']) =
    .code .clear

instance (text : Text) (place : Nat) : Decidable (LandsInCode text place) :=
  inferInstanceAs (Decidable (_ = _))

/-- At the end of a text the line feed that is put in ends its last line. -/
theorem landsInCode_length {text : Text} : LandsInCode text text.length ↔
    (after (.code .clear) text).step '\n' none = .code .clear := by
  rw [LandsInCode, if_neg (Nat.lt_irrefl _), after_append (seam_of_head? (by simp) _)]
  rfl

theorem landsInCode_append {before behind : Text} (hne : behind ≠ []) :
    LandsInCode (before ++ behind) before.length ↔ after (.code .clear) before = .code .clear := by
  have hlt : before.length < (before ++ behind).length := by
    have := List.length_pos_of_ne_nil hne
    rw [List.length_append]
    omega
  rw [LandsInCode, if_pos hlt, List.take_left]

theorem landsInCode_of_after {before behind : Text} (h : after (.code .clear) before = .code .clear) :
    LandsInCode (before ++ behind) before.length := by
  by_cases hbehind : behind = []
  · rw [hbehind, List.append_nil, landsInCode_length, h]
    exact step_of_plain (by decide) rfl none
  · exact (landsInCode_append hbehind).2 h

/-- The site at the end of a text is sound if code is read there. -/
theorem Site.isSound_end {text ending : Text} (hending : ∀ c ∈ ending, c = '\n')
    (hlands : LandsInCode text text.length) :
    (⟨text, [], [], ['\n', '\n'], ending⟩ : Site).IsSound where
  kind := .appended rfl rfl (List.cons_ne_nil _ _)
  lead := by simp
  ending := hending
  seam_before := seam_of_head? (by simp) _
  seam_part := seam_of_getLast? (by simp) _
  entry := fun _ => landsInCode_length.1 hlands
  ready := fun hlead => absurd hlead (List.cons_ne_nil _ _)
  leave := fun hne => absurd rfl hne
  closing := closing_of_balanced rfl
  word_before := .inr ⟨List.cons_ne_nil _ _, rfl, rfl⟩
  word_part := fun hne => absurd rfl hne

/-- The site at the start of a line is sound if code is read there. -/
theorem Site.isSound_line {before behind ending : Text} (hfeed : before.getLast? = some '\n')
    (hending : ∀ c ∈ ending, c = '\n') (hne : behind ≠ [] → ending ≠ [])
    (hlands : LandsInCode (before ++ behind) before.length) :
    (⟨before, [], behind, ['\n'], ending⟩ : Site).IsSound := by
  have hword : (Text.masked before).getLast?.any isWordChar = false := by
    rw [masked, getLast?_maskFrom_lineFeed hfeed]
    exact (by decide : isWordChar '\n' = false)
  have hentry : (after (.code .clear) before).step '\n' none = .code .clear := by
    by_cases hbehind : behind = []
    · rw [hbehind, List.append_nil] at hlands
      exact landsInCode_length.1 hlands
    · rw [(landsInCode_append hbehind).1 hlands]
      exact step_of_plain (by decide) rfl none
  exact {
    kind := by
      by_cases hbehind : behind = []
      · exact .appended rfl hbehind (List.cons_ne_nil _ _)
      · exact .inserted rfl hfeed (List.cons_ne_nil _ _) (hne hbehind)
    lead := by simp
    ending := hending
    seam_before := seam_of_getLast? (by rw [hfeed]; decide) _
    seam_part := seam_of_getLast? (by simp) _
    entry := fun _ => hentry
    ready := fun hlead => absurd hlead (List.cons_ne_nil _ _)
    leave := fun hbehind => (landsInCode_append hbehind).1 hlands
    closing := closing_of_balanced rfl
    word_before := .inl hword
    word_part := fun _ => hword }

/-- Where the line behind the one of a place starts, or the end of the text. -/
def nextLine (text : Text) (place : Nat) : Nat :=
  (text.seek? '\n' place).elim text.length (· + 1)

/-- A site behind the line of a place and a blank line. -/
structure Site.Follows (site : Site) (text : Text) (place : Nat) : Prop where
  text_eq : site.text = text
  part : site.part = []
  length_before : site.before.length = nextLine text place
  /-- Between the place and the site there is only the rest of the line. -/
  exists_gap : ∃ gap, site.before = text.take place ++ gap ∧
    ∀ c ∈ gap, c ∈ firstLine (text.drop place) ∨ c = '\n'
  lineFeeds : ∀ c ∈ site.lead ++ site.ending, c = '\n'
  lead_ne_nil : site.lead ≠ []
  blankLine : ['\n', '\n'] <:+ site.before ++ site.lead
  isSound : LandsInCode text site.before.length → site.IsSound

theorem Site.Follows.place_le {site : Site} {text : Text} {place : Nat}
    (h : site.Follows text place) (hplace : place ≤ text.length) : place ≤ site.before.length := by
  obtain ⟨gap, hgap, -⟩ := h.exists_gap
  rw [hgap, List.length_append, List.length_take_of_le hplace]
  exact Nat.le_add_right _ _

/-- Where a text goes on behind an insertion, that starts a line. -/
theorem Site.Follows.getLast?_masked_before {site : Site} {text : Text} {place : Nat}
    (h : site.Follows text place) (hsound : site.IsSound) (hne : site.behind.masked ≠ []) :
    site.before.masked.getLast? = some '\n' := by
  cases hsound.kind with
  | replaced hlead => exact absurd hlead h.lead_ne_nil
  | appended _ hnil => rw [hnil] at hne; exact absurd rfl hne
  | inserted _ hlast => exact getLast?_maskFrom_lineFeed hlast

/-- An insertion behind a place has a site behind its line. -/
theorem exists_site_of_insertion {text : Text} (code : Text) {anchor : Nat}
    (hanchor : anchor ≤ text.length) (finalLineFeed : Bool) : ∃ site : Site,
      site.Follows text anchor ∧ insertion text code anchor finalLineFeed = site.edit code := by
  have hending : ∀ feeds : Bool, ∀ c ∈ (if feeds then ['\n'] else [] : Text), c = '\n' := by
    intro feeds c hc
    cases feeds with
    | false => exact absurd hc List.not_mem_nil
    | true => exact List.mem_singleton.1 hc
  rw [insertion]
  cases hseek : text.seek? '\n' anchor with
  | none =>
    -- No line ends behind the place, so that the text itself does.
    have hline := firstLine_drop_of_seek?_eq_none hanchor hseek
    refine ⟨⟨text, [], [], ['\n', '\n'], if finalLineFeed then ['\n'] else []⟩, ⟨?_, rfl,
      by rw [nextLine, hseek]; rfl, ⟨text.drop anchor, (List.take_append_drop anchor text).symm, fun c hc => .inl (by rwa [hline])⟩,
      List.forall_mem_append.2 ⟨by simp, hending finalLineFeed⟩, List.cons_ne_nil _ _,
      List.suffix_append _ _, Site.isSound_end (hending finalLineFeed)⟩, ?_⟩
    · simp [Site.text]
    · simp only [Site.edit, Site.patch, List.append_assoc, List.length_nil, Nat.add_zero]
  | some lineFeed =>
    obtain ⟨before, behind, htext, hplace, hbefore⟩ := exists_append_of_seek?_eq_some hanchor hseek
    have hlast : before.getLast? = some '\n' := by
      rw [hbefore, ← List.append_assoc, List.getLast?_concat]
    dsimp only
    rw [hplace]
    let ending : Text :=
      if before.length < text.length then ['\n'] else if finalLineFeed then ['\n'] else []
    have hfeeds : ∀ c ∈ ending, c = '\n' := by
      intro c hc
      simp only [ending] at hc
      split_ifs at hc with hlt hfinal
      exacts [hending true c hc, hending true c hc, hending false c hc]
    refine ⟨⟨before, [], behind, ['\n'], ending⟩, ⟨htext.symm, rfl,
      by rw [nextLine, hseek]; exact hplace.symm, ⟨_, hbefore, fun c hc => ?_⟩,
      List.forall_mem_append.2 ⟨by simp, hfeeds⟩, List.cons_ne_nil _ _, ?_, fun hlands => ?_⟩, rfl⟩
    · exact (List.mem_append.1 hc).imp_right List.mem_singleton.1
    · obtain ⟨init, hinit⟩ := List.getLast?_eq_some_iff.1 hlast
      exact ⟨init, by rw [hinit, List.append_assoc, List.singleton_append]⟩
    · refine Site.isSound_line hlast hfeeds (fun hne => ?_) (htext ▸ hlands)
      have hlt : before.length < text.length := by
        have := List.length_pos_of_ne_nil hne
        rw [htext, List.length_append]
        omega
      simp only [ending, if_pos hlt]
      exact List.cons_ne_nil _ _

/-! ### The edit of an action -/

/-- The place from which the block of an enum is looked for. -/
def Enumeration.anchor (text : Text) (e : Enumeration) : Nat :=
  e.span.elim text.length fun span => text.place span.stop

theorem Enumeration.anchor_le_length (text : Text) (e : Enumeration) :
    e.anchor text ≤ text.length := by
  rw [anchor]
  cases e.span with
  | none => exact Nat.le_refl _
  | some span => exact place_le_length text _

/-- The edit that puts code into a text as the block of a name. -/
def blockEdit (text name code : Text) (anchor : Nat) (finalLineFeed : Bool) : Edit :=
  match findBlock? text name anchor with
  | some span => ⟨span.start, span.stop, code⟩
  | none => insertion text code anchor finalLineFeed

namespace Generator

variable {generator : Generator} {e : Enumeration} {request : Request} {container inner : Text}

/-- The action of an operation that is known has one edit, for its block, and
    replaces a block if it finds one. -/
theorem Makes.exists_action (h : generator.Makes e request container inner)
    (hregistry : generator.registry = .builtIn)
    (hknown : ∃ spec, generator.find request = .ok spec) (text : Text) :
    ∃ action, (generator.action text e request).run.value = .ok action ∧
      action.edits = [blockEdit text container (blockText container e.name inner) (e.anchor text)
        generator.settings.trailingNewline.isTruthy] ∧
      action.code = blockText container e.name inner ∧
      action.replaces = (findBlock? text container (e.anchor text)).isSome := by
  obtain ⟨spec, hspec⟩ := hknown
  have hexactly := find_exactly hregistry hspec
  have hmakes := h.congr (hspec.trans hexactly.symm)
  rw [action, Logged.value_run_bind, Logged.value_run_liftM, hspec, ok_bind,
    Logged.value_run_bind, hmakes.block, ok_bind, Logged.value_run_bind, Logged.value_run_liftM,
    hmakes.containerName, ok_bind]
  exact ⟨_, rfl, rfl, rfl, rfl⟩

end Generator

end EnumCompanion
