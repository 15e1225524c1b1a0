import EnumCompanion.Proofs.Document.Enums

/-!
# Enums beside an exchange

Code that is put into a text leaves the enums beside it as they are, where
nothing is read around both of them that was not read before. What is put in on
lines of its own may be part of a value list, and so may a block that it takes
the place of, if that is *orderly*: what is read around the one is read around
the other.

* `Site.isMember_patch`: what is put in, as part of a value list;
* `Block.IsOrderly`, `Site.Replaces.exists_isMember`: the blocks that may be such
  a part as well;
* `Site.Preserves`, `Site.IsOff`, `Site.exists_keeps`: an enum beside the site is
  kept;
* `Site.Follows.preserves`, `Site.Replaces.preserves_of_isOrderly`,
  `Site.Replaces.preserves_of_isClear`: where nothing is read around both.
-/

namespace EnumCompanion

open Text Mask Block

/-! ### Blocks in value lists -/

/-- A keyword ends with a letter. -/
theorem exists_concat_of_mem_keywords {keyword : Text} (h : keyword ∈ keywords) :
    ∃ word c, keyword = word ++ [c] ∧ isBlank c = false := by
  rcases List.mem_pair.1 h with rfl | rfl
  · exact ⟨"extensio".toList, 'n', rfl, by decide⟩
  · exact ⟨"clas".toList, 's', rfl, by decide⟩

/-- The mention of a block is no part of a value name, nor are the words and blanks
    beside it. -/
theorem isFiller_of_mention {lead keyword gap name more : Text} (hkeyword : keyword ∈ keywords)
    (hne : gap ≠ []) (hgap : ∀ c ∈ gap, isBlank c = true) (hname : isTypeName name = true)
    (hchars : ∀ c ∈ lead ++ (keyword ++ (gap ++ (name ++ more))),
      isNameChar c = true ∨ isBlank c = true) :
    IsFiller (lead ++ (keyword ++ (gap ++ (name ++ more)))) where
  cuts := fun c hc => (hchars c hc).elim notMem_cuts_of_isNameChar notMem_cuts_of_isBlank
  dot := fun hdot => (hchars _ hdot).elim (absurd · (by decide)) (absurd · (by decide))
  words := by
    obtain ⟨word, first, rfl, hblank⟩ := exists_concat_of_mem_keywords hkeyword
    obtain ⟨last, letters, rfl, hupper, -⟩ := isTypeName_iff.1 hname
    obtain ⟨c, blanks, rfl⟩ := List.exists_cons_of_ne_nil hne
    refine ⟨lead ++ word, first, c :: blanks, last, letters ++ more, ?_, hblank,
      isBlank_of_isNameChar (isNameChar_of_isUpper hupper), c, List.mem_cons_self,
      hgap c List.mem_cons_self⟩
    simp only [List.append_assoc, List.cons_append, List.nil_append]

section

variable {container enumName inner : Text} (hcontainer : isTypeName container = true)
  (henum : isTypeName enumName = true)

include hcontainer henum

/-- The head of a block is words and blanks. -/
theorem isNameChar_or_isBlank_of_mem_blockHead :
    ∀ c ∈ blockHead container enumName, isNameChar c = true ∨ isBlank c = true := by
  have hwords : ∀ text : Text, (text.all fun c => isNameChar c || isBlank c) = true →
      ∀ c ∈ text, isNameChar c = true ∨ isBlank c = true := fun text hall c hc =>
    Bool.or_eq_true_iff.1 (List.all_eq_true.1 hall c hc)
  have hword := hwords "extension ".toList (by decide)
  have hbetween := hwords " on ".toList (by decide)
  unfold blockHead
  generalize "extension ".toList = word at *
  generalize " on ".toList = between at *
  simp only [List.forall_mem_append]
  exact ⟨hword, fun c hc => .inl (isNameChar_of_isTypeName hcontainer c hc), hbetween,
    fun c hc => .inl (isNameChar_of_isTypeName henum c hc), hwords _ (by decide)⟩

/-- On lines of its own the head of a block is no part of a value name. -/
theorem isFiller_blockHead {lead ending : Text} (hlead : ∀ c ∈ lead, c = '\n')
    (hending : ∀ c ∈ ending, c = '\n') :
    IsFiller (lead ++ (blockHead container enumName ++ ending)) := by
  have hchars : ∀ c ∈ lead ++ (blockHead container enumName ++ ending),
      isNameChar c = true ∨ isBlank c = true := by
    intro c hc
    rcases List.mem_append.1 hc with hc | hc
    · exact .inr (Site.isBlank_of_lineFeeds hlead c hc)
    rcases List.mem_append.1 hc with hc | hc
    · exact isNameChar_or_isBlank_of_mem_blockHead hcontainer henum c hc
    · exact .inr (Site.isBlank_of_lineFeeds hending c hc)
  obtain ⟨word, hmem, hword⟩ : ∃ word ∈ keywords, "extension ".toList = word ++ [' '] :=
    ⟨_, List.mem_cons_self, rfl⟩
  unfold blockHead at hchars ⊢
  rw [hword] at hchars ⊢
  generalize " on ".toList = between at hchars ⊢
  simp only [List.append_assoc] at hchars ⊢
  exact isFiller_of_mention hmem (List.cons_ne_nil _ _) (forall_mem_of_all (by decide)) hcontainer
    hchars

/-- What is put in is a block that may stand in a value list. -/
theorem Site.isMember_patch {site : Site} (hinner : Tame [] [] inner) (h : site.IsSound) :
    IsMember (site.patch (maskFrom (.code .clear) (blockText container enumName inner)))
      (site.lead ++ (blockHead container enumName ++ site.ending)) where
  exists_group := by
    refine ⟨site.lead ++ blockHead container enumName, maskFrom (.code .clear) inner, site.ending,
      ?_, (List.append_assoc _ _ _).symm, fun c hc => ?_, fun c hc => ?_, hinner.nested⟩
    · rw [maskFrom_blockText (isNameFragment_of_isTypeName hcontainer) henum hinner, blockText,
        patch]
      simp only [List.append_assoc, List.cons_append, List.nil_append]
    · rcases List.mem_append.1 hc with hc | hc
      · exact notMem_signs_of_isBlank (isBlank_of_lineFeeds h.lead c hc)
      · exact (isNameChar_or_isBlank_of_mem_blockHead hcontainer henum c hc).elim
          notMem_signs_of_isNameChar notMem_signs_of_isBlank
    · exact notMem_signs_of_isBlank (isBlank_of_lineFeeds h.ending c hc)
  filler := isFiller_blockHead hcontainer henum h.lead h.ending

end

/-! ### Orderly blocks -/

/-- A block that starts its line, with words before its brace and its brackets
    properly nested. -/
structure Block.IsOrderly (text : Text) (span : Span) : Prop where
  line : (text.masked.take span.start.toNat).getLast? = some '\n'
  words : ∀ c ∈ (span.cover text.masked).takeWhile (· != '{'), isNameChar c = true ∨ isBlank c = true
  brackets : openBrackets [] (span.cover text.masked) = some []

instance (text : Text) (span : Span) : Decidable (IsOrderly text span) :=
  decidable_of_iff ((text.masked.take span.start.toNat).getLast? = some '\n' ∧
      (((span.cover text.masked).takeWhile (· != '{')).all fun c => isNameChar c || isBlank c) ∧
      openBrackets [] (span.cover text.masked) = some []) <| by
    simp only [List.all_eq_true, Bool.or_eq_true]
    exact ⟨fun h => ⟨h.1, h.2.1, h.2.2⟩, fun h => ⟨h.line, h.words, h.brackets⟩⟩

/-- Behind what is balanced, a properly nested group ends where braces are
    closed. -/
theorem nested_of_openBrackets_group {head body tail : Text} (hhead : ∀ c ∈ head, c ∉ signs)
    (hbody : Balanced body) (h : openBrackets [] (head ++ '{' :: (body ++ '}' :: tail)) = some []) :
    Nested body := by
  have hopen : openBrackets [] head = some [] := by
    refine openBrackets_of_notMem (fun c hc pair hpair => ?_) []
    have hsigns : ∀ pair ∈ bracketPairs, pair.1 ∈ signs ∧ pair.2 ∈ signs := by decide
    exact ⟨fun heq => hhead c hc (heq ▸ (hsigns pair hpair).1),
      fun heq => hhead c hc (heq ▸ (hsigns pair hpair).2)⟩
  rw [openBrackets_append, hopen, Option.bind_some] at h
  have hshuts : Shuts ['}'] (body ++ '}' :: tail) := shuts_of_openBrackets h
  obtain ⟨inner, rest, hsplit, hinner⟩ : ∃ inner rest, body ++ '}' :: tail = inner ++ '}' :: rest ∧
      Nested inner := by
    generalize body ++ '}' :: tail = text at hshuts
    cases hshuts with
    | cons hinner _ => exact ⟨_, _, rfl, hinner⟩
  -- Both are the text before the closing brace.
  have hclose : closingBraceFrom (0 + 1 : Nat) (body ++ '}' :: tail) = some body.length :=
    closingBraceFrom_eq_some_iff.2 ⟨body, tail, rfl, rfl, hbody⟩
  rw [closingBraceFrom_eq_some_iff.2 ⟨inner, rest, hsplit, rfl, hinner.balanced⟩] at hclose
  rw [(List.append_inj hsplit (Option.some.inj hclose).symm).1]
  exact hinner

namespace Site.Replaces

variable {site : Site} {text name : Text} {start : Nat} {span : Span}
  (h : site.Replaces text name start span)

include h

theorem start_eq : span.start = site.before.length := congrArg Edit.start (h.edit_eq [])

theorem stop_eq : span.stop = (site.before.length + site.part.length : Nat) :=
  congrArg Edit.stop (h.edit_eq [])

theorem masked_eq :
    text.masked = site.before.masked ++ (site.maskedPart ++ site.behind.masked) := by
  rw [← h.text_eq, masked_text h.isSound]

/-- The mask of what is taken out. -/
theorem cover_masked : span.cover text.masked = site.maskedPart := by
  have hbefore : site.before.length = site.before.masked.length := (length_masked _).symm
  have hpart : site.part.length = site.maskedPart.length := (length_maskFrom _ _).symm
  rw [Span.cover, h.start_eq, h.stop_eq, h.masked_eq, hbefore, hpart]
  exact slice_append _ _ _

/-- The mask of the text before it. -/
theorem take_masked : text.masked.take span.start.toNat = site.before.masked := by
  rw [h.start_eq, Int.toNat_natCast, ← length_masked, h.masked_eq, List.take_left]

/-- What is taken out starts with a keyword. -/
theorem fits (hlast : site.before.masked.getLast? = some '\n') :
    Fits site.before.masked site.maskedPart where
  word := by
    obtain ⟨left, block, right, hpart, hblock, hleft, -⟩ := h.exists_block
    obtain ⟨c, rest, rfl, hc⟩ := hblock.exists_cons
    exact ⟨left, c, rest ++ right, hleft, hc, hpart⟩
  seam := by
    rw [hlast]
    exact .inl (by decide)

/-- An orderly block may stand in a value list. -/
theorem exists_isMember (hname : isTypeName name = true) (horderly : IsOrderly text span) :
    ∃ words, IsMember site.maskedPart words := by
  obtain ⟨left, block, right, hpart, hblock, hleft, hright⟩ := h.exists_block
  obtain ⟨keyword, hmem, gap, header, body, hne, hgap, -, hheader, hbody, rfl⟩ := hblock
  have hgroup : site.maskedPart = left ++ (keyword ++ (gap ++ (name ++ header))) ++
      '{' :: (body ++ '}' :: right) := by
    rw [hpart]
    simp only [List.append_assoc, List.cons_append, List.nil_append]
  have hopen : ∀ c ∈ left ++ (keyword ++ (gap ++ (name ++ header))), (c != '{') = true := by
    intro c hc
    rw [bne_iff_ne]
    rintro rfl
    rcases List.mem_append.1 hc with hc | hc
    · exact absurd (hleft _ hc) (by decide)
    · exact brace_notMem_mention hmem hgap hname hheader hc
  have hwords := horderly.words
  have hbrackets := horderly.brackets
  rw [h.cover_masked, hgroup] at hwords hbrackets
  rw [List.takeWhile_append_of_pos hopen, List.takeWhile_cons_of_neg (by decide),
    List.append_nil] at hwords
  have hsigns : ∀ c ∈ left ++ (keyword ++ (gap ++ (name ++ header))), c ∉ signs := fun c hc =>
    (hwords c hc).elim notMem_signs_of_isNameChar notMem_signs_of_isBlank
  refine ⟨left ++ (keyword ++ (gap ++ (name ++ (header ++ right)))), ⟨_, body, right, hgroup, ?_,
    hsigns, fun c hc => notMem_signs_of_isBlank (hright c hc),
    nested_of_openBrackets_group hsigns hbody hbrackets⟩, ?_⟩
  · simp only [List.append_assoc]
  · refine isFiller_of_mention hmem hne hgap hname fun c hc => ?_
    simp only [← List.append_assoc] at hc hwords
    exact (List.mem_append.1 hc).elim (hwords c) fun hc => .inr (hright c hc)

end Site.Replaces

/-! ### Enums beside a site -/

/-- An enum of a text as it is read in a changed text: with its name and its
    values, and each end of its span where it was or moved by the difference of
    the lengths. -/
structure Enumeration.Stays (text changed : Text) (e e' : Enumeration) : Prop where
  declared : e'.declared = e.declared
  span : ∃ span ∈ e.span, ∃ span' ∈ e'.span,
    (span'.start = span.start ∨ span'.start = span.start + (changed.length - text.length : Int)) ∧
      (span'.stop = span.stop ∨ span'.stop = span.stop + (changed.length - text.length : Int))

/-- Whether a block is clear of what can be read around it and a place: each
    declaration that starts before the place ends before the block or starts
    behind its start, or closes before the place all braces that it opens, with
    those of the block. -/
def Block.IsClear (text : Text) (span : Span) (place : Int) : Prop :=
  ∀ other ∈ declarations text.masked, other.1 < place →
    other.2 ≤ span.start ∨ span.start ≤ other.1 ∨ Balanced (span.cover text.masked) ∧ other.2 ≤ place

instance (text : Text) (span : Span) (place : Int) : Decidable (IsClear text span place) :=
  inferInstanceAs (Decidable (∀ other ∈ declarations text.masked, _ → _))

namespace Site

/-- What can be read around the site and a place with code in the site could be read
    before. -/
def Preserves (site : Site) (code : Text) (allowRepeats : Bool) (place : Nat) : Prop :=
  Exchange.Preserves allowRepeats site.before.masked site.maskedPart
    (site.patch (maskFrom (.code .clear) code)) site.behind.masked place

/-- What can be read around the site can be read with code in it. -/
def Carries (site : Site) (code : Text) (allowRepeats : Bool) : Prop :=
  Exchange.Preserves allowRepeats site.before.masked (site.patch (maskFrom (.code .clear) code))
    site.maskedPart site.behind.masked site.before.length

/-- A run of the text that is before the site or behind it, or around it if what is
    read there can be read with code in the site. -/
inductive IsOff (site : Site) (code : Text) (allowRepeats : Bool) (start stop : Nat) : Prop where
  | before (le : stop ≤ site.before.length)
  | behind (le : site.before.length + site.part.length ≤ start)
  | around (start_lt : start < site.before.length)
      (lt_stop : site.before.length + site.part.length < stop)
      (carries : site.Carries code allowRepeats)

variable {site : Site} {text name container enumName inner : Text} {start : Nat} {span : Span}
  {allowRepeats : Bool}

/-- An enum is kept where its declaration stays. -/
theorem keeps_of_stays {code : Text} {e e' : Enumeration} {reading reading' : Reading}
    (h : e.summary = reading.summary site.text)
    (h' : e'.summary = reading'.summary (site.changed code))
    (hle : reading.stop ≤ site.text.length) (hle' : reading'.stop ≤ (site.changed code).length)
    (hstays : reading.Stays reading' site.before.length site.part.length (site.patch code).length) :
    site.Keeps code e e' ∧ e.Stays site.text (site.changed code) e' := by
  obtain ⟨hname, hvalues, hanchor⟩ := Enumeration.anchor_of_summary h hle
  obtain ⟨hname', hvalues', hanchor'⟩ := Enumeration.anchor_of_summary h' hle'
  have hsamename := hname'.trans (hstays.name.trans hname.symm)
  have hsamevalues := hvalues'.trans (hstays.values.trans hvalues.symm)
  have hlength := site.length_text
  have hlength' := site.length_changed code
  have hstart := hstays.start
  have hstop := hstays.stop
  refine ⟨⟨hsamename, hsamevalues, by omega⟩, ⟨?_, _, congrArg (·.2.2) h, _, congrArg (·.2.2) h', ?_, ?_⟩⟩
  · rw [Enumeration.declared, Enumeration.declared, hsamename, hsamevalues]
  · dsimp only [Span.ofOffsets]
    omega
  · dsimp only [Span.ofOffsets]
    omega

variable (hcontainer : isTypeName container = true) (henum : isTypeName enumName = true)
  (hinner : Tame [] [] inner)

include hcontainer henum hinner

/-- What can be read around an insertion could be read without it. -/
theorem Follows.preserves {anchor : Nat} (h : site.Follows text anchor) (hsound : site.IsSound)
    (allowRepeats : Bool) (place : Nat) :
    site.Preserves (blockText container enumName inner) allowRepeats place := by
  have hempty : site.maskedPart = [] := by
    rw [maskedPart, h.part]
    rfl
  rw [Preserves, hempty]
  exact Exchange.preserves (isMember_patch hcontainer henum hinner hsound) (fits_patch hsound)
    countsAs_nil rfl (by simp) (h.getLast?_masked_before hsound)

/-- What can be read around an orderly block and around the one that takes its
    place is the same. -/
theorem Replaces.preserves_of_isOrderly (h : site.Replaces text name start span)
    (hname : isTypeName name = true) (horderly : IsOrderly text span) (allowRepeats : Bool)
    (place : Nat) : site.Preserves (blockText container enumName inner) allowRepeats place ∧
      site.Carries (blockText container enumName inner) allowRepeats := by
  have hpatch := isMember_patch hcontainer henum hinner h.isSound
  obtain ⟨words, hpart⟩ := h.exists_isMember hname horderly
  have hlast := horderly.line
  rw [h.take_masked] at hlast
  exact ⟨Exchange.preserves hpatch (fits_patch h.isSound) hpart.countsAs hpart.balanced
      hpart.filler.cuts fun _ => hlast,
    Exchange.preserves hpart (h.fits hlast) hpatch.countsAs hpatch.balanced hpatch.filler.cuts
      fun _ => hlast⟩

/-- Nothing can be read around a block and a place that it is clear of. -/
theorem Replaces.preserves_of_isClear (h : site.Replaces text name start span) {place : Nat}
    (hclear : IsClear text span place) (allowRepeats : Bool) :
    site.Preserves (blockText container enumName inner) allowRepeats place := by
  refine (exchange hcontainer henum hinner h.isSound).preserves_of_declarations h.isSound.closing
    fun other hother hlt => ?_
  rw [← h.masked_eq] at hother
  have := hclear other hother (Int.ofNat_lt.2 hlt)
  rw [h.cover_masked, h.start_eq] at this
  rw [length_masked]
  exact this.imp Int.ofNat_le.1 (Or.imp Int.ofNat_le.1 (And.imp_right Int.ofNat_le.1))

/-- An enum beside the site is kept where nothing is read around both that was not
    read before. -/
theorem exists_keeps (h : site.IsSound) {e : Enumeration} (he : e ∈ parseAll site.text allowRepeats)
    {start stop : Nat} (hspan : e.span = some (.ofOffsets site.text start stop))
    (hpreserves : site.Preserves (blockText container enumName inner) allowRepeats start)
    (hoff : site.IsOff (blockText container enumName inner) allowRepeats start stop) :
    ∃ e' ∈ parseAll (site.changed (blockText container enumName inner)) allowRepeats,
      site.Keeps (blockText container enumName inner) e e' ∧
        e.Stays site.text (site.changed (blockText container enumName inner)) e' := by
  have hbefore : site.before.masked.length = site.before.length := length_masked _
  have hpart : site.maskedPart.length = site.part.length := length_maskFrom _ _
  have hpatch : (site.patch (maskFrom (.code .clear) (blockText container enumName inner))).length =
      (site.patch (blockText container enumName inner)).length := length_patch_maskFrom _
  obtain ⟨reading, hreading, hsummary⟩ : ∃ reading ∈ readings allowRepeats site.text.masked,
      reading.summary site.text = e.summary := by
    rw [← List.mem_map, ← map_summary_parseAll]
    exact List.mem_map_of_mem he
  obtain ⟨rfl, rfl⟩ : reading.start = start ∧ reading.stop = stop := by
    have hsame : some (Span.ofOffsets site.text reading.start reading.stop) = _ :=
      (congrArg (·.2.2) hsummary).trans hspan
    exact ⟨Int.ofNat_inj.1 (congrArg Span.start (Option.some.inj hsame)),
      Int.ofNat_inj.1 (congrArg Span.stop (Option.some.inj hsame))⟩
  have hle := (mem_readings_iff.1 hreading).1.start_lt
  rw [masked_text h] at hreading
  rw [length_masked] at hle
  -- The declaration is read with the code in it,
  obtain ⟨reading', hreading', hstays⟩ := (exchange hcontainer henum hinner h).exists_mem_readings
    hpreserves hreading (by
      rw [hbefore, hpart]
      cases hoff with
      | before hle => exact .inl hle
      | behind hle => exact .inr (.inl hle)
      | around hstart hstop hcarries => exact .inr (.inr ⟨hstart, hstop, hcarries⟩))
  rw [← masked_changed hcontainer henum hinner h] at hreading'
  rw [hbefore, hpart, hpatch] at hstays
  have hle' := (mem_readings_iff.1 hreading').1.start_lt
  rw [length_masked] at hle'
  -- and so is the enum.
  obtain ⟨e', he', hsummary'⟩ : ∃ e' ∈ parseAll (site.changed (blockText container enumName inner))
      allowRepeats, e'.summary = reading'.summary _ := by
    rw [← List.mem_map, map_summary_parseAll]
    exact List.mem_map_of_mem hreading'
  exact ⟨e', he', keeps_of_stays hsummary.symm hsummary' hle.2 hle'.2 hstays⟩

end Site

end EnumCompanion
