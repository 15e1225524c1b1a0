import EnumCompanion.Proofs.Document.Site

/-!
# Blocks beside a site

A block that stands in a text stands there still when code is put in elsewhere,
under any other name: what is put in does not mention it, and its lines end
where they did. The code that is put in stands there itself.

* `Site.stands_before`: a block before the site;
* `Site.SameStart`, `Site.stands_behind`: a block behind it, and the places from
  which it is looked for;
* `Site.stands_own`: the block that is put in.
-/

namespace EnumCompanion

open Text Mask Block

namespace Site

variable {site : Site} {container enumName inner name code : Text}

/-! ### Lines -/

/-- What is put in starts with a letter or with a line feed. -/
theorem firstLine_patch (h : site.IsSound) (container enumName inner rest : Text) :
    site.lead = [] ∧ isBlankText
        (firstLine (site.patch (blockText container enumName inner) ++ rest)) = false ∨
      site.lead ≠ [] ∧
        firstLine (site.patch (blockText container enumName inner) ++ rest) = [] := by
  cases hlead : site.lead with
  | nil =>
    refine .inl ⟨rfl, ?_⟩
    rw [patch, hlead, blockText_eq]
    exact isBlankText_firstLine_cons (by decide) _
  | cons c feeds =>
    obtain rfl := h.lead c (by rw [hlead]; exact List.mem_cons_self)
    refine .inr ⟨List.cons_ne_nil _ _, ?_⟩
    rw [patch, hlead]
    rfl

/-- It ends with a brace or with a line feed. -/
theorem firstLine_reverse_patch (h : site.IsSound) (container enumName inner rest : Text) :
    site.ending = [] ∧ isBlankText
        (firstLine ((site.patch (blockText container enumName inner)).reverse ++ rest)) = false ∨
      site.ending ≠ [] ∧
        firstLine ((site.patch (blockText container enumName inner)).reverse ++ rest) = [] := by
  rcases List.eq_nil_or_concat site.ending with hending | ⟨feeds, c, hending⟩
  · refine .inl ⟨hending, ?_⟩
    have hcode : blockText container enumName inner =
        blockHead container enumName ++ '{' :: inner ++ ['}'] := by
      rw [blockText]
      simp only [List.append_assoc, List.cons_append]
    rw [patch, hending, List.append_nil, hcode, ← List.append_assoc, List.reverse_append,
      List.reverse_singleton]
    exact isBlankText_firstLine_cons (by decide) _
  · obtain rfl := h.ending c (by rw [hending]; simp)
    refine .inr ⟨by simp [hending], ?_⟩
    rw [patch, hending, List.concat_eq_append, ← List.append_assoc, ← List.append_assoc,
      List.reverse_append, List.reverse_singleton]
    rfl

/-- The code that is put in has no margin before it. -/
theorem IsSound.isFlush_lead (h : site.IsSound) : IsFlush (site.before ++ site.lead).reverse := by
  rw [List.reverse_append]
  rcases List.eq_nil_or_concat site.lead with hlead | ⟨feeds, c, hlead⟩
  · cases h.kind with
    | replaced _ _ hflush => rwa [hlead]
    | inserted _ _ hne => exact absurd hlead hne
    | appended _ _ hne => exact absurd hlead hne
  · obtain rfl := h.lead c (by rw [hlead]; simp)
    rw [hlead, List.concat_eq_append, List.reverse_append]
    exact isFlush_cons_lineFeed _

/-- It has no margin behind it. -/
theorem IsSound.isFlush_ending (h : site.IsSound) : IsFlush (site.ending ++ site.behind) := by
  cases hending : site.ending with
  | nil =>
    cases h.kind with
    | replaced _ _ _ hflush => exact hflush
    | inserted _ _ _ hne => exact absurd hending hne
    | appended _ hbehind =>
      rw [hbehind]
      exact isFlush_nil
  | cons c feeds =>
    obtain rfl := h.ending c (by rw [hending]; exact List.mem_cons_self)
    exact isFlush_cons_lineFeed _

/-- What is flush before the site is so with code in it. -/
theorem isFlush_before (h : site.IsSound) {run more : Text} (hrun : site.before = run ++ more)
    (hlast : run.getLast? ≠ some '\n') (hflush : IsFlush (more ++ (site.part ++ site.behind))) :
    IsFlush (more ++ (site.patch (blockText container enumName inner) ++ site.behind)) := by
  rcases firstLine_patch h container enumName inner site.behind with ⟨-, hblank⟩ | ⟨hlead, hline⟩
  · exact hflush.exchange (.inr hblank)
  · cases h.kind with
    | replaced hnil => exact absurd hnil hlead
    | inserted _ hfeed =>
      -- The line at the end of the run ends before the site.
      have hmem : '\n' ∈ more := by
        cases hmore : more.getLast? with
        | none =>
          rw [List.getLast?_eq_none_iff.1 hmore, List.append_nil] at hrun
          exact absurd (hrun ▸ hfeed) hlast
        | some c =>
          rw [hrun, List.getLast?_append, hmore, Option.some_or] at hfeed
          exact Option.some.inj hfeed ▸ List.mem_of_getLast? hmore
      rwa [isFlush_append_of_mem hmem] at hflush ⊢
    | appended hpart hbehind =>
      refine hflush.exchange (.inl ?_)
      rw [hline, hpart, hbehind]
      rfl

/-- What is flush behind the site is so with code in it. -/
theorem isFlush_behind (h : site.IsSound) {run more : Text} (hrun : site.behind = more ++ run)
    (hne : run ≠ []) (hflush : IsFlush (site.before ++ (site.part ++ more)).reverse) :
    IsFlush (site.before ++ (site.patch (blockText container enumName inner) ++ more)).reverse := by
  simp only [List.reverse_append, List.append_assoc] at hflush ⊢
  rcases firstLine_reverse_patch h container enumName inner site.before.reverse with ⟨-, hblank⟩ | ⟨hending, hline⟩
  · exact hflush.exchange (.inr hblank)
  · cases h.kind with
    | replaced _ hnil => exact absurd hnil hending
    | inserted hpart hfeed =>
      refine hflush.exchange (.inl ?_)
      obtain ⟨before, hbefore⟩ := List.getLast?_eq_some_iff.1 hfeed
      rw [hline, hpart, hbefore, List.reverse_append]
      rfl
    | appended _ hbehind => exact absurd (List.append_eq_nil_iff.1 (hrun.symm.trans hbehind)).2 hne

/-! ### Blocks -/

/-- Of two ways to cut a text in two, the one that cuts further behind takes in
    all that the other has before. -/
theorem exists_append_of_length_le {first second third before behind : Text}
    (h : first ++ (second ++ third) = before ++ behind)
    (hlength : first.length + second.length ≤ before.length) :
    ∃ more, before = first ++ (second ++ more) ∧ third = more ++ behind := by
  rw [← List.append_assoc] at h
  have hbegins : first ++ second <+: before := by
    refine List.prefix_of_prefix_length_le (List.prefix_append _ third) ?_ (by simpa using hlength)
    rw [h]
    exact List.prefix_append _ _
  obtain ⟨more, rfl⟩ := hbegins
  rw [List.append_assoc (first ++ second)] at h
  exact ⟨more, List.append_assoc _ _ _, List.append_cancel_left h⟩

variable (hcontainer : isTypeName container = true) (henum : isTypeName enumName = true)
  (hinner : Tame [] [] inner) (hname : isTypeName name = true)

include hcontainer henum hinner hname

/-- A block that stands before the site stands there still. -/
theorem stands_before (h : site.IsSound) {start : Nat} {before behind : Text}
    (hlast : code.getLast?.any isBlank = false) (hne : code ≠ [])
    (hstands : Stands site.text name code start before behind)
    (hle : before.length + code.length ≤ site.before.length) : ∃ behind',
      Stands (site.changed (blockText container enumName inner)) name code start before behind' := by
  obtain ⟨more, hbefore, hbehind⟩ := exists_append_of_length_le
    (hstands.text_eq.symm.trans site.text_eq) hle
  obtain ⟨masked, block, maskedBehind, hfound, hmasked, hblock⟩ := hstands.found
  obtain ⟨maskedMore, hmaskedBefore, hmaskedBehind⟩ := exists_append_of_length_le
    (hfound.masked_eq.symm.trans (masked_text h)) (by rw [length_masked, hmasked, hblock]; exact hle)
  refine ⟨more ++ (site.patch (blockText container enumName inner) ++ site.behind), ?_,
    ⟨masked, block, maskedMore ++ (site.patch (maskFrom (.code .clear)
      (blockText container enumName inner)) ++ site.behind.masked), ⟨?_, hfound.isBlock,
        hfound.start_le, hfound.previous, ?_⟩, hmasked, hblock⟩, hstands.flush_before, ?_⟩
  · rw [changed, hbefore]
    simp only [List.append_assoc]
  · rw [masked_changed hcontainer henum hinner h, hmaskedBefore]
    simp only [List.append_assoc]
  · exact hfound.unmentioned.of_append hname (.inl hfound.previous)
      (hfound.isBlock.blunt hfound.previous _)
  · have hrun : site.before = (before ++ code) ++ more := by rw [hbefore, List.append_assoc]
    refine isFlush_before h hrun ?_ (hbehind ▸ hstands.flush_behind)
    rw [List.getLast?_append_of_ne_nil _ hne]
    intro hfeed
    rw [hfeed] at hlast
    exact absurd (show isBlank '\n' = false from hlast) (by decide)

omit hcontainer henum hinner in
/-- A mention before the site does not go on with what is put in. -/
theorem unmentioned_before (h : site.IsSound) {start : Nat}
    (hnone : Unmentioned name start none site.before.masked
      (site.maskedPart ++ site.behind.masked)) (rest : Text) :
    Unmentioned name start none site.before.masked
      (site.patch (maskFrom (.code .clear) (blockText container enumName inner)) ++ rest) := by
  refine hnone.of_append hname ?_ ((fits_patch h).append rest).blunt
  refine h.word_before.imp_right fun ⟨_, hpart, hbehind⟩ => ?_
  rw [maskedPart, hpart, hbehind]
  rfl

/-- What is put in mentions no other block. -/
theorem unmentioned_patch (h : site.IsSound) (hne : name ≠ container) (start : Nat)
    (previous : Option Char) (behind : Text) : Unmentioned name start previous
      (site.patch (maskFrom (.code .clear) (blockText container enumName inner))) behind := by
  have hfeeds : ∀ {feeds : Text}, (∀ c ∈ feeds, c = '\n') → ∀ start previous behind,
      Unmentioned name start previous feeds behind := fun hfeeds start previous behind =>
    unmentioned_of_quiet hname (quiet_lineFeeds keywords (by decide) hfeeds) (fun _ hmem => hmem)
      start previous behind
  rw [patch, unmentioned_append, unmentioned_append]
  exact ⟨hfeeds h.lead _ _ _, unmentioned_blockText hcontainer henum hinner hname hne _ _ _,
    hfeeds h.ending _ _ _⟩

omit hname in
/-- Behind what is put in no word goes on, as behind what is taken out. -/
theorem getLast?_patch_or (h : site.IsSound) (hne : site.behind ≠ []) (more : Text) :
    ((site.before.masked ++ (site.patch (maskFrom (.code .clear)
      (blockText container enumName inner)) ++ more)).getLast?.any isWordChar) =
        ((site.before.masked ++ (site.maskedPart ++ more)).getLast?.any isWordChar) := by
  have hpatchne : site.patch (maskFrom (.code .clear) (blockText container enumName inner)) ≠ [] :=
    patch_ne_nil (isBlock_blockText hcontainer henum hinner).ne_nil
  simp only [List.getLast?_append]
  cases more.getLast? with
  | some c => rfl
  | none =>
    obtain ⟨c, hc⟩ := Option.isSome_iff_exists.1 (List.getLast?_isSome.2 hpatchne)
    have hpatch := getLast?_patch hcontainer henum hinner h
    rw [hc] at hpatch ⊢
    exact hpatch.trans (h.word_part hne).symm

/-- The places from which a block is looked for before code is put in and after:
    from before the site, for another name than that of the code, or from one
    place behind it. -/
def SameStart (site : Site) (code name container : Text) (start start' : Nat) : Prop :=
  name ≠ container ∧ start ≤ site.before.length ∧ start' = start ∨
    site.before.length + site.part.length ≤ start ∧
      start' + site.part.length = start + (site.patch code).length

/-- What is not mentioned up to a place behind the site is not mentioned with code
    in it. -/
theorem unmentioned_behind (h : site.IsSound) {start start' : Nat}
    (hstart : SameStart site (blockText container enumName inner) name container start start')
    {more rest : Text} (hne : site.behind ≠ []) (hbehind : site.behind.masked = more ++ rest)
    (hnone : Unmentioned name start none (site.before.masked ++ (site.maskedPart ++ more)) rest) :
    Unmentioned name start' none (site.before.masked ++ (site.patch (maskFrom (.code .clear)
      (blockText container enumName inner)) ++ more)) rest := by
  have hpart : site.maskedPart.length = site.part.length := length_maskFrom _ _
  have hbefore : site.before.masked.length = site.before.length := length_masked _
  have hlength : (site.patch (maskFrom (.code .clear) (blockText container enumName inner))).length =
      (site.patch (blockText container enumName inner)).length := length_patch_maskFrom _
  rw [unmentioned_append, unmentioned_append, List.append_assoc, ← hbehind] at hnone ⊢
  obtain ⟨hnone, -, hrest⟩ := hnone
  refine ⟨?_, ?_, ?_⟩
  · rcases hstart with ⟨-, hle, rfl⟩ | ⟨hge, hmoved⟩
    · exact unmentioned_before hname h hnone _
    · exact unmentioned_of_length_le (by omega)
  · rcases hstart with ⟨hother, -, -⟩ | ⟨hge, hmoved⟩
    · exact unmentioned_patch hcontainer henum hinner hname h hother _ _ _
    · exact unmentioned_of_length_le (by omega)
  · have hsame : start' - site.before.masked.length - (site.patch (maskFrom (.code .clear)
        (blockText container enumName inner))).length =
          start - site.before.masked.length - site.maskedPart.length := by
      rcases hstart with ⟨-, hle, rfl⟩ | ⟨hge, hmoved⟩ <;> omega
    have hprevious := getLast?_patch_or hcontainer henum hinner h hne []
    rw [hsame]
    refine (unmentioned_congr_previous ?_).1 hrest
    simpa only [List.append_nil, List.getLast?_append, Option.or_none] using hprevious.symm

/-- A block that stands behind the site stands there still, moved with its
    text. From before the site it is still found if it has another name. -/
theorem stands_behind (h : site.IsSound) {start start' : Nat} (hcode : code ≠ [])
    (hstart : SameStart site (blockText container enumName inner) name container start start')
    {before behind : Text} (hstands : Stands site.text name code start before behind)
    (hle : site.before.length + site.part.length ≤ before.length) : ∃ before',
      Stands (site.changed (blockText container enumName inner)) name code start' before' behind := by
  obtain ⟨more, rfl, hbehind⟩ := exists_append_of_length_le
    (site.text_eq.symm.trans hstands.text_eq) hle
  obtain ⟨masked, block, maskedBehind, hfound, hmasked, hblock⟩ := hstands.found
  have hpart : site.maskedPart.length = site.part.length := length_maskFrom _ _
  have hbefore : site.before.masked.length = site.before.length := length_masked _
  have hlength : (site.patch (maskFrom (.code .clear) (blockText container enumName inner))).length =
      (site.patch (blockText container enumName inner)).length := length_patch_maskFrom _
  obtain ⟨maskedMore, rfl, hmaskedBehind⟩ := exists_append_of_length_le
    ((masked_text h).symm.trans hfound.masked_eq) (by rw [hbefore, hmasked, hpart]; exact hle)
  have hbehindne : site.behind ≠ [] := by
    rw [hbehind]
    simp [hcode]
  refine ⟨site.before ++ (site.patch (blockText container enumName inner) ++ more), ?_,
    ⟨site.before.masked ++ (site.patch (maskFrom (.code .clear)
      (blockText container enumName inner)) ++ maskedMore), block, maskedBehind,
      ⟨?_, hfound.isBlock, ?_, ?_, ?_⟩, ?_, hblock⟩, ?_, hstands.flush_behind⟩
  · rw [changed, hbehind]
    simp only [List.append_assoc]
  · rw [masked_changed hcontainer henum hinner h, hmaskedBehind]
    simp only [List.append_assoc]
  · have hstartle := hfound.start_le
    simp only [List.length_append] at hstartle ⊢
    rcases hstart with ⟨-, hle, rfl⟩ | ⟨hge, hmoved⟩ <;> omega
  · rw [getLast?_patch_or hcontainer henum hinner h hbehindne]
    exact hfound.previous
  · exact unmentioned_behind hcontainer henum hinner hname h hstart hbehindne hmaskedBehind
      hfound.unmentioned
  · simp only [List.length_append] at hmasked ⊢
    omega
  · exact isFlush_behind h hbehind (by simp [hcode]) hstands.flush_before

omit hname in
/-- What is put in stands there as the block of its name, if that was not
    mentioned before. -/
theorem stands_own (h : site.IsSound) {start : Nat} (hstart : start ≤ site.before.length)
    (hnone : Unmentioned container start none site.before.masked
      (site.maskedPart ++ site.behind.masked)) :
    Stands (site.changed (blockText container enumName inner)) container
      (blockText container enumName inner) start (site.before ++ site.lead)
      (site.ending ++ site.behind) where
  text_eq := by
    rw [changed, patch]
    simp only [List.append_assoc]
  found := by
    refine ⟨site.before.masked ++ site.lead, maskFrom (.code .clear) (blockText container enumName inner),
      site.ending ++ site.behind.masked, ⟨?_, isBlock_blockText hcontainer henum hinner, ?_, ?_, ?_⟩,
      ?_, length_maskFrom _ _⟩
    · rw [masked_changed hcontainer henum hinner h, patch]
      simp only [List.append_assoc]
    · rw [List.length_append, length_masked]
      omega
    · rw [List.getLast?_append]
      cases hlast : site.lead.getLast? with
      | some c =>
        rw [h.lead c (List.mem_of_getLast? hlast)]
        exact (by decide : isWordChar '\n' = false)
      | none =>
        have hlead := List.getLast?_eq_none_iff.1 hlast
        exact h.word_before.resolve_right fun hword => hword.1 hlead
    · rw [unmentioned_append]
      refine ⟨?_, unmentioned_of_quiet hcontainer (quiet_lineFeeds keywords (by decide) h.lead)
        (fun _ hmem => hmem) _ _ _⟩
      have hbefore : Unmentioned container start none site.before.masked (site.patch
          (maskFrom (.code .clear) (blockText container enumName inner)) ++ site.behind.masked) :=
        unmentioned_before hcontainer h hnone _
      rwa [patch, List.append_assoc, List.append_assoc] at hbefore
    · rw [List.length_append, List.length_append, length_masked]
  flush_before := h.isFlush_lead
  flush_behind := h.isFlush_ending

end Site

end EnumCompanion
