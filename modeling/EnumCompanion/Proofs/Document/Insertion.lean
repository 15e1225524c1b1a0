import EnumCompanion.Proofs.Declaration.Insertion
import EnumCompanion.Proofs.Document.Exchange
import EnumCompanion.Proofs.Document.Regeneration

/-!
# Insertions behind an enum

An enum that ends its line ends in code, and the next line starts in code as
well. What is inserted there is a block on lines of its own, which is found again
as the first of its name, and all declarations are read as before: also one that
was read around the enum's line would be read without the block.

* `Site.Follows.retains`: behind an enum that ends its line all declarations are
  read as before;
* `Generator.exists_action_insertion`: what an action inserts there.
-/

namespace EnumCompanion

open Journal Text Mask Block

/-! ### The line behind an enum -/

/-- An enum ends with a brace that is code. -/
theorem Enumeration.getLast?_masked_take {text : Text} {e : Enumeration} {allowRepeats : Bool}
    (h : e ∈ parseAll text allowRepeats) :
    (masked (text.take (e.anchor text))).getLast? = some '}' := by
  obtain ⟨before, part, behind, rfl, hshows, hmask, hread, hspan⟩ := exists_shows_of_mem_parseAll h
  have hanchor : e.anchor (before ++ (part ++ behind)) = (before ++ part).length := by
    rw [anchor, hspan, Option.elim_some]
    refine (place_natCast _ _).trans ?_
    simp only [List.length_append]
    omega
  have hseam : Seam before part := seam_of_head? (by rw [hshows.head]; decide) _
  have hlast : part.masked.getLast? = some '}' := (of_readHead?_length (by rwa [length_masked])).2.1
  have hne : part.masked ≠ [] := fun hnil => by
    rw [hnil] at hlast
    exact absurd hlast.symm (Option.some_ne_none _)
  rw [hanchor, ← List.append_assoc, List.take_left, masked, Mask.maskFrom_append hseam, hmask,
    List.getLast?_append_of_ne_nil _ hne, hlast]

namespace Site.Follows

variable {site : Site} {text : Text} {e : Enumeration} {allowRepeats : Bool}
  (h : site.Follows text (e.anchor text)) (hmem : e ∈ parseAll text allowRepeats)
  (hline : isBlankText (firstLine (text.drop (e.anchor text))) = true)

include h

theorem text_eq_append : text = site.before ++ site.behind := by
  rw [← h.text_eq, Site.text, h.part, List.nil_append]

include hline

/-- Between an enum that ends its line and a site on the next line there are only
    blanks. -/
theorem exists_blank_gap : ∃ gap, site.before = text.take (e.anchor text) ++ gap ∧
    ∀ c ∈ gap, isBlank c = true := by
  obtain ⟨gap, hgap, hchars⟩ := h.exists_gap
  refine ⟨gap, hgap, fun c hc => ?_⟩
  rcases hchars c hc with hc | rfl
  · exact List.all_eq_true.1 hline c hc
  · decide

include hmem

/-- What is before a site on the next line ends with the brace of the enum, and
    blanks. The machine is in code there. -/
theorem exists_masked_before : ∃ front gap, site.before.masked = front ++ '}' :: gap ∧
    front.length + 1 = e.anchor text ∧ (∀ c ∈ gap, isBlank c = true) ∧
      after (.code .clear) site.before = .code .clear := by
  obtain ⟨gap, hgap, hblank⟩ := h.exists_blank_gap hline
  have hlast := Enumeration.getLast?_masked_take hmem
  obtain ⟨front, hfront⟩ := List.getLast?_eq_some_iff.1 hlast
  have hcode : after (.code .clear) (text.take (e.anchor text)) = .code .clear :=
    (after_of_getLast?_eq (by decide) (by decide) (by decide) hlast).1
  have hseam : Seam (text.take (e.anchor text)) gap := by
    rw [← List.append_nil gap]
    exact seam_of_isBlank hblank (by simp) _
  refine ⟨front, gap, ?_, ?_, hblank, ?_⟩
  · rw [hgap, masked, Mask.maskFrom_append hseam, hcode,
      maskFrom_of_plain fun c hc => isPlain_of_isBlank (hblank c hc)]
    change masked (text.take (e.anchor text)) ++ gap = _
    rw [hfront, List.append_assoc, List.singleton_append]
  · have hlength := congrArg List.length hfront
    rw [length_masked, List.length_take_of_le (e.anchor_le_length text), List.length_append] at hlength
    exact hlength.symm
  · rw [hgap, after_append hseam, hcode, after_of_isBlank hblank]

/-- A site on the line behind an enum that ends its line is sound. -/
theorem isSound_of_mem : site.IsSound := by
  obtain ⟨-, -, -, -, -, hcode⟩ := h.exists_masked_before hmem hline
  refine h.isSound ?_
  rw [h.text_eq_append]
  exact landsInCode_of_after hcode

theorem masked_eq_append : text.masked = site.before.masked ++ site.behind.masked := by
  have hempty : site.maskedPart = [] := by
    rw [maskedPart, h.part]
    rfl
  rw [← h.text_eq, masked_text (h.isSound_of_mem hmem hline), hempty, List.nil_append]

/-- Nothing that is read reaches over a site on the line behind an enum that ends
    its line. -/
theorem splits : Splits allowRepeats 0 none 0 site.before.masked site.behind.masked := by
  obtain ⟨front, gap, hfront, hlength, hblank, -⟩ := h.exists_masked_before hmem hline
  obtain ⟨start, stop, hspans⟩ := exists_spans_of_mem_parseAll hmem
  rw [hspans.anchor_eq] at hlength
  have hdrop : site.before.masked.drop stop = gap := by
    rw [hfront, ← hlength, List.append_cons, List.drop_left' (by simp)]
  refine splits_of_mem_parseAll hmem hspans.span hspans.start_lt (h.masked_eq_append hmem hline) ?_
    (by rwa [hdrop])
  rw [hfront, List.length_append, List.length_cons]
  omega

/-- All declarations are read as before with a block on the line behind an enum
    that ends its line. -/
theorem retains {container enumName inner : Text} (hcontainer : isTypeName container = true)
    (henum : isTypeName enumName = true) (hinner : Tame [] [] inner) :
    site.Retains (blockText container enumName inner) allowRepeats := by
  have hsound := h.isSound_of_mem hmem hline
  obtain ⟨front, gap, hfront, -, hblank, -⟩ := h.exists_masked_before hmem hline
  have hsplits := h.splits hmem hline
  have hfeed := h.getLast?_masked_before hsound
  have hne : maskFrom (.code .clear) (blockText container enumName inner) ≠ [] :=
    (isBlock_blockText hcontainer henum hinner).ne_nil
  rw [hfront] at hsplits hfeed
  obtain ⟨htext, hchanged⟩ := readings_insert (isMember_patch hcontainer henum hinner hsound) hblank
    hfeed (quiet_patch hcontainer henum hinner hsound)
    (fun _ => getLast?_patch hcontainer henum hinner hsound) (patch_ne_nil hne) hsplits
  rw [← hfront, length_masked] at htext hchanged
  rw [length_patch_maskFrom] at hchanged
  refine ⟨?_, ?_⟩
  · rw [h.text_eq, h.masked_eq_append hmem hline, htext, h.part, List.length_nil, Nat.add_zero]
  · rw [masked_changed hcontainer henum hinner hsound, hchanged]

/-- Nothing follows on the last line of what is inserted behind an enum that ends
    its line. -/
theorem head?_ending_append : (site.ending ++ site.behind).head?.all (· == '\n') = true := by
  have hsound := h.isSound_of_mem hmem hline
  cases hending : site.ending with
  | cons c feeds =>
    obtain rfl := hsound.ending c (by rw [hending]; exact List.mem_cons_self)
    rfl
  | nil =>
    cases hsound.kind with
    | replaced hlead => exact absurd hlead h.lead_ne_nil
    | inserted _ _ _ hne => exact absurd hending hne
    | appended _ hbehind => rw [hbehind]; rfl

end Site.Follows

/-! ### Actions that insert -/

/-- An action that inserts one piece into a text: its block, on lines of its own
    behind a blank line. The block is found from a place on, and all enums are
    read as before. -/
structure Action.Inserts (action : Action) (text : Text) (allowRepeats : Bool) (container : Text)
    (place : Nat) (before lead ending behind changed : Text) : Prop where
  replaces : action.replaces = false
  applyEdits_eq : applyEdits text action.edits = .ok changed
  text_eq : text = before ++ behind
  changed_eq : changed = before ++ ((lead ++ (action.code ++ ending)) ++ behind)
  /-- Between the place and the piece there are only blanks. -/
  exists_gap : ∃ gap, before = text.take place ++ gap ∧ ∀ c ∈ gap, isBlank c = true
  lineFeeds : ∀ c ∈ lead ++ ending, c = '\n'
  /-- The block follows a blank line. -/
  blankLine : ['\n', '\n'] <:+ before ++ lead
  /-- The last line of the block ends with it. -/
  line : (ending ++ behind).head?.all (· == '\n') = true
  found : HasBlock changed container action.code place
  enums : List.Forall₂ (Enumeration.Moves changed before.length before.length
      (lead ++ (action.code ++ ending)).length)
    (parseAll text allowRepeats) (parseAll changed allowRepeats)

namespace Generator

variable {generator : Generator} {e : Enumeration} {request : Request} {text : Text}

/-- The action for an enum that ends its line inserts its block, if that is not
    mentioned behind the enum. -/
theorem exists_action_insertion (hregistry : generator.registry = .builtIn)
    (hextends : generator.Extends request) {allowRepeats : Bool}
    (hmem : e ∈ parseAll text allowRepeats)
    (hline : isBlankText (firstLine (text.drop (e.anchor text))) = true) :
    ∃ container action, generator.containerName e request = .ok container ∧
      (generator.action text e request).run.value = .ok action ∧
      (generator.block e request).run.value = .ok action.code ∧
      (first? text.masked container (e.anchor text) = none →
        ∃ before lead ending behind changed, action.Inserts text allowRepeats container
          (e.anchor text) before lead ending behind changed) := by
  obtain ⟨container, inner, hmakes⟩ := exists_makes hregistry hextends.exists_find e
  have hcontainer := hextends.isTypeName hmakes.containerName
  obtain ⟨action, haction, hedits, hcode, hreplaces⟩ :=
    hmakes.exists_action hregistry hextends.exists_find text
  refine ⟨container, action, hmakes.containerName, haction, hcode ▸ hmakes.block, fun hfirst => ?_⟩
  -- Without a mention no block is found, and the edit is an insertion.
  have hfind : findBlock? text container (e.anchor text) = none := by
    rw [findBlock?, hfirst]
    rfl
  obtain ⟨site, hfollows, hedit⟩ := exists_site_of_insertion (blockText container e.name inner)
    (e.anchor_le_length text) generator.settings.trailingNewline.isTruthy
  have hsound := hfollows.isSound_of_mem hmem hline
  have hretains := hfollows.retains hmem hline hcontainer e.isTypeName_name hmakes.tame
  have hunmentioned : Unmentioned container (e.anchor text) none site.before.masked
      (site.maskedPart ++ site.behind.masked) := by
    refine unmentioned_of_le_first? fun mention hmention => ?_
    rw [← Site.masked_text hsound, hfollows.text_eq, hfirst] at hmention
    exact absurd hmention.symm (Option.some_ne_none _)
  refine ⟨site.before, site.lead, site.ending, site.behind,
    site.changed (blockText container e.name inner), ?_, ?_, hfollows.text_eq_append, ?_,
    hfollows.exists_blank_gap hline, List.forall_mem_append.2 ⟨hsound.lead, hsound.ending⟩,
    hfollows.blankLine,
    hfollows.head?_ending_append hmem hline, ?_, ?_⟩
  · rw [hreplaces, hfind]
    rfl
  · rw [hedits, blockEdit, hfind]
    dsimp only
    rw [hedit, ← Site.applyEdits_edit, hfollows.text_eq]
  · rw [hcode]
    rfl
  · rw [hcode]
    exact (hasBlock_iff hcontainer (isTrimmed_blockText _ _ _)).2 ⟨_, _, site.stands_own hcontainer
      e.isTypeName_name hmakes.tame hsound (hfollows.place_le (e.anchor_le_length text)) hunmentioned⟩
  · have hmoves := hretains.forall₂_matches.imp fun _ _ hmatches => hmatches.moves
    rw [hfollows.text_eq, hfollows.part, List.length_nil, Nat.add_zero] at hmoves
    rw [hcode]
    simp only [Int.ofNat_zero, Int.sub_zero] at hmoves
    exact hmoves

/-- An enum on a line of its own in the body of one that is not closed. -/
def inUnclosed : Text := "enum X \x7b x,\nenum A \x7b a \x7d \nenum B \x7b b \x7d".toList

theorem exists_action_insertion_inUnclosed : ∃ e ∈ parseAll inUnclosed false, ∃ container action,
    ({} : Generator).containerName e (.exactly .getters) = .ok container ∧
      (({} : Generator).action inUnclosed e (.exactly .getters)).run.value = .ok action ∧
      (({} : Generator).block e (.exactly .getters)).run.value = .ok action.code ∧
      ∃ before lead ending behind changed, action.Inserts inUnclosed false container
        (e.anchor inUnclosed) before lead ending behind changed := by
  obtain ⟨e, hmem, hline, hfirst⟩ : ∃ e ∈ parseAll inUnclosed false,
      isBlankText (firstLine (inUnclosed.drop (e.anchor inUnclosed))) = true ∧
        ∀ container ∈ (({} : Generator).containerName e (.exactly .getters)).toOption,
          first? inUnclosed.masked container (e.anchor inUnclosed) = none := by
    decide +kernel
  obtain ⟨container, action, hcontainer, haction, hblock, hinserts⟩ :=
    exists_action_insertion rfl (extends_default ⟨_, find_eq_ok rfl .getters⟩) hmem hline
  exact ⟨e, hmem, container, action, hcontainer, haction, hblock,
    hinserts (hfirst container (by rw [hcontainer]; rfl))⟩

end Generator

end EnumCompanion
