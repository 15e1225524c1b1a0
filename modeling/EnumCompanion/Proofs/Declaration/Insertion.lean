import EnumCompanion.Proofs.Declaration.Exchange

/-!
# Declarations around a block

A block is put behind the line on which a declaration ends that is read. What
else is read ends before it or starts behind it. The block may well land in the
body of a declaration that is not read; that would be read with the block in it
only if it were read without.

* `Splits.transfer`: a seam behind which something else follows;
* `Reaches.without_block`: what is read around a block is read without it;
* `readings_insert`: all declarations are read as before.
-/

namespace EnumCompanion

open Text

variable {allowRepeats : Bool} {previous : Option Char}

/-! ### What follows a seam -/

/-- Whether what is read at the head of a text goes on behind a seam. -/
def Reaches (allowRepeats : Bool) (previous : Option Char) (text behind : Text) : Prop :=
  ∃ read, readHead? allowRepeats previous (text ++ behind) = some read ∧ text.length < read.2.2

/-- Where something else follows a seam, nothing that is read goes on behind it,
    if it would have gone on behind it before. -/
theorem Splits.transfer {skip offset : Nat} {text behind behind' : Text}
    (h : Splits allowRepeats skip previous offset text behind)
    (hback : ∀ before rest, text = before ++ rest → rest ≠ [] →
      Reaches allowRepeats (before.getLast?.or previous) rest behind' →
        Reaches allowRepeats (before.getLast?.or previous) rest behind) :
    Splits allowRepeats skip previous offset text behind' := by
  -- By induction on the text before the seam: what is read at its head ends in it,
  -- and is then read whatever follows.
  induction text generalizing skip offset previous with
  | nil => exact .nil
  | cons c text ih =>
    have ih := fun {skip offset} htail => @ih (some c) skip offset htail fun before rest htext hne => by
      rw [← getLast?_cons_or c before previous]
      exact hback (c :: before) rest (by rw [htext]; rfl) hne
    by_cases hskip : 0 < skip
    · exact .cons_of_skip (ih (h.tail_of_skip hskip)) hskip
    obtain rfl : skip = 0 := by omega
    cases hhead' : readHead? allowRepeats previous (c :: (text ++ behind')) with
    | none =>
      -- What was read here before would be read here still.
      have hhead : readHead? allowRepeats previous (c :: (text ++ behind)) = none := by
        rw [Option.eq_none_iff_forall_ne_some]
        rintro ⟨name, values, length⟩ hread
        have hpart := readHead?_of_append (show readHead? allowRepeats previous (c :: text ++ behind) =
          _ from hread) (h.tail_of_some hread).1
        exact Option.some_ne_none _ ((readHead?_append hpart behind').symm.trans hhead')
      exact .cons_of_none (ih (h.tail_of_none hhead)) hhead'
    | some read =>
      obtain ⟨name, values, length⟩ := read
      -- Otherwise something that was read here would have reached over the seam.
      have hle : length ≤ (c :: text).length := by
        by_contra hlt
        obtain ⟨⟨_, _, length'⟩, hread, hlt'⟩ :=
          hback [] (c :: text) rfl (List.cons_ne_nil _ _) ⟨_, hhead', Nat.lt_of_not_le hlt⟩
        exact absurd (h.tail_of_some hread).1 (Nat.not_le.2 hlt')
      have hpart := readHead?_of_append (show readHead? allowRepeats previous (c :: text ++ behind') =
        _ from hhead') hle
      exact .cons_of_some (ih (h.tail_of_some (readHead?_append hpart behind)).2) hhead' hle

/-! ### Blocks in declarations -/

/-- What is read around a block that follows a closing brace and the rest of its
    line is read without the block as well. -/
theorem Reaches.without_block {block filler front gap behind : Text} (hblock : IsMember block filler)
    (hfeed : behind ≠ [] → (front ++ '}' :: gap).getLast? = some '\n')
    (h : Reaches allowRepeats previous (front ++ '}' :: gap) (block ++ behind)) :
    Reaches allowRepeats previous (front ++ '}' :: gap) behind := by
  obtain ⟨⟨name, values, length⟩, hread, hlt⟩ := h
  obtain ⟨blanks, clause, body, after, hdeclares, rfl, hreadable, hlength⟩ :=
    readHead?_eq_some_iff.1 hread
  -- The header ends before the brace, so that the body takes in the block.
  have hsplit := hdeclares
  rw [List.append_assoc, List.cons_append] at hsplit
  obtain ⟨start, rfl, -⟩ := hsplit.heads.exists_start
  have hopening : Header.keyword ++ (blanks ++ (name ++ clause)) ++ '{' :: start ++ '}' :: gap =
      Header.keyword ++ (blanks ++ (name ++ clause)) ++ '{' :: (start ++ '}' :: gap) := by
    simp only [List.append_assoc, List.cons_append]
  dsimp only at hlt
  rw [List.length_append] at hlength
  have hafter : after.length < (block ++ behind).length := by omega
  obtain ⟨body', _, -, hbehind, -⟩ := hdeclares.exists_around hopening hblock.balanced hafter
  obtain ⟨length', hread', hlength', hover⟩ := hdeclares.exists_readHead?_exchange hopening hblock
    countsAs_nil rfl (fun _ hc => absurd hc List.not_mem_nil)
    (hfeed (by rw [hbehind]; exact List.append_ne_nil_of_right_ne_nil _ (List.cons_ne_nil _ _)))
    hreadable hafter
  rw [List.nil_append] at hread' hlength'
  rw [List.length_append] at hlength'
  exact ⟨_, hread', by dsimp only; omega⟩

/-! ### Readings -/

section

variable {block filler front gap behind : Text} (hblock : IsMember block filler)
  (hgap : ∀ c ∈ gap, isBlank c = true)
  (hfeed : behind ≠ [] → (front ++ '}' :: gap).getLast? = some '\n')

include hblock hgap hfeed

/-- A text splits before a block as it does without it, where a closing brace and
    the rest of its line come before. -/
theorem Splits.insert
    (h : Splits allowRepeats 0 none 0 (front ++ '}' :: gap) behind) :
    Splits allowRepeats 0 none 0 (front ++ '}' :: gap) (block ++ behind) := by
  refine h.transfer fun before rest htext hne hreaches => ?_
  rcases List.append_eq_append_iff.1 htext with ⟨_ | ⟨c, more⟩, -, hmore⟩ | ⟨more, -, hrest⟩
  · rw [List.nil_append] at hmore
    subst hmore
    refine @Reaches.without_block _ _ _ _ [] _ _ hblock (fun hbehind => ?_) hreaches
    have hlast := hfeed hbehind
    rwa [List.getLast?_append_of_ne_nil _ (List.cons_ne_nil _ _)] at hlast
  · -- Behind the brace there are only blanks.
    obtain ⟨read, hread, -⟩ := hreaches
    obtain ⟨d, rest, rfl⟩ := List.exists_cons_of_ne_nil hne
    obtain rfl : d = 'e' := Option.some.inj (head?_of_readHead? hread)
    have hmem : 'e' ∈ gap := by
      rw [(List.cons.inj hmore).2]
      exact List.mem_append_right _ List.mem_cons_self
    exact absurd (hgap _ hmem) (by decide)
  · subst hrest
    refine hreaches.without_block hblock fun hbehind => ?_
    have hlast := hfeed hbehind
    rw [List.getLast?_append_of_ne_nil _ (List.cons_ne_nil _ _)] at hlast ⊢
    exact hlast

/-- With a block on a new line behind a declaration all declarations are read as
    before. -/
theorem readings_insert (hquiet : Quiet [Header.keyword] block)
    (hlast : behind ≠ [] → block.getLast?.any isWordChar = false) (hne : block ≠ [])
    (h : Splits allowRepeats 0 none 0 (front ++ '}' :: gap) behind) :
    readings allowRepeats (front ++ '}' :: gap ++ behind) =
        readings allowRepeats (front ++ '}' :: gap) ++
          (readings allowRepeats behind).map (Reading.moved (front ++ '}' :: gap).length) ∧
      readings allowRepeats (front ++ '}' :: gap ++ (block ++ behind)) =
        readings allowRepeats (front ++ '}' :: gap) ++ (readings allowRepeats behind).map
          (Reading.moved ((front ++ '}' :: gap).length + block.length)) := by
  have hempty : Undeclared (front ++ '}' :: gap).getLast? [] behind := by
    intro before rest htext hne
    exact absurd (List.append_eq_nil_iff.1 htext.symm).2 hne
  have hword : behind ≠ [] → (([] : Text).getLast?.or (front ++ '}' :: gap).getLast?).any
      isWordChar = false := fun hbehind => by
    rw [hfeed hbehind]
    decide
  refine ⟨readings_splice h hempty hword, readings_splice (h.insert hblock hgap hfeed)
    (hquiet.undeclared List.mem_cons_self _ _) fun hbehind => ?_⟩
  obtain ⟨c, hc⟩ := Option.isSome_iff_exists.1 (List.getLast?_isSome.2 hne)
  have hblocklast := hlast hbehind
  rw [hc] at hblocklast ⊢
  exact hblocklast

end

end EnumCompanion
