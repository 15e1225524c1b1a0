import EnumCompanion.Proofs.Declaration.Brackets
import EnumCompanion.Proofs.Document.Reach
import Mathlib.Order.Bounds.Defs

/-!
# Whole lines and whole groups

What is captured from a line on, wherever that line starts, are whole lines of the
text: from the start of the line up to the first line end at which a brace has
been opened and none is left open, or up to the end of the text. Braces count only
where they show in the mask of the whole text. A closing brace alone ends nothing,
so a group that is opened first is captured up to the brace that closes it.

* `braceBalance_of_braceDepth`, `not_isShut_of_prefix`: a group is not shut before
  its closing brace;
* `MayEnd`, `lt_of_mayEnd`: where what is captured may end;
* `ShutsFirst.isLeast`: where it may end first;
* `CapturesWhole`, `capturesWhole_of_capture?`: what is captured.
-/

namespace EnumCompanion

open Text Mask

/-! ### Groups -/

/-- The braces of a text account for the depths before it and behind it. -/
theorem braceBalance_of_braceDepth {depth depth' : Nat} {text : Text}
    (h : braceDepth depth text = some depth') : braceBalance text = depth' - depth := by
  induction text generalizing depth with
  | nil =>
    obtain rfl := Option.some.inj h
    exact (Int.sub_self _).symm
  | cons c text ih =>
    rw [← List.singleton_append, braceBalance_append]
    rw [braceDepth] at h
    split_ifs at h with hopen hclose hzero
    · have hone : braceBalance ['{'] = 1 := rfl
      rw [ih h, hopen, hone]
      omega
    · have hone : braceBalance ['}'] = -1 := rfl
      rw [ih h, hclose, hone]
      omega
    · have hnone : braceBalance [c] = 0 := by simp [braceBalance, hopen, hclose]
      rw [ih h, hnone]
      omega

/-- Up to its closing brace, a group that is opened first leaves a brace open. -/
theorem not_isShut_of_prefix {gap body part : Text} (hnone : '{' ∉ gap)
    (hnone' : '}' ∉ gap) (hbody : Balanced body) (hpart : part <+: gap ++ '{' :: body) :
    ¬IsShut part := by
  rintro ⟨hopened, hbalance⟩
  obtain ⟨rest, hrest⟩ := hpart
  rcases List.append_eq_append_iff.1 hrest with ⟨more, rfl, -⟩ | ⟨inner, rfl, hinner⟩
  · exact hnone (List.mem_append_left _ hopened)
  cases inner with
  | nil =>
    rw [List.append_nil] at hopened
    exact hnone hopened
  | cons c inner =>
    rw [List.cons_append, List.cons.injEq] at hinner
    obtain ⟨rfl, rfl⟩ := hinner
    rw [Balanced, braceDepth_append, Option.bind_eq_some_iff] at hbody
    obtain ⟨depth, hdepth, -⟩ := hbody
    have hfront : braceBalance gap = 0 := by
      rw [braceBalance, List.count_eq_zero.2 hnone, List.count_eq_zero.2 hnone']
      rfl
    have hone : braceBalance ['{'] = 1 := rfl
    rw [← List.singleton_append, braceBalance_append, braceBalance_append, hfront, hone,
      braceBalance_of_braceDepth hdepth] at hbalance
    omega

/-! ### Ends -/

variable {text : Text}

/-- Whether what is captured of a text from one place on may end at another: at a
    line end where it is shut, or with the text. -/
def MayEnd (text : Text) (start place : Nat) : Prop :=
  start ≤ place ∧ (place = text.length ∨
    text[place]? = some '\n' ∧ IsShut ((text.masked.take place).drop start))

/-- Whether the first brace of masked text from one place on is opened at another. -/
def OpensFirst (masked : Text) (start place : Nat) : Prop :=
  start ≤ place ∧ masked[place]? = some '{' ∧
    '{' ∉ (masked.take place).drop start ∧ '}' ∉ (masked.take place).drop start

instance (masked : Text) (start place : Nat) : Decidable (OpensFirst masked start place) :=
  inferInstanceAs (Decidable (_ ∧ _ ∧ _ ∧ _))

/-- Nothing ends before the group that is opened first is closed. -/
theorem lt_of_mayEnd {start stop opens close : Nat} (hstop : MayEnd text start stop)
    (hopens : OpensFirst text.masked start opens)
    (hclose : closingBrace? text.masked opens = some close) : close < stop := by
  obtain ⟨-, hstop⟩ := hstop
  obtain ⟨hstart, hopen, hnone, hnone'⟩ := hopens
  rw [← length_masked] at hstop
  generalize text.masked = masked at *
  -- The masked text around the group and before it.
  obtain ⟨hlt, hget⟩ := List.getElem?_eq_some_iff.1 hopen
  have hfront : (masked.take opens).length = opens := List.length_take_of_le (Nat.le_of_lt hlt)
  have hmasked : masked = masked.take opens ++ '{' :: masked.drop (opens + 1) := by
    rw [← hget, ← List.drop_eq_getElem_cons hlt, List.take_append_drop]
  generalize masked.take opens = front at hnone hnone' hfront hmasked
  generalize masked.drop (opens + 1) = behind at hmasked
  subst hmasked hfront
  obtain ⟨body, rest, rfl, hbody, rfl⟩ := closingBrace?_eq_some_iff.1 hclose
  by_contra hle
  rcases hstop with rfl | ⟨-, hshut⟩
  · simp at hle
  · refine not_isShut_of_prefix hnone hnone' hbody ?_ hshut
    have hgroup : (front ++ '{' :: (body ++ '}' :: rest)).take stop <+: front ++ '{' :: body := by
      rw [← List.cons_append, ← List.append_assoc, List.take_append_of_le_length]
      · exact List.take_prefix _ _
      · simp
        omega
    have := hgroup.drop start
    rwa [List.drop_append_of_le_length hstart] at this

/-- The line ends of a text are those of its mask. -/
theorem getElem?_masked_eq_feed_iff {place : Nat} :
    text.masked[place]? = some '\n' ↔ text[place]? = some '\n' := by
  rw [← map_blanked_eq_feed_iff, ← List.getElem?_map, Text.masked, map_blanked_maskFrom,
    List.getElem?_map, map_blanked_eq_feed_iff]

/-- Where its mask is shut first, what is captured of a text may end first. -/
theorem ShutsFirst.isLeast {front part behind : Text} (h : ShutsFirst [] part behind)
    (hmasked : text.masked = front ++ (part ++ behind)) :
    IsLeast {place | MayEnd text front.length place} (front.length + part.length) := by
  have hlength := congrArg List.length hmasked
  rw [length_masked, List.length_append, List.length_append] at hlength
  constructor
  · refine ⟨Nat.le_add_right _ _, ?_⟩
    rcases h.ends with rfl | ⟨hhead, hshut⟩
    · exact .inl hlength.symm
    · refine .inr ⟨getElem?_masked_eq_feed_iff.1 ?_, ?_⟩
      · rw [hmasked, List.getElem?_append_right (Nat.le_add_right _ _), Nat.add_sub_cancel_left,
          List.getElem?_append_right (Nat.le_refl _), Nat.sub_self, ← List.head?_eq_getElem?, hhead]
      · rwa [hmasked, List.take_length_add_append, List.drop_left, List.take_left]
  · rintro place ⟨hstart, hplace⟩
    by_contra hlt
    rcases hplace with rfl | ⟨hfeed, hshut⟩
    · omega
    · have hreaches := h.captureReaches front (Nat.le_refl _)
      rw [← hmasked] at hreaches
      exact hreaches place (Nat.not_le.1 hlt) hstart (getElem?_masked_eq_feed_iff.2 hfeed) hshut

/-! ### Captured lines -/

/-- What is captured from a line of a text on, if it starts at some place: the
    place is the start of the line, what is captured stands there, it ends at the
    first place where it may, and a group that is opened first is closed in it. -/
structure CapturesWhole (text : Text) (line : Int) (captured : Text) (start : Nat) : Prop where
  endsLine : EndsLine (text.take start)
  count_eq : ((text.take start).count '\n' : Int) = line
  slice_eq : text.slice start (start + captured.length : Nat) = captured
  isLeast : IsLeast {place | MayEnd text start place} (start + captured.length)
  closes : ∀ opens close : Nat, OpensFirst text.masked start opens →
    closingBrace? text.masked opens = some close →
      start ≤ close ∧ close < start + captured.length

/-- What is captured from a line on are whole lines with whole groups. -/
theorem capturesWhole_of_capture? {line : Int} {captured : Text} {start : Nat}
    (h : capture? text line = some (captured, start)) : CapturesWhole text line captured start := by
  obtain ⟨hline, before, rest, rfl, hends, hcount, hcapture⟩ := exists_endsLine_of_capture? h
  obtain ⟨captured, behind, part, maskedBehind, rfl, hmask, hpart, -, hfrom, hshuts⟩ :=
    exists_captureFrom_masked rest hends
  rw [← hcount, hfrom] at hcapture
  obtain ⟨rfl, rfl⟩ := Prod.mk.inj hcapture
  have hleast := hshuts.isLeast ((hends.masked_eq _).trans (congrArg (before.masked ++ ·) hmask))
  have hlength : part.length = captured.length := by
    simpa only [List.length_map] using congrArg List.length hpart
  rw [length_masked, hlength] at hleast
  refine ⟨?_, ?_, slice_append _ _ _, hleast, fun opens close hopens hclose => ?_⟩
  · rwa [List.take_left]
  · rw [List.take_left, hcount, Int.toNat_of_nonneg hline]
  · obtain ⟨distance, -, rfl⟩ := Option.map_eq_some_iff.1 hclose
    exact ⟨hopens.1.trans (Nat.le_add_right _ _), lt_of_mayEnd hleast.1 hopens hclose⟩

/-- A group that is opened on the second line of a declaration, with a brace in a
    comment, and a line behind it. -/
theorem capturesWhole_of_capture?_group :
    let text : Text := "class C \x7b\x7d\nenum A // \x7d\n\x7b a,\n b \x7d ;\nvoid\n".toList
    let captured : Text := "enum A // \x7d\n\x7b a,\n b \x7d ;".toList
    capture? text 1 = some (captured, 11) ∧ CapturesWhole text 1 captured 11 ∧
      OpensFirst text.masked 11 23 ∧ closingBrace? text.masked 23 = some 31 ∧
        11 ≤ 31 ∧ 31 < 11 + captured.length := by
  intro text captured
  have hcapture : capture? text 1 = some (captured, 11) := by decide +kernel
  have hopens : OpensFirst text.masked 11 23 := by decide +kernel
  have hclose : closingBrace? text.masked 23 = some 31 := by decide +kernel
  have hwhole := capturesWhole_of_capture? hcapture
  exact ⟨hcapture, hwhole, hopens, hclose, hwhole.closes 23 31 hopens hclose⟩

/-- A closing brace ends nothing: at the end of the first line one was seen and no
    brace is open, but more is captured. -/
theorem capture?_passes_closing_brace :
    let text : Text := "\x7d enum A\n\x7b a \x7d\n".toList
    ∃ captured, capture? text 0 = some (captured, 0) ∧
      ¬IsLeast {place | place = text.length ∨ text[place]? = some '\n' ∧
        ('{' ∈ text.masked.take place ∨ '}' ∈ text.masked.take place) ∧
          braceBalance (text.masked.take place) ≤ 0} captured.length := by
  intro text
  refine ⟨text.take 14, by decide +kernel, fun hleast => ?_⟩
  have hfirst : text[8]? = some '\n' ∧
      ('{' ∈ text.masked.take 8 ∨ '}' ∈ text.masked.take 8) ∧
        braceBalance (text.masked.take 8) ≤ 0 := by
    decide +kernel
  have hle : (text.take 14).length ≤ 8 := hleast.2 (.inr hfirst)
  exact absurd hle (by decide)

end EnumCompanion
