import EnumCompanion.Proofs.Declaration.Brackets
import EnumCompanion.Proofs.Document.Mention
import EnumCompanion.Proofs.Text.Lines

/-!
# Blocks in documents

A block that is found reaches from the first mention of its name to the brace
that closes the first one behind it, and takes in the *margins* beside it:
blanks that fill the rest of their line. Code stands as a block in a document
when it is exactly what is found, so that there are no margins beside it.

* `Block.margin`, `Block.Margins`, `Block.exists_margins`: the blanks that a block
  takes in;
* `Block.Cut`, `findBlock?_eq_some_iff_cut`: what is found for any name;
* `IsBlock`, `findBlock?_eq_some_iff`: what is found for the name of a type;
* `HasBlock`, `hasBlock_iff`: code that stands as a block in a document.
-/

namespace EnumCompanion

open Text

namespace Block

/-! ### Margins -/

/-- The blanks at the head of a text, if they fill its first line. -/
def margin (text : Text) : Text := if isBlankText (firstLine text) then firstLine text else []

/-- A text that does not start with such blanks. -/
def IsFlush (text : Text) : Prop := margin text = []

theorem isFlush_iff {text : Text} :
    IsFlush text ↔ (isBlankText (firstLine text) = true → firstLine text = []) := by
  rw [IsFlush, margin]
  split <;> simp_all

theorem isFlush_nil : IsFlush [] := rfl

theorem isFlush_cons_lineFeed (text : Text) : IsFlush ('\n' :: text) := rfl

theorem isFlush_append_of_mem {run : Text} (h : '\n' ∈ run) (rest : Text) :
    IsFlush (run ++ rest) ↔ IsFlush run := by
  rw [isFlush_iff, isFlush_iff, firstLine_append_of_mem h]

/-- What follows a flush text may be exchanged for what starts with the same line
    or with a line that is not blank. -/
theorem IsFlush.exchange {run rest rest' : Text} (h : IsFlush (run ++ rest))
    (hrest : firstLine rest' = firstLine rest ∨ isBlankText (firstLine rest') = false) :
    IsFlush (run ++ rest') := by
  by_cases hmem : '\n' ∈ run
  · rw [isFlush_append_of_mem hmem] at h ⊢
    exact h
  · rw [isFlush_iff, firstLine_append hmem] at h ⊢
    rcases hrest with hline | hline
    · rwa [hline]
    · intro hblank
      rw [isBlankText, List.all_append, Bool.and_eq_true] at hblank
      exact Bool.noConfusion (hblank.2.symm.trans hline)

theorem isBlankText_firstLine_cons {c : Char} (hc : isBlank c = false) (text : Text) :
    isBlankText (firstLine (c :: text)) = false := by
  have hfeed : c ≠ '\n' := by
    rintro rfl
    exact absurd hc (by decide)
  rw [firstLine, List.takeWhile_cons_of_pos (by simpa using hfeed)]
  simp [isBlankText, hc]

theorem mem_margin {text : Text} {c : Char} (h : c ∈ margin text) : isBlank c = true ∧ c ≠ '\n' := by
  rw [margin] at h
  split_ifs at h with hblank
  · exact ⟨List.all_eq_true.1 hblank c h, fun hc => not_mem_firstLine text (hc ▸ h)⟩
  · exact absurd h List.not_mem_nil

/-- Behind its margin a text is flush, and on a new line unless it has none. -/
theorem exists_margin (text : Text) : ∃ rest, text = margin text ++ rest ∧ IsFlush rest ∧
    (margin text = [] ∨ FollowsLine rest) := by
  rw [margin]
  split_ifs with hblank
  · refine ⟨text.dropWhile (· != '\n'), List.takeWhile_append_dropWhile.symm, ?_⟩
    cases hdrop : text.dropWhile (· != '\n') with
    | nil => exact ⟨isFlush_nil, .inr (.inl rfl)⟩
    | cons c rest =>
      obtain rfl : c = '\n' := by
        have hhead := head?_dropWhile_any (p := (· != '\n')) text
        simpa [hdrop] using hhead
      exact ⟨isFlush_cons_lineFeed rest, .inr (.inr rfl)⟩
  · exact ⟨text, rfl, by rw [IsFlush, margin, if_neg hblank], .inl rfl⟩

/-- The end of a block is moved to the end of the margin behind it. -/
theorem widenedStop_append (before behind : Text) :
    widenedStop (before ++ behind) before.length = before.length + (margin behind).length := by
  have hline : ((before ++ behind).take (before.length + (firstLine behind).length)).drop
      before.length = firstLine behind := by
    rw [List.take_length_add_append, List.drop_left]
    exact List.prefix_iff_eq_take.1 (List.takeWhile_prefix _) |>.symm
  rw [widenedStop, lineEnd_append, hline, margin]
  split_ifs <;> rfl

/-- The start of a block is moved to the start of the margin before it. -/
theorem widenedStart_append (before behind : Text) :
    widenedStart (before ++ behind) before.length =
      before.length - (margin before.reverse).length := by
  have hline : before.drop (before.length - (firstLine before.reverse).length) =
      (firstLine before.reverse).reverse := by
    have hsplit : before = (before.reverse.dropWhile (· != '\n')).reverse ++
        (firstLine before.reverse).reverse := by
      rw [← List.reverse_append, firstLine, List.takeWhile_append_dropWhile, List.reverse_reverse]
    have hlength := congrArg List.length hsplit
    simp only [List.length_append, List.length_reverse] at hlength
    have hplace : before.length - (firstLine before.reverse).length =
        (before.reverse.dropWhile (· != '\n')).reverse.length := by
      rw [List.length_reverse]
      omega
    rw [hplace]
    exact (congrArg (List.drop _) hsplit).trans List.drop_left
  rw [widenedStart, List.take_left, lastLineStart_eq, hline, isBlankText, List.all_reverse, margin,
    isBlankText]
  split_ifs <;> rfl

/-- The margins `left` and `right` beside a block, and the text `wide` and
    `narrow` around it with them, where `before` and `behind` are around the block
    alone. -/
structure Margins (before behind wide left right narrow : Text) : Prop where
  before_eq : before = wide ++ left
  behind_eq : behind = right ++ narrow
  left_eq : left.reverse = margin before.reverse
  right_eq : right = margin behind
  flush_wide : IsFlush wide.reverse
  flush_narrow : IsFlush narrow
  endsLine : left = [] ∨ EndsLine wide
  followsLine : right = [] ∨ FollowsLine narrow

variable {before behind wide left right narrow : Text}

theorem exists_margins (before behind : Text) :
    ∃ wide left right narrow, Margins before behind wide left right narrow := by
  obtain ⟨front, hfront, hflush, hline⟩ := exists_margin before.reverse
  obtain ⟨narrow, hnarrow, hflush', hline'⟩ := exists_margin behind
  refine ⟨front.reverse, (margin before.reverse).reverse, margin behind, narrow, ?_, hnarrow,
    List.reverse_reverse _, rfl, by rwa [List.reverse_reverse], hflush', ?_, hline'⟩
  · rw [← List.reverse_append, ← hfront, List.reverse_reverse]
  · exact hline.imp List.reverse_eq_nil_iff.2 endsLine_reverse.2

namespace Margins

variable (h : Margins before behind wide left right narrow)

include h

theorem left_blank : ∀ c ∈ left, isBlank c = true ∧ c ≠ '\n' := fun _ hc =>
  mem_margin (h.left_eq ▸ List.mem_reverse.2 hc)

theorem right_blank : ∀ c ∈ right, isBlank c = true ∧ c ≠ '\n' := fun _ hc =>
  mem_margin (h.right_eq ▸ hc)

/-- A block takes in the margins beside it. -/
theorem ofOffsets_eq (middle : Text) : Span.ofOffsets (before ++ (middle ++ behind))
      (widenedStart (before ++ (middle ++ behind)) before.length)
      (widenedStop (before ++ (middle ++ behind)) (before.length + middle.length)) =
    .ofOffsets (before ++ (middle ++ behind)) wide.length
      (wide.length + (left ++ (middle ++ right)).length : Nat) := by
  have hstop := widenedStop_append (before ++ middle) behind
  rw [List.append_assoc, List.length_append, ← h.right_eq] at hstop
  have hleft := congrArg List.length h.left_eq
  have hbefore := congrArg List.length h.before_eq
  rw [List.length_reverse] at hleft
  rw [List.length_append] at hbefore
  rw [widenedStart_append, hstop, ← hleft]
  congr 2
  · omega
  · simp only [List.length_append]
    omega

/-- The text that a block takes in. -/
theorem text_eq (middle : Text) :
    before ++ (middle ++ behind) = wide ++ ((left ++ (middle ++ right)) ++ narrow) := by
  rw [h.before_eq, h.behind_eq]
  simp only [List.append_assoc]

end Margins

end Block

/-! ### What is found -/

/-- The mask of a block, from its keyword to its closing brace: a mention of its
    name, and the first brace behind it with a balanced body. -/
def IsBlock (name block : Text) : Prop :=
  ∃ keyword ∈ Block.keywords, ∃ gap head body, gap ≠ [] ∧ (∀ c ∈ gap, isBlank c = true) ∧
    head.head?.any isWordChar = false ∧ '{' ∉ head ∧ Balanced body ∧
      block = keyword ++ (gap ++ (name ++ (head ++ '{' :: (body ++ ['}']))))

theorem IsBlock.ne_nil {name block : Text} (h : IsBlock name block) : block ≠ [] := by
  obtain ⟨keyword, -, gap, head, body, -, -, -, -, -, rfl⟩ := h
  simp

/-- A block starts with a keyword, and so goes on with no word and no name. -/
theorem IsBlock.blunt {name block : Text} (h : IsBlock name block) {previous : Option Char}
    (hprevious : previous.any isWordChar = false) (rest : Text) : Blunt previous (block ++ rest) where
  seam := .inl hprevious
  strays := by
    obtain ⟨keyword, hmem, gap, head, body, -, -, -, -, -, rfl⟩ := h
    have hletters : ∀ c, c = 'e' ∨ c = 'c' → isBlank c = false ∧ c.isUpper = false := by
      rintro c (rfl | rfl) <;> decide
    cases keyword with
    | nil => exact absurd hmem (by decide)
    | cons c keyword =>
      have hc : c = 'e' ∨ c = 'c' := by
        simpa using Block.head?_of_mem_keywords _ hmem
      obtain ⟨hblank, hupper⟩ := hletters c hc
      rw [List.append_assoc, List.cons_append, List.dropWhile_cons_of_neg (by simp [hblank])]
      exact hupper

/-- A mask in which a block of a name stands where it is found from a place
    on. -/
structure Block.Found (masked name : Text) (start : Nat) (before block behind : Text) : Prop where
  masked_eq : masked = before ++ (block ++ behind)
  isBlock : IsBlock name block
  start_le : start ≤ before.length
  previous : before.getLast?.any isWordChar = false
  unmentioned : Unmentioned name start none before (block ++ behind)

/-- A mention of a name that is the first in a mask from a place on, and what
    follows it up to the closing brace of the first one behind it. -/
structure Block.Cut (masked name : Text) (start : Nat) (before mention header body behind : Text) :
    Prop where
  masked_eq : masked = before ++ (mention ++ (header ++ '{' :: (body ++ '}' :: behind)))
  start_le : start ≤ before.length
  mention?_eq : mention? name before.getLast? (mention ++ (header ++ '{' :: (body ++ '}' :: behind))) =
    some (header ++ '{' :: (body ++ '}' :: behind))
  unmentioned : Unmentioned name start none before
    (mention ++ (header ++ '{' :: (body ++ '}' :: behind)))
  notMem_header : '{' ∉ header
  balanced : Balanced body

/-- The place of the first mention and the place behind it. -/
theorem Block.Cut.first?_eq {masked name : Text} {start : Nat}
    {before mention header body behind : Text}
    (h : Cut masked name start before mention header body behind) :
    first? masked name start = some (before.length, (before ++ mention).length) := by
  refine first?_eq_some_iff.2 ⟨before, _, _, h.masked_eq, rfl, h.start_le, h.mention?_eq, ?_,
    h.unmentioned⟩
  simp only [List.length_append]
  omega

/-- The place of the first brace behind it. -/
theorem Block.Cut.seek?_eq {masked name : Text} {start : Nat}
    {before mention header body behind : Text}
    (h : Cut masked name start before mention header body behind) :
    masked.seek? '{' (before ++ mention).length = some (before ++ mention ++ header).length := by
  rw [h.masked_eq, ← List.append_assoc]
  exact seek?_eq_some_iff.2 ⟨header, _, rfl, h.notMem_header, List.length_append⟩

/-- The text between the two. -/
theorem Block.Cut.drop_take {masked name : Text} {start : Nat}
    {before mention header body behind : Text}
    (h : Cut masked name start before mention header body behind) :
    (masked.take (before ++ mention ++ header).length).drop (before ++ mention).length = header := by
  rw [h.masked_eq, ← List.append_assoc, ← List.append_assoc, List.take_left, List.drop_left]

/-- What is found for a name of any kind. -/
theorem findBlock?_eq_some_iff_cut {text name : Text} {start : Nat} {span : Span} :
    findBlock? text name start = some span ↔ ∃ before mention header body behind,
      Block.Cut text.masked name start before mention header body behind ∧
        span = .ofOffsets text (Block.widenedStart text before.length)
          (Block.widenedStop text
            (before.length + (mention ++ (header ++ '{' :: (body ++ ['}']))).length)) := by
  simp only [findBlock?, Option.bind_eq_bind, Option.bind_eq_some_iff, Option.pure_def,
    Option.some.injEq]
  have hlength : ∀ before mention header body : Text,
      (before ++ mention ++ header).length + (body.length + 1) + 1 =
        before.length + (mention ++ (header ++ '{' :: (body ++ ['}']))).length := by
    intro before mention header body
    simp only [List.length_append, List.length_cons, List.length_nil]
    omega
  constructor
  · rintro ⟨⟨first, after⟩, hfirst, brace, hbrace, close, hclose, rfl⟩
    obtain ⟨before, rest, behind, hmasked, rfl, hstart, hmention, rfl, hnone⟩ :=
      Block.first?_eq_some_iff.1 hfirst
    obtain ⟨mention, rfl⟩ : ∃ mention, rest = mention ++ behind := by
      obtain ⟨keyword, -, gap, -, -, rfl⟩ := Block.exists_of_mention? hmention
      exact ⟨keyword ++ (gap ++ name), by simp only [List.append_assoc]⟩
    have hafter : before.length + ((mention ++ behind).length - behind.length) =
        (before ++ mention).length := by
      simp only [List.length_append]
      omega
    rw [hafter, hmasked, ← List.append_assoc] at hbrace
    obtain ⟨header, tail, rfl, hheader, rfl⟩ := seek?_eq_some_iff.1 hbrace
    rw [hmasked, ← List.length_append, ← List.append_assoc, ← List.append_assoc] at hclose
    obtain ⟨body, behind, rfl, hbody, rfl⟩ := closingBrace?_eq_some_iff.1 hclose
    refine ⟨before, mention, header, body, behind,
      ⟨hmasked, hstart, hmention, hnone, hheader, hbody⟩, ?_⟩
    rw [hlength]
  · rintro ⟨before, mention, header, body, behind, h, rfl⟩
    refine ⟨_, h.first?_eq, _, h.seek?_eq, (before ++ mention ++ header).length + (body.length + 1),
      ?_, by rw [hlength]⟩
    rw [h.masked_eq, ← List.append_assoc, ← List.append_assoc]
    exact closingBrace?_eq_some_iff.2 ⟨body, behind, rfl, h.balanced, rfl⟩

/-- What is found for the name of a type. -/
theorem findBlock?_eq_some_iff {text name : Text} (hname : isTypeName name = true) {start : Nat}
    {span : Span} : findBlock? text name start = some span ↔
      ∃ before block behind, Block.Found text.masked name start before block behind ∧
        span = .ofOffsets text (Block.widenedStart text before.length)
          (Block.widenedStop text (before.length + block.length)) := by
  rw [findBlock?_eq_some_iff_cut]
  constructor
  · rintro ⟨before, mention, header, body, behind, h, rfl⟩
    obtain ⟨keyword, gap, hmention⟩ := (Block.mention?_eq_some_iff hname).1 h.mention?_eq
    obtain rfl : mention = keyword ++ (gap ++ name) := by
      refine List.append_cancel_right (hmention.text_eq.trans ?_)
      simp only [List.append_assoc]
    have hword : header.head?.any isWordChar = false := by
      have hbehind := hmention.behind
      cases header with
      | nil => rfl
      | cons c header => exact hbehind
    have hsplit : keyword ++ (gap ++ name) ++ (header ++ '{' :: (body ++ '}' :: behind)) =
        keyword ++ (gap ++ name) ++ (header ++ '{' :: (body ++ ['}'])) ++ behind := by
      simp
    refine ⟨before, _, behind, ⟨hsplit ▸ h.masked_eq, ⟨keyword, hmention.keyword_mem, gap, header,
      body, hmention.gap_ne_nil, hmention.gap_blank, hword, h.notMem_header, h.balanced, ?_⟩,
      h.start_le, hmention.previous, hsplit ▸ h.unmentioned⟩, rfl⟩
    simp only [List.append_assoc]
  · rintro ⟨before, block, behind, h, rfl⟩
    obtain ⟨keyword, hmem, gap, header, body, hne, hgap, hword, hheader, hbody, rfl⟩ := h.isBlock
    have hsplit : keyword ++ (gap ++ (name ++ (header ++ '{' :: (body ++ ['}'])))) ++ behind =
        keyword ++ (gap ++ name) ++ (header ++ '{' :: (body ++ '}' :: behind)) := by
      simp
    refine ⟨before, keyword ++ (gap ++ name), header, body, behind, ⟨hsplit ▸ h.masked_eq, h.start_le,
      (Block.mention?_eq_some_iff hname).2 ⟨keyword, gap, by simp only [List.append_assoc],
        h.previous, hmem, hne, hgap, ?_⟩, hsplit ▸ h.unmentioned, hheader, hbody⟩, ?_⟩
    · cases header with
      | nil => exact (by decide : isWordChar '{' = false)
      | cons c header => exact hword
    · simp only [List.append_assoc]

/-! ### Code as a block -/

/-- Whether code is exactly the block of a name that is found behind a place. -/
def HasBlock (text name code : Text) (start : Nat) : Prop :=
  (findBlock? text name start).map (fun span => span.cover text) = some code

instance (text name code : Text) (start : Nat) : Decidable (HasBlock text name code start) :=
  inferInstanceAs (Decidable (_ = _))

/-- A text in which code stands as the block of a name that is found behind a
    place, with no margins beside it. -/
structure Block.Stands (text name code : Text) (start : Nat) (before behind : Text) : Prop where
  text_eq : text = before ++ (code ++ behind)
  found : ∃ before' block behind', Found text.masked name start before' block behind' ∧
    before'.length = before.length ∧ block.length = code.length
  flush_before : IsFlush before.reverse
  flush_behind : IsFlush behind

/-- Code without blanks at its ends. -/
structure IsTrimmed (code : Text) : Prop where
  head : code.head?.any isBlank = false
  last : code.getLast?.any isBlank = false
  ne_nil : code ≠ []

/-- What is found is the text of the block with the margins beside it. -/
theorem Block.Found.exists_margins {text name : Text} {start : Nat} {masked block maskedBehind : Text}
    (h : Found text.masked name start masked block maskedBehind) :
    ∃ before middle behind wide left right narrow, text = before ++ (middle ++ behind) ∧
      before.length = masked.length ∧ middle.length = block.length ∧
        Margins before behind wide left right narrow := by
  have hlength := congrArg List.length h.masked_eq
  rw [length_masked, List.length_append, List.length_append] at hlength
  obtain ⟨before, middle, behind, htext, hbefore, hmiddle⟩ :=
    exists_parts (show masked.length + block.length ≤ text.length by omega)
  obtain ⟨wide, left, right, narrow, hmargins⟩ := Block.exists_margins before behind
  exact ⟨before, middle, behind, wide, left, right, narrow, htext, hbefore, hmiddle, hmargins⟩

theorem Block.Margins.cover_eq {before behind wide left right narrow : Text}
    (h : Margins before behind wide left right narrow) (middle : Text) :
    (Span.ofOffsets (before ++ (middle ++ behind))
      (widenedStart (before ++ (middle ++ behind)) before.length)
      (widenedStop (before ++ (middle ++ behind)) (before.length + middle.length))).cover
        (before ++ (middle ++ behind)) = left ++ (middle ++ right) := by
  rw [h.ofOffsets_eq, h.text_eq, Span.cover, Span.ofOffsets]
  exact slice_append _ _ _

theorem hasBlock_iff {text name code : Text} (hname : isTypeName name = true)
    (hcode : IsTrimmed code) {start : Nat} :
    HasBlock text name code start ↔ ∃ before behind, Block.Stands text name code start before behind := by
  rw [HasBlock, Option.map_eq_some_iff]
  constructor
  · rintro ⟨span, hspan, hcover⟩
    obtain ⟨masked, block, maskedBehind, hfound, rfl⟩ := (findBlock?_eq_some_iff hname).1 hspan
    obtain ⟨before, middle, behind, wide, left, right, narrow, rfl, hbefore, hmiddle, hmargins⟩ :=
      hfound.exists_margins
    rw [← hbefore, ← hmiddle, hmargins.cover_eq] at hcover
    -- The code has no blanks at its ends, so that there are no margins.
    have hleft : left = [] := by
      cases hleft : left with
      | nil => rfl
      | cons c rest =>
        have hblank := (hmargins.left_blank c (by rw [hleft]; exact List.mem_cons_self)).1
        have hhead := hcode.head
        rw [← hcover, hleft, List.cons_append, List.head?_cons, Option.any_some, hblank] at hhead
        exact Bool.noConfusion hhead
    have hright : right = [] := by
      rcases List.eq_nil_or_concat right with hnil | ⟨rest, c, hright⟩
      · exact hnil
      · have hblank := (hmargins.right_blank c (by rw [hright]; simp)).1
        have hlast := hcode.last
        rw [← hcover, hright, List.concat_eq_append, ← List.append_assoc, ← List.append_assoc,
          List.getLast?_concat, Option.any_some, hblank] at hlast
        exact Bool.noConfusion hlast
    obtain rfl : middle = code := by rw [← hcover, hleft, hright, List.append_nil, List.nil_append]
    exact ⟨before, behind, rfl, ⟨masked, block, maskedBehind, hfound, hbefore.symm, hmiddle.symm⟩,
      hmargins.left_eq.symm.trans (by rw [hleft]; rfl), hmargins.right_eq.symm.trans hright⟩
  · rintro ⟨before, behind, h⟩
    obtain ⟨masked, block, maskedBehind, hfound, hmasked, hblock⟩ := h.found
    obtain ⟨wide, left, right, narrow, hmargins⟩ := Block.exists_margins before behind
    refine ⟨_, (findBlock?_eq_some_iff hname).2 ⟨masked, block, maskedBehind, hfound, rfl⟩, ?_⟩
    have hleft : left = [] := List.reverse_eq_nil_iff.1 (hmargins.left_eq.trans h.flush_before)
    rw [hmasked, hblock, h.text_eq, hmargins.cover_eq, hleft, hmargins.right_eq, h.flush_behind,
      List.append_nil, List.nil_append]

end EnumCompanion
