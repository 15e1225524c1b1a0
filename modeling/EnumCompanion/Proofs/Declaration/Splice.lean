import EnumCompanion.Proofs.Declaration.Reading
import EnumCompanion.Proofs.Text.Quiet

/-!
# Edits apart from declarations

An edit is *apart* from the declarations of a text when it meets none of them
and no header is open where it starts: a pair of braces put there would not be
the body of an enum. Such an edit may exchange what it meets for any block
without enums, and the declarations stay as they are.

* `declarations`: the places of the closed declarations of a text;
* `Apart`: the runs of a text that an edit may exchange;
* `Parted.exchange`: no declaration reaches into the block that is put there;
* `readings_exchange`: what is read before and behind stays.
-/

namespace EnumCompanion

open Text

/-- The places of the closed declarations of a masked text: where their keyword
    stands, and behind their closing brace. -/
def declarations (masked : Text) : List (Nat × Nat) :=
  (headers masked).filterMap fun header =>
    (closingBrace? masked header.brace).map fun close => (header.start, close + 1)

/-- A run of a masked text that no declaration meets and at whose start no
    header is open. -/
structure Apart (masked : Text) (start stop : Nat) : Prop where
  /-- Declarations end before the run or start behind it. -/
  outside : ∀ place ∈ declarations masked, place.2 ≤ start ∨ stop ≤ place.1
  /-- Braces put in its place are the body of none. -/
  shut : ∀ place ∈ declarations (masked.take start ++ ['{', '}']), place.2 ≤ start

instance (masked : Text) (start stop : Nat) : Decidable (Apart masked start stop) :=
  decidable_of_iff ((∀ place ∈ declarations masked, place.2 ≤ start ∨ stop ≤ place.1) ∧
      ∀ place ∈ declarations (masked.take start ++ ['{', '}']), place.2 ≤ start)
    ⟨fun h => ⟨h.1, h.2⟩, fun h => ⟨h.outside, h.shut⟩⟩

/-- The place of a declaration is one of those listed. -/
theorem Declares.mem_declarations {before behind gap name clause body rest : Text}
    (h : Declares before.getLast? behind gap name clause body rest) :
    (before.length, before.length + (behind.length - rest.length)) ∈
      declarations (before ++ behind) := by
  obtain ⟨header, close, hheader, -, hclose, -, hlength⟩ := h.exists_headerAt?
  refine List.mem_filterMap.2
    ⟨{ header with start := before.length, brace := before.length + header.brace }, ?_, ?_⟩
  · refine Header.mem_headersFrom.2 ⟨before, behind, rfl, ?_⟩
    rw [Option.or_none, Header.headerAt?_offset, hheader, Nat.zero_add]
    rfl
  · rw [closingBrace?, List.drop_length_add_append]
    rw [closingBrace?, Option.map_eq_some_iff] at hclose
    obtain ⟨n, hn, rfl⟩ := hclose
    simp only [hn, Option.map_some, Option.some.injEq, Prod.mk.injEq, true_and]
    omega

/-- A text is parted where no declaration that starts before reaches further. -/
theorem parted_of_declarations {before behind : Text}
    (h : ∀ place ∈ declarations (before ++ behind),
      place.2 ≤ before.length ∨ before.length ≤ place.1) : Parted none before behind := by
  rintro before' rest rfl hne gap name clause body after hdeclares
  rw [Option.or_none] at hdeclares
  have hmem := hdeclares.mem_declarations
  rw [← List.append_assoc] at hmem
  have hlt := hdeclares.length_rest_lt
  have hpos := List.length_pos_of_ne_nil hne
  have := h _ hmem
  simp only [List.length_append] at this hlt
  omega

namespace Apart

variable {before part behind : Text}

theorem parted (h : Apart (before ++ (part ++ behind)) before.length (before.length + part.length)) :
    Parted none before (part ++ behind) :=
  parted_of_declarations fun place hplace =>
    (h.outside place hplace).imp_right (Nat.le_of_add_right_le ·)

theorem undeclared
    (h : Apart (before ++ (part ++ behind)) before.length (before.length + part.length)) :
    Undeclared before.getLast? part behind := by
  rintro before' rest rfl hne gap name clause body after hdeclares
  rw [← List.getLast?_append] at hdeclares
  have hmem := hdeclares.mem_declarations
  rw [List.append_assoc, ← List.append_assoc before' rest] at hmem
  have hlt := hdeclares.length_rest_lt
  have hpos := List.length_pos_of_ne_nil hne
  have := h.outside _ hmem
  simp only [List.length_append] at this hlt
  omega

theorem parted_braces
    (h : Apart (before ++ (part ++ behind)) before.length (before.length + part.length)) :
    Parted none before ['{', '}'] := by
  have hshut := h.shut
  rw [List.take_left] at hshut
  exact parted_of_declarations fun place hplace => .inl (hshut place hplace)

end Apart

/-! ### Exchange -/

/-- A text behind which braces are closed that were closed without it. -/
def Closing (text : Text) : Prop :=
  ∀ depth : Nat, ∀ rest, (closingBraceFrom (depth + 1 : Nat) rest).isSome = true →
    (closingBraceFrom (depth + 1 : Nat) (text ++ rest)).isSome = true

theorem closing_of_balanced {text : Text} (h : Balanced text) : Closing text := fun depth rest hrest => by
  rw [closingBraceFrom_append (h.braceDepth depth), Option.isSome_map]
  exact hrest

theorem Closing.append {text rest : Text} (h : Closing text) (hrest : Closing rest) :
    Closing (text ++ rest) := fun depth behind hbehind => by
  rw [List.append_assoc]
  exact h depth _ (hrest depth behind hbehind)

/-- Where several braces are closed, fewer are. -/
theorem isSome_closingBraceFrom_of_succ {depth : Nat} {text : Text}
    (h : (closingBraceFrom (depth + 1 + 1 : Nat) text).isSome = true) :
    (closingBraceFrom (depth + 1 : Nat) text).isSome = true := by
  induction text generalizing depth with
  | nil => exact h
  | cons c text ih =>
    rw [closingBraceFrom] at h ⊢
    by_cases hopen : c = '{'
    · rw [if_pos hopen, Option.isSome_map] at h ⊢
      have hdeeper : (closingBraceFrom (depth + 1 + 1 + 1 : Nat) text).isSome = true := by
        exact_mod_cast h
      exact_mod_cast ih hdeeper
    rw [if_neg hopen] at h ⊢
    by_cases hclose : c = '}'
    · rw [if_pos hclose, if_neg (by omega), Option.isSome_map] at h
      rw [if_pos hclose]
      cases depth with
      | zero => rfl
      | succ depth =>
        have hcast : ((depth + 1 + 1 + 1 : Nat) : Int) - 1 = (depth + 1 + 1 : Nat) := by omega
        have hcast' : ((depth + 1 + 1 : Nat) : Int) - 1 = (depth + 1 : Nat) := by omega
        rw [hcast] at h
        rw [if_neg (by omega), Option.isSome_map, hcast']
        exact ih h
    · rw [if_neg hclose, Option.isSome_map] at h ⊢
      exact ih h

/-- Braces stay closed behind a text that opens none. -/
theorem closing_of_notMem {text : Text} (h : '{' ∉ text) : Closing text := by
  induction text with
  | nil => exact fun depth rest hrest => hrest
  | cons c text ih =>
    intro depth rest hrest
    have htext := ih (List.not_mem_of_not_mem_cons h)
    have hopen : c ≠ '{' := fun hc => h (hc ▸ List.mem_cons_self)
    rw [List.cons_append, closingBraceFrom, if_neg hopen]
    by_cases hclose : c = '}'
    · rw [if_pos hclose]
      -- One brace is closed here, and the others as before.
      cases depth with
      | zero => rfl
      | succ depth =>
        have hcast : ((depth + 1 + 1 : Nat) : Int) - 1 = (depth + 1 : Nat) := by omega
        rw [if_neg (by omega), Option.isSome_map, hcast]
        exact htext depth rest (isSome_closingBraceFrom_of_succ hrest)
    · rw [if_neg hclose, Option.isSome_map]
      exact htext depth rest hrest

/-- What a block starts with: blanks and a word in small letters. Behind a word
    it starts with a line feed. -/
structure Fits (before block : Text) : Prop where
  word : ∃ gap c rest, (∀ c ∈ gap, isBlank c = true) ∧ (c = 'e' ∨ c = 'c') ∧
    block = gap ++ c :: rest
  seam : before.getLast?.any isWordChar = false ∨ block.head? = some '\n'

/-- A block starts with a blank or a small letter. -/
theorem Fits.head? {before block : Text} (h : Fits before block) {c : Char}
    (hc : block.head? = some c) : isBlank c = true ∨ c = 'e' ∨ c = 'c' := by
  obtain ⟨gap, d, rest, hgap, hd, rfl⟩ := h.word
  cases gap with
  | nil => exact .inr ((Option.some.inj hc) ▸ hd)
  | cons b gap =>
    obtain rfl : b = c := Option.some.inj hc
    exact .inl (hgap b List.mem_cons_self)

/-- A beginning of a clause is one if no word is cut in two. -/
theorem Header.IsClause.of_append {clause rest : Text} (h : Header.IsClause (clause ++ rest))
    (hcut : clause.getLast?.any isWordChar = false ∨ rest.head?.any isWordChar = false) :
    Header.IsClause clause where
  head := by
    have := h.head
    cases clause with
    | nil => rfl
    | cons c clause => exact this
  plain := fun c hc => h.plain c (List.mem_append_left _ hc)
  lacksKeyword := by
    intro before behind hclause
    rcases h.lacksKeyword before (behind ++ rest) (by rw [hclause, List.append_assoc]) with hb | hb
    · exact .inl hb
    · cases behind with
      | cons c behind => exact .inr hb
      | nil =>
        -- The keyword ends the clause, so that its last letter is that of a word.
        rcases hcut with hcut | hcut
        · rw [hclause, List.append_nil, List.getLast?_append] at hcut
          exact absurd (show isWordChar 'm' = false from hcut) (by decide)
        · exact Bool.noConfusion (hcut.symm.trans hb)

theorem Fits.append {before block : Text} (h : Fits before block) (behind : Text) :
    Fits before (block ++ behind) where
  word := by
    obtain ⟨gap, c, rest, hgap, hc, rfl⟩ := h.word
    exact ⟨gap, c, rest ++ behind, hgap, hc, by rw [List.append_assoc, List.cons_append]⟩
  seam := h.seam.imp_right fun hfeed => by
    rw [List.head?_append, hfeed]
    rfl

/-- A block goes on with no word and no name. -/
theorem Fits.blunt {before block : Text} (h : Fits before block) : Blunt before.getLast? block where
  seam := h.seam.imp_right fun hfeed => by
    rw [hfeed]
    exact (by decide : isWordChar '\n' = false)
  strays := by
    obtain ⟨gap, c, rest, hgap, hc, rfl⟩ := h.word
    have hletter : isBlank c = false ∧ c.isUpper = false := by
      rcases hc with rfl | rfl <;> decide
    have hdrop : (gap ++ c :: rest).dropWhile isBlank = c :: rest :=
      dropWhile_append_exact hgap hletter.1
    rw [hdrop]
    exact hletter.2

/-- A header in a text that a block follows ends before the block, or else it is
    still open there. -/
theorem Header.Heads.cases_append {previous : Option Char} {text block gap name clause rest : Text}
    (h : Header.Heads previous (text ++ block) gap name clause rest) (hne : text ≠ [])
    (hfits : Fits text block) :
    (∃ before, text = Header.keyword ++ (gap ++ (name ++ (clause ++ '{' :: before))) ∧
      rest = before ++ block) ∨
    ∃ clause', text = Header.keyword ++ (gap ++ (name ++ clause')) ∧ Header.IsClause clause' := by
  obtain ⟨text', rfl, htext'⟩ := eq_append_of_introduction
    Header.isWordChar_of_mem_keyword h.gap_blank h.gap_ne_nil h.name
    h.text_eq.symm hne hfits.blunt
  rcases List.append_eq_append_iff.1 htext' with ⟨_ | ⟨d, before⟩, hc', hmore⟩ | ⟨more, hc', hmore⟩
  · exact absurd (hfits.head? (c := '{') (by rw [← List.nil_append block, ← hmore]; rfl)) (by decide)
  · obtain ⟨rfl, rfl⟩ := List.cons.inj hmore
    exact .inl ⟨before, by rw [hc'], rfl⟩
  · refine .inr ⟨text', rfl, (hc' ▸ h.clause).of_append ?_⟩
    rcases List.eq_nil_or_concat text' with rfl | ⟨text', b, rfl⟩
    · exact .inl rfl
    have hseam := hfits.blunt.seam
    simp only [← List.append_assoc, List.concat_eq_append, List.getLast?_concat] at hseam ⊢
    refine hseam.imp_right fun hhead => ?_
    cases more with
    | nil => rfl
    | cons d more =>
      rw [hmore] at hhead
      exact hhead

/-- A body that is closed behind a seam goes on there. -/
theorem exists_body_of_length_lt {body after start rest : Text}
    (h : body ++ '}' :: after = start ++ rest) (hlt : after.length < rest.length) :
    ∃ body', body = start ++ body' ∧ rest = body' ++ '}' :: after := by
  rcases List.append_eq_append_iff.1 h with ⟨more, rfl, hmore⟩ | hlater
  · have hlength := congrArg List.length hmore
    rw [List.length_append, List.length_cons] at hlength
    obtain rfl : more = [] := List.length_eq_zero_iff.1 (by omega)
    exact ⟨[], by rw [List.append_nil, List.append_nil], hmore.symm⟩
  · exact hlater

/-- A body that goes on behind a block goes on as well without the block. -/
theorem exists_body_of_balanced {block behind body after : Text} {depth : Nat}
    (hblock : Balanced block) (hbody : braceDepth depth body = some 0)
    (h : block ++ behind = body ++ '}' :: after) : ∃ body', body = block ++ body' ∧
      behind = body' ++ '}' :: after ∧ braceDepth depth body' = some 0 := by
  have hclose : closingBraceFrom (depth + 1 : Nat) (block ++ behind) = some body.length :=
    closingBraceFrom_eq_some_iff.2 ⟨body, after, h, rfl, hbody⟩
  rw [closingBraceFrom_append (hblock.braceDepth depth), Option.map_eq_some_iff] at hclose
  obtain ⟨n, hn, hlength⟩ := hclose
  obtain ⟨body', after', rfl, rfl, hbody'⟩ := closingBraceFrom_eq_some_iff.1 hn
  rw [← List.append_assoc] at h
  obtain ⟨hsame, hrest⟩ := List.append_inj h (by rw [List.length_append]; omega)
  exact ⟨body', hsame.symm, by rw [hrest], hbody'⟩

theorem Fits.of_append {front text block : Text} (h : Fits (front ++ text) block) (hne : text ≠ []) :
    Fits text block where
  word := h.word
  seam := h.seam.imp_left fun hlast => by rwa [List.getLast?_append_of_ne_nil _ hne] at hlast

theorem Header.Heads.text_eq_opening {previous : Option Char} {text gap name clause rest : Text}
    (h : Header.Heads previous text gap name clause rest) :
    text = Header.keyword ++ (gap ++ (name ++ clause)) ++ '{' :: rest := by
  rw [h.text_eq]
  simp only [List.append_assoc]

namespace Declares

variable {previous : Option Char} {text block part behind gap name clause body after start : Text}
  (htext : text = Header.keyword ++ (gap ++ (name ++ clause)) ++ '{' :: start)

include htext

/-- A declaration that goes on behind the start of a block takes it in. -/
theorem exists_around (hblock : Balanced block)
    (h : Declares previous (text ++ (block ++ behind)) gap name clause body after)
    (hlt : after.length < (block ++ behind).length) :
    ∃ body' depth, body = start ++ (block ++ body') ∧ behind = body' ++ '}' :: after ∧
      braceDepth 0 start = some depth ∧ braceDepth depth body' = some 0 := by
  have hrest : body ++ '}' :: after = start ++ (block ++ behind) := by
    have := h.heads.text_eq_opening
    rw [htext, List.append_assoc, List.cons_append] at this
    exact (List.cons.inj (List.append_cancel_left this)).2.symm
  obtain ⟨body', rfl, hbody'⟩ := exists_body_of_length_lt hrest hlt
  have hbalanced := h.balanced
  rw [Balanced, braceDepth_append, Option.bind_eq_some_iff] at hbalanced
  obtain ⟨depth, hdepth, hclosed⟩ := hbalanced
  obtain ⟨body'', rfl, hbehind, hclosed'⟩ := exists_body_of_balanced hblock hclosed hbody'
  exact ⟨body'', depth, rfl, hbehind, hdepth, hclosed'⟩

/-- The declaration with another part in the place of the block. -/
theorem exchange {behind' body' after' : Text} {depth : Nat}
    (h : Declares previous (text ++ behind) gap name clause body after)
    (hbehind : part ++ behind' = body' ++ '}' :: after') (hstart : braceDepth 0 start = some depth)
    (hbody' : braceDepth depth body' = some 0) :
    Declares previous (text ++ (part ++ behind')) gap name clause (start ++ body') after' := by
  refine ⟨⟨?_, h.heads.previous, h.heads.gap_ne_nil, h.heads.gap_blank, h.heads.name,
    h.heads.clause⟩, ?_⟩
  · rw [htext, hbehind]
    simp only [List.append_assoc, List.cons_append]
  · rw [Balanced, braceDepth_append, hstart]
    exact hbody'

/-- If the part closes the braces that it opens, a declaration around the block is
    one that goes on at the start of the part. -/
theorem exists_of_closing (hblock : Balanced block) (hclosing : Closing part)
    (h : Declares previous (text ++ (block ++ behind)) gap name clause body after)
    (hlt : after.length < (block ++ behind).length) : ∃ body' after',
      Declares previous (text ++ (part ++ behind)) gap name clause body' after' ∧
        after'.length < (part ++ behind).length := by
  obtain ⟨body', depth, -, hbehind, hdepth, hbody'⟩ := h.exists_around htext hblock hlt
  have hclosed : (closingBraceFrom (depth + 1 : Nat) behind).isSome = true := by
    rw [closingBraceFrom_eq_some_iff.2 ⟨body', after, hbehind, rfl, hbody'⟩]
    rfl
  obtain ⟨n, hn⟩ := Option.isSome_iff_exists.1 (hclosing depth behind hclosed)
  obtain ⟨body'', after', hsplit, -, hbody''⟩ := closingBraceFrom_eq_some_iff.1 hn
  refine ⟨_, after', h.exchange htext hsplit hdepth hbody'', ?_⟩
  rw [hsplit, List.length_append, List.length_cons]
  omega

end Declares

/-- No declaration reaches into a block that is put in the place of a part. -/
theorem Parted.exchange {before part block behind : Text}
    (hpart : Parted none before (part ++ behind)) (hopen : Parted none before ['{', '}'])
    (hclosing : Closing part) (hblock : Balanced block) (hfits : Fits before block) :
    Parted none before (block ++ behind) := by
  rintro before' text rfl hne gap name clause body after hdeclares
  rcases hdeclares.heads.cases_append hne ((hfits.of_append hne).append behind) with
    ⟨start, htext, -⟩ | ⟨clause', rfl, hclause'⟩
  · -- The body starts before the block, and would be closed without it as well.
    by_contra hlt
    have hopening : text = Header.keyword ++ (gap ++ (name ++ clause)) ++ '{' :: start := by
      rw [htext]
      simp only [List.append_assoc]
    obtain ⟨body', after', hdeclares', hlt'⟩ :=
      hdeclares.exists_of_closing hopening hblock hclosing (Nat.lt_of_not_le hlt)
    exact absurd (hpart before' text rfl hne _ _ _ _ _ hdeclares') (Nat.not_le.2 hlt')
  · -- The header is open, so that braces here would be its body.
    have hdeclares' : Declares (before'.getLast?.or none)
        (Header.keyword ++ (gap ++ (name ++ clause')) ++ ['{', '}']) gap name clause' [] [] :=
      ⟨⟨by simp only [List.append_assoc, List.nil_append], hdeclares.heads.previous,
        hdeclares.heads.gap_ne_nil, hdeclares.heads.gap_blank, hdeclares.heads.name, hclause'⟩, rfl⟩
    have := hopen before' _ rfl hne gap name clause' [] [] hdeclares'
    exact absurd this (by simp)

/-- No declaration starts in a text that mentions no enum. -/
theorem Text.Quiet.undeclared {words : List Text} {text : Text} (h : Quiet words text)
    (hwords : Header.keyword ∈ words) (previous : Option Char) (behind : Text) :
    Undeclared previous text behind := by
  intro before rest htext hne gap name clause body after hdeclares
  have hheads := hdeclares.heads
  obtain ⟨c, letters, rfl, hc, -⟩ := isTypeName_iff.1 hheads.name
  have hprevious : before.getLast?.any isWordChar = false := by
    have := hheads.previous
    cases hlast : before.getLast? with
    | none => rfl
    | some b => rwa [hlast] at this
  exact h before rest behind htext hne ⟨hprevious, Header.keyword, hwords, gap, c,
    letters ++ (clause ++ '{' :: (body ++ '}' :: after)), hheads.gap_ne_nil, hheads.gap_blank, hc,
    hheads.text_eq⟩

/-- Where a block without enums takes the place of a part that no declaration
    meets, all declarations are read as before. -/
theorem readings_exchange {before part block behind : Text}
    (hapart : Apart (before ++ (part ++ behind)) before.length (before.length + part.length))
    (hclosing : Closing part) (hbalanced : Balanced block) (hquiet : Quiet [Header.keyword] block)
    (hfits : Fits before block)
    (hpart : behind ≠ [] → (part.getLast?.or before.getLast?).any isWordChar = false)
    (hblock : behind ≠ [] → (block.getLast?.or before.getLast?).any isWordChar = false)
    (allowRepeats : Bool) :
    readings allowRepeats (before ++ (part ++ behind)) = readings allowRepeats before ++
        (readings allowRepeats behind).map (Reading.moved (before.length + part.length)) ∧
      readings allowRepeats (before ++ (block ++ behind)) = readings allowRepeats before ++
        (readings allowRepeats behind).map (Reading.moved (before.length + block.length)) :=
  ⟨readings_splice (hapart.parted.splits _ _ _) hapart.undeclared hpart,
    readings_splice
      ((hapart.parted.exchange hapart.parted_braces hclosing hbalanced hfits).splits _ _ _)
      (hquiet.undeclared List.mem_cons_self _ _) hblock⟩

end EnumCompanion
