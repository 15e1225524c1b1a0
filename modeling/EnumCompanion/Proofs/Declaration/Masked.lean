import EnumCompanion.Declaration.Parse
import EnumCompanion.Proofs.Mask.Segment
import Mathlib.Data.List.Forall2
import Mathlib.Data.List.Infix

/-!
# Reading a mask

A mask is its own mask: nothing in it opens a comment or a literal. What is read
of it is what is read of the text, down to the spans, since line feeds stay where
they are. So texts that differ only within comments and literals declare the same.

* `map_blanked_maskFrom`, `forall₂_maskFrom`: a text and its mask, by characters;
* `OpensNothing`, `maskFrom_of_opensNothing`: the texts that are their own masks;
* `ofOffsets_congr`: spans depend only on the places of line feeds;
* `parse_congr`, `parseAll_congr`: texts with one mask are read alike;
* `SameCode`: the texts that differ only within comments and literals;
* `masked_transparent`: what a mask has, and that readers do not see it.
-/

namespace EnumCompanion

open Text Mask

namespace Mask

/-! ### Characters -/

theorem blanked_blanked (c : Char) : blanked (blanked c) = blanked c := by
  rcases blanked_eq c with h | h <;> rw [h] <;> rfl

theorem blanked_eq_feed_iff {c : Char} : blanked c = '\n' ↔ c = '\n' := by
  rw [blanked]
  split_ifs with h
  · exact iff_of_true rfl h
  · exact iff_of_false (by decide) h

theorem map_blanked_eq_feed_iff {place : Option Char} :
    place.map blanked = some '\n' ↔ place = some '\n' := by
  cases place with
  | none => simp
  | some c => rw [Option.map_some, Option.some.injEq, Option.some.injEq, blanked_eq_feed_iff]

theorem count_map_blanked (text : Text) : (text.map blanked).count '\n' = text.count '\n' := by
  rw [List.count_eq_countP, List.count_eq_countP, List.countP_map]
  congr 1
  funext c
  rw [Function.comp, Bool.eq_iff_iff, beq_iff_eq, beq_iff_eq, blanked_eq_feed_iff]

/-- With all but line feeds blanked out, a mask is the text. -/
theorem map_blanked_maskFrom (mode : Mode) (text : Text) :
    (maskFrom mode text).map blanked = text.map blanked := by
  induction text generalizing mode with
  | nil => rfl
  | cons c text ih =>
    have hshown : blanked (shown mode c text.head?) = blanked c := by
      rw [shown]
      split_ifs
      exacts [rfl, blanked_blanked c]
    rw [maskFrom_cons, List.map_cons, List.map_cons, hshown, ih]

/-- A mask has the characters of the text, or a space for one that is no line
    feed. -/
theorem forall₂_maskFrom (mode : Mode) (text : Text) :
    List.Forall₂ (fun c shown => shown = c ∨ shown = ' ' ∧ c ≠ '\n') text (maskFrom mode text) := by
  induction text generalizing mode with
  | nil => exact .nil
  | cons c text ih =>
    rw [maskFrom_cons]
    refine .cons ?_ (ih _)
    rw [shown, blanked]
    split_ifs with _ hfeed
    exacts [.inl rfl, .inl hfeed.symm, .inr ⟨rfl, hfeed⟩]

/-! ### Masks of masks -/

/-- A text without quotes and without the start of a comment. -/
structure OpensNothing (text : Text) : Prop where
  quotes : ∀ c ∈ text, c ≠ '\'' ∧ c ≠ '"'
  line : ¬['/', '/'] <:+: text
  block : ¬['/', '*'] <:+: text

/-- A character that shows opens nothing. -/
theorem exists_codeStep_of_shows {mode : Mode} {c : Char} {next : Option Char}
    (h : mode.shows c next = true) : ∃ trail trail', codeStep trail c next = .code trail' := by
  rw [Mode.shows, Option.any_eq_true] at h
  obtain ⟨trail, -, hcode⟩ := h
  cases hstep : codeStep trail c next with
  | code trail' => exact ⟨trail, trail', hstep⟩
  | lineComment | blockComment | literal =>
    rw [hstep] at hcode
    exact Bool.noConfusion hcode

theorem not_quote_of_mem_maskFrom {mode : Mode} {text : Text} {c : Char}
    (h : c ∈ maskFrom mode text) : c ≠ '\'' ∧ c ≠ '"' := by
  induction text generalizing mode with
  | nil => exact absurd h List.not_mem_nil
  | cons d text ih =>
    rw [maskFrom_cons, List.mem_cons] at h
    rcases h with rfl | h
    · rw [shown]
      split_ifs with hshows
      · obtain ⟨trail, trail', hstep⟩ := exists_codeStep_of_shows hshows
        constructor <;> rintro rfl <;> exact Mode.noConfusion hstep
      · rcases blanked_eq d with hd | hd <;> rw [hd] <;> decide
    · exact ih h

/-- A slash that shows and another sign of a delimiter do not meet in a mask. -/
theorem not_infix_maskFrom {d : Char} (hd : d = '/' ∨ d = '*') (mode : Mode) (text : Text) :
    ¬['/', d] <:+: maskFrom mode text := by
  have hblank : d ≠ ' ' ∧ d ≠ '\n' := by rcases hd with rfl | rfl <;> decide
  induction text generalizing mode with
  | nil => exact fun h => absurd (List.infix_nil.1 h) (List.cons_ne_nil _ _)
  | cons c text ih =>
    rw [maskFrom_cons, List.infix_cons_iff, not_or]
    refine ⟨?_, ih _⟩
    rintro ⟨rest, hrest⟩
    obtain ⟨rfl, hshows, hmask⟩ := of_maskFrom_cons hrest.symm (by decide) (by decide)
    -- The sign stands in the text as well, and the slash opens a comment.
    cases text with
    | nil => exact absurd hmask.symm (List.cons_ne_nil _ _)
    | cons e text =>
      obtain ⟨rfl, -, -⟩ := of_maskFrom_cons hmask hblank.1 hblank.2
      obtain ⟨trail, trail', hstep⟩ := exists_codeStep_of_shows hshows
      rcases hd with rfl | rfl <;> exact Mode.noConfusion hstep

theorem opensNothing_maskFrom (mode : Mode) (text : Text) : OpensNothing (maskFrom mode text) where
  quotes _ hc := not_quote_of_mem_maskFrom hc
  line := not_infix_maskFrom (.inl rfl) mode text
  block := not_infix_maskFrom (.inr rfl) mode text

/-- A text that opens nothing is its own mask. -/
theorem maskFrom_of_opensNothing {text : Text} (h : OpensNothing text) (trail : Trail) :
    maskFrom (.code trail) text = text := by
  induction text generalizing trail with
  | nil => rfl
  | cons c text ih =>
    have hquote : ¬(c = '\'' ∨ c = '"') := not_or.2 (h.quotes c List.mem_cons_self)
    have hsign : ∀ d, ¬['/', d] <:+: c :: text → ¬(c = '/' ∧ text.head? = some d) := by
      rintro d hinfix ⟨rfl, hhead⟩
      obtain ⟨rest, rfl⟩ := List.head?_eq_some_iff.1 hhead
      exact hinfix ⟨[], rest, rfl⟩
    have hstep : codeStep trail c text.head? = .code (trail.next c) := by
      rw [codeStep, if_neg (hsign _ h.line), if_neg (hsign _ h.block), if_neg hquote]
    have hrest : OpensNothing text :=
      ⟨fun d hd => h.quotes d (List.mem_cons_of_mem _ hd),
        fun hruns => h.line (hruns.trans (List.suffix_cons c text).isInfix),
        fun hruns => h.block (hruns.trans (List.suffix_cons c text).isInfix)⟩
    have hshows : (Mode.code trail).shows c text.head? = true := by
      rw [Mode.shows, Mode.resume?, Option.any_some, hstep]
      rfl
    rw [maskFrom_cons, shown, if_pos hshows, Mode.step, Mode.resume?]
    dsimp only
    rw [hstep, ih hrest]

end Mask

/-! ### Positions -/

/-- A position depends only on the places of line feeds. -/
theorem Position.ofOffset_map_blanked (text : Text) (offset : Int) :
    ofOffset (text.map blanked) offset = ofOffset text offset := by
  have hbefore : Text.before (text.map blanked) offset = (text.before offset).map blanked := by
    rw [Text.before, Text.before, place, place, List.length_map, List.map_take]
  have hlast : lastLineStart ((text.before offset).map blanked) =
      lastLineStart (text.before offset) := by
    have hclass : ((· != '\n') ∘ blanked : Char → Bool) = (· != '\n') := by
      funext c
      rw [Function.comp, Bool.eq_iff_iff, bne_iff_ne, bne_iff_ne, ne_eq, blanked_eq_feed_iff]
    rw [lastLineStart, lastLineStart, lastLineLength, lastLineLength, List.length_map,
      ← List.map_reverse, List.takeWhile_map, List.length_map, hclass]
  rw [ofOffset, ofOffset, hbefore, count_map_blanked, hlast]

variable {text other : Text} {allowRepeats : Bool}

theorem Span.ofOffsets_congr (h : text.map blanked = other.map blanked) (start stop : Int) :
    ofOffsets text start stop = ofOffsets other start stop := by
  rw [ofOffsets, ofOffsets, ← Position.ofOffset_map_blanked text, h, Position.ofOffset_map_blanked,
    ← Position.ofOffset_map_blanked text, h, Position.ofOffset_map_blanked]

/-! ### Readers -/

/-- Of the text itself only the line feeds count where a declaration is read. -/
theorem readDeclaration_congr (h : text.map blanked = other.map blanked) (masked : Text)
    (header : Header) : readDeclaration text masked allowRepeats header =
      readDeclaration other masked allowRepeats header := by
  unfold readDeclaration
  simp only [Span.ofOffsets_congr h]

/-- Texts with one mask have their line feeds at the same places. -/
theorem map_blanked_congr (h : text.masked = other.masked) :
    text.map blanked = other.map blanked := by
  rw [← map_blanked_maskFrom (.code .clear) text, ← map_blanked_maskFrom (.code .clear) other]
  exact congrArg _ h

theorem parse_congr (h : text.masked = other.masked) :
    parse text allowRepeats = parse other allowRepeats := by
  simp only [parse, h, readDeclaration_congr (map_blanked_congr h)]

theorem parseAll_congr (h : text.masked = other.masked) :
    parseAll text allowRepeats = parseAll other allowRepeats := by
  have hread : readDeclaration text other.masked allowRepeats =
      readDeclaration other other.masked allowRepeats :=
    funext (readDeclaration_congr (map_blanked_congr h) _)
  simp only [parseAll, attempts, h, hread]

/-! ### Texts with the same code -/

/-- Tokens that are the same, or both no code and with their line feeds at the
    same places. -/
inductive Mask.Token.Alike : Token → Token → Prop
  | refl (token : Token) : Alike token token
  | hidden {token other : Token} (h : token.kind ≠ .plain) (h' : other.kind ≠ .plain)
    (hfeeds : token.lexeme.map (· == '\n') = other.lexeme.map (· == '\n')) : Alike token other

/-- Texts that differ only within comments and literals, where each has its line
    feeds at the same places. -/
def SameCode (text other : Text) : Prop :=
  ∃ tokens others, Segments [] tokens text ∧ Segments [] others other ∧
    List.Forall₂ Token.Alike tokens others

theorem Mask.Token.Alike.masked_eq {token other : Token} (h : token.Alike other) :
    token.masked = other.masked := by
  cases h with
  | refl => rfl
  | hidden h h' hfeeds =>
    have hblanked : blanked = (fun feed => if feed then '\n' else ' ') ∘ (· == '\n') := by
      funext c
      simp only [blanked, Function.comp, beq_iff_eq]
    rw [masked, masked, if_neg h, if_neg h', hblanked, ← List.map_map, hfeeds, List.map_map]

/-- Such texts have one mask. -/
theorem SameCode.masked_eq (h : SameCode text other) : text.masked = other.masked := by
  obtain ⟨tokens, others, htokens, hothers, halike⟩ := h
  have hsame : tokens.flatMap Token.masked = others.flatMap Token.masked := by
    clear htokens hothers
    induction halike with
    | nil => rfl
    | cons hhead _ ih => rw [List.flatMap_cons, List.flatMap_cons, hhead.masked_eq, ih]
  rw [htokens.masked_eq, hothers.masked_eq, hsame]

/-- A mask has the length of the text and its characters, or a space for one that
    is no line feed. It opens no comment and no literal and is its own mask. What
    is read first, all that is read, and why nothing can be read, is the same of
    it as of the text, and the same of any text that differs from it only within
    comments and literals. -/
theorem masked_transparent (text : Text) :
    text.masked.length = text.length ∧
      List.Forall₂ (fun c shown => shown = c ∨ shown = ' ' ∧ c ≠ '\n') text text.masked ∧
      OpensNothing text.masked ∧ text.masked.masked = text.masked ∧
      (∀ allowRepeats, parse text.masked allowRepeats = parse text allowRepeats ∧
        parseAll text.masked allowRepeats = parseAll text allowRepeats) ∧
      ∀ other, SameCode text other → ∀ allowRepeats,
        parse other allowRepeats = parse text allowRepeats ∧
          parseAll other allowRepeats = parseAll text allowRepeats := by
  have hopens : OpensNothing text.masked := opensNothing_maskFrom _ text
  have hmasked : text.masked.masked = text.masked := maskFrom_of_opensNothing hopens .clear
  refine ⟨length_masked text, forall₂_maskFrom _ text, hopens, hmasked, fun allowRepeats => ?_,
    fun other hother allowRepeats => ?_⟩
  · exact ⟨parse_congr hmasked, parseAll_congr hmasked⟩
  · exact ⟨parse_congr hother.masked_eq.symm, parseAll_congr hother.masked_eq.symm⟩

end EnumCompanion
