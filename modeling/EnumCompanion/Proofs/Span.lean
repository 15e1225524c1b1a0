import EnumCompanion.Proofs.Text.Characters
import EnumCompanion.Proofs.Text.Lines
import Mathlib.Algebra.Order.Ring.Int

/-!
# Positions and places

The places of a text and the positions in its lines are the same thing told in
two ways. A text up to a place is some whole lines and a beginning of the next
one, and both the position of the place and the place itself are read off these.
So a part of a text that starts somewhere on a line has the positions of its
first line moved by the column of its start, and all others by lines alone.

* `exists_lastLine`, `Position.ofOffset_line`: a text as lines and a beginning of
  one, and the position behind it;
* `Position.Locates`, `Position.locates_iff`: the position of each place, and the
  place of each position;
* `Position.precedes_ofOffset`: positions are in the order of places;
* `Position.ofOffset_rebased`: the positions in a part of a text;
* `Span.cover_shifted`: the spans of a part;
* `positions_correspond`: all of it.
-/

namespace EnumCompanion

open Text

/-! ### Lines and a beginning of one -/

namespace Text

/-- A text is whole lines and a beginning of the next one. -/
theorem exists_lastLine (text : Text) :
    ∃ head line, text = head ++ line ∧ EndsLine head ∧ '\n' ∉ line := by
  obtain ⟨head, line, rfl, hends, hcount⟩ := exists_endsLine (Nat.le_refl (text.count '\n'))
  rw [List.count_append] at hcount
  exact ⟨head, line, rfl, hends, List.count_eq_zero.1 (by omega)⟩

variable {head line : Text}

/-- Its last line starts behind the whole ones. -/
theorem EndsLine.lastLineStart_append (h : EndsLine head) (hline : '\n' ∉ line) :
    (head ++ line).lastLineStart = head.length := by
  have hrun : ∀ c ∈ line.reverse, (c != '\n') = true := fun c hc => by
    rw [bne_iff_ne]
    rintro rfl
    exact hline (List.mem_reverse.1 hc)
  have hstop : head.reverse.head?.any (· != '\n') = false := by
    rw [List.head?_reverse]
    rcases h with rfl | hlast
    · rfl
    · rw [hlast]
      decide
  rw [lastLineStart, lastLineLength, List.reverse_append, takeWhile_append_exact hrun hstop,
    List.length_reverse, List.length_append, Nat.add_sub_cancel]

/-- Whole lines are as long as they are without their line feeds, and one
    character longer for each of these. -/
theorem EndsLine.sum_lines (h : EndsLine head) (rest : Text) :
    (((head ++ rest).lines.take (head.count '\n')).map fun line => line.length + 1).sum =
      head.length := by
  have hlength : ∀ lines : List Text, (lines.map fun line => line.length + 1).sum =
      (lines.flatMap fun line => line ++ ['\n']).length := fun lines => by
    simp only [List.length_flatMap, List.length_append, List.length_singleton]
  rw [h.lines_append, ← length_dropLast_lines, List.take_left, hlength, h.flatMap_lines]

end Text

namespace Position

variable {head line : Text}

/-- The position behind lines and a beginning of one. -/
theorem ofOffset_line (h : EndsLine head) (hline : '\n' ∉ line) (behind : Text) :
    ofOffset (head ++ (line ++ behind)) (head.length + line.length : Nat) =
      ⟨head.count '\n', line.length⟩ := by
  have hbefore : Text.before (head ++ (line ++ behind)) (head.length + line.length : Nat) =
      head ++ line := by
    rw [Text.before, place_natCast, ← List.take_eq_take_min, List.take_length_add_append,
      List.take_left]
  rw [ofOffset, hbefore, h.lastLineStart_append hline, List.count_append,
    List.count_eq_zero.2 hline, Nat.add_zero, Int.natCast_add, Int.add_comm, Int.add_sub_cancel]

/-! ### Places and positions -/

/-- A position in the lines of a text, and the place that it stands for. -/
structure Locates (text : Text) (position : Position) (place : Nat) : Prop where
  /-- The line is one of the text, and the column is on it or at its end. -/
  line : ∃ content, text.lines[position.line]? = some content ∧
    0 ≤ position.column ∧ position.column ≤ content.length
  /-- The lines before it, their line feeds and the column make up the place. -/
  place_eq : (place : Int) =
    (((text.lines.take position.line).map fun line => line.length + 1).sum : Nat) + position.column

/-- The position of a place in a text stands for it. -/
theorem locates_ofOffset {text : Text} {place : Nat} (h : place ≤ text.length) :
    Locates text (ofOffset text place) place := by
  obtain ⟨before, behind, rfl, rfl⟩ := exists_append_of_le h
  obtain ⟨head, line, rfl, hends, hline⟩ := exists_lastLine before
  rw [List.append_assoc, List.length_append, ofOffset_line hends hline]
  refine ⟨⟨_, hends.getElem?_lines _, Int.natCast_nonneg _, ?_⟩, ?_⟩
  · rw [firstLine_append hline, List.length_append]
    exact Int.ofNat_le.2 (Nat.le_add_right _ _)
  · rw [hends.sum_lines, Int.natCast_add]

/-- A position that stands for a place is the position of that place. -/
theorem Locates.ofOffset_eq {text : Text} {position : Position} {place : Nat}
    (h : position.Locates text place) : place ≤ text.length ∧ ofOffset text place = position := by
  obtain ⟨row, column⟩ := position
  obtain ⟨⟨content, hcontent, hnonneg, hle⟩, hplace⟩ := h
  dsimp only at hcontent hnonneg hle hplace
  obtain ⟨column, rfl⟩ := Int.eq_ofNat_of_zero_le hnonneg
  have hrow : row ≤ text.count '\n' := by
    obtain ⟨hlt, -⟩ := List.getElem?_eq_some_iff.1 hcontent
    rw [length_lines] at hlt
    exact Nat.le_of_lt_succ hlt
  obtain ⟨head, rest, rfl, hends, rfl⟩ := exists_endsLine hrow
  rw [hends.sum_lines] at hplace
  rw [hends.getElem?_lines, Option.some.injEq] at hcontent
  subst hcontent
  -- The column is that of a beginning of the line.
  obtain ⟨line, more, hfirst, hlength⟩ := exists_append_of_le (Int.ofNat_le.1 hle)
  have hline : '\n' ∉ line := fun hfeed =>
    not_mem_firstLine rest (hfirst ▸ List.mem_append_left more hfeed)
  obtain ⟨behind, hrest⟩ : line <+: rest :=
    (hfirst ▸ List.prefix_append line more).trans (List.takeWhile_prefix _)
  obtain rfl : place = head.length + line.length := by omega
  rw [← hrest, ofOffset_line hends hline, hlength]
  exact ⟨by simp [hlength], rfl⟩

/-- Each place of a text has one position, and each position one place. -/
theorem locates_iff {text : Text} {position : Position} {place : Nat} :
    position.Locates text place ↔ place ≤ text.length ∧ ofOffset text place = position :=
  ⟨Locates.ofOffset_eq, fun ⟨hle, heq⟩ => heq ▸ locates_ofOffset hle⟩

/-- The order of positions: by lines, and on one line by columns. -/
def Precedes (position other : Position) : Prop :=
  position.line < other.line ∨ position.line = other.line ∧ position.column < other.column

/-- Positions are in the order of their places. -/
theorem precedes_ofOffset {text : Text} {place other : Nat} (hlt : place < other)
    (hle : other ≤ text.length) : (ofOffset text place).Precedes (ofOffset text other) := by
  have hplace := (locates_ofOffset (hlt.le.trans hle)).place_eq
  have hother := (locates_ofOffset hle).place_eq
  rcases (line_le text hlt.le).lt_or_eq with hline | hline
  · exact .inl hline
  · rw [hline] at hplace
    exact .inr ⟨hline, by omega⟩

/-! ### Parts of a text -/

/-- A position in the part of a text that starts at another one, as a position in
    the text: on the first line of the part the column where it starts is added,
    and on the other lines nothing. -/
def rebased (position base : Position) : Position where
  line := position.line + base.line
  column := if position.line = 0 then position.column + base.column else position.column

/-- The positions in a text of the places in a part of it. -/
theorem ofOffset_rebased (before : Text) {rest : Text} {place : Nat} (h : place ≤ rest.length) :
    ofOffset (before ++ rest) (before.length + place : Nat) =
      (ofOffset rest place).rebased (ofOffset (before ++ rest) before.length) := by
  obtain ⟨part, more, rfl, rfl⟩ := exists_append_of_le h
  obtain ⟨head, line, rfl, hends, hline⟩ := exists_lastLine before
  obtain ⟨head', line', rfl, hends', hline'⟩ := exists_lastLine part
  have hbase := ofOffset_line hends hline ((head' ++ line') ++ more)
  have hpart := ofOffset_line hends' hline' more
  rw [← List.append_assoc, ← List.length_append] at hbase hpart
  rw [hbase, hpart, rebased]
  rcases hends'.eq_nil_or_concat with rfl | ⟨front, rfl⟩
  · -- The place is on the line on which the part starts.
    have hjoined : '\n' ∉ line ++ line' := by simp [hline, hline']
    have hwhole := ofOffset_line hends hjoined more
    simp only [List.append_assoc, List.length_append, List.nil_append] at hwhole ⊢
    rw [← Nat.add_assoc] at hwhole
    rw [hwhole, List.count_nil, if_pos rfl, Nat.zero_add, Nat.add_comm line.length, Int.natCast_add]
  · -- A line ends between them.
    have hjoined : EndsLine ((head ++ line) ++ (front ++ ['\n'])) := by
      rw [← List.append_assoc]
      exact endsLine_concat _
    have hwhole := ofOffset_line hjoined hline' more
    have hcount : ((head ++ line) ++ (front ++ ['\n'])).count '\n' =
        (front ++ ['\n']).count '\n' + head.count '\n' := by
      rw [List.count_append, List.count_append, List.count_eq_zero.2 hline, Nat.add_zero,
        Nat.add_comm]
    have hsome : (front ++ ['\n']).count '\n' ≠ 0 := by simp
    rw [hcount] at hwhole
    rw [if_neg hsome, ← hwhole]
    simp only [List.append_assoc, List.length_append, Nat.add_assoc]

end Position

namespace Span

/-- A span between two places of a text. -/
def IsOf (text : Text) (span : Span) : Prop :=
  ∃ start stop : Nat, start ≤ text.length ∧ stop ≤ text.length ∧ span = .ofOffsets text start stop

variable (before rest : Text) (start stop : Nat)

/-- A span of a part of a text, as one of the text, lies between the same places
    behind the start of the part. -/
theorem shifted_ofOffsets : (ofOffsets rest start stop).shifted before.length (before ++ rest) =
    ofOffsets (before ++ rest) (before.length + start : Nat) (before.length + stop : Nat) := by
  rw [Nat.add_comm before.length, Nat.add_comm before.length]
  rfl

/-- It covers the same characters. -/
theorem cover_shifted :
    ((ofOffsets rest start stop).shifted before.length (before ++ rest)).cover (before ++ rest) =
      (ofOffsets rest start stop).cover rest := by
  have hcover : ∀ (text : Text) (start stop : Nat),
      (ofOffsets text start stop).cover text = (text.take stop).drop start := slice_natCast
  rw [shifted_ofOffsets, hcover, hcover, List.take_length_add_append,
    List.drop_length_add_append]

end Span

/-- A place of a text and its position are told from each other: the position is
    in the lines of the text and stands for the place. Positions are in the order
    of places. A span of a part of a text, as one of the text, covers the same
    characters, and its ends are moved by the lines before the part and, on the
    first line of the part alone, by the column where it starts. -/
theorem positions_correspond (text : Text) :
    (∀ (position : Position) (place : Nat), position.Locates text place ↔
      place ≤ text.length ∧ Position.ofOffset text place = position) ∧
    (∀ place other : Nat, place < other → other ≤ text.length →
      (Position.ofOffset text place).Precedes (Position.ofOffset text other)) ∧
    ∀ base : Nat, base ≤ text.length → ∀ span : Span, span.IsOf (text.drop base) →
      (span.shifted base text).cover text = span.cover (text.drop base) ∧
      (span.shifted base text).first = span.first.rebased (Position.ofOffset text base) ∧
      (span.shifted base text).last = span.last.rebased (Position.ofOffset text base) := by
  refine ⟨fun _ _ => Position.locates_iff, fun _ _ => Position.precedes_ofOffset, ?_⟩
  rintro base hbase span ⟨start, stop, hstart, hstop, rfl⟩
  obtain ⟨before, rest, rfl, rfl⟩ := exists_append_of_le hbase
  rw [List.drop_left] at hstart hstop ⊢
  refine ⟨Span.cover_shifted before rest start stop, ?_⟩
  rw [Span.shifted_ofOffsets]
  exact ⟨Position.ofOffset_rebased before hstart, Position.ofOffset_rebased before hstop⟩

/-- Three lines, the last one without a line feed. -/
def threeLines : Text := "ab\ncde\nf".toList

/-- Of the part that starts on the second line, the end of this line and the last
    one. -/
def restOfLines : Span := .ofOffsets (threeLines.drop 4) 1 4

theorem positions_correspond_threeLines :
    (4 ≤ threeLines.length ∧ restOfLines.IsOf (threeLines.drop 4)) ∧
      (restOfLines.shifted 4 threeLines).cover threeLines = "e\nf".toList ∧
      (restOfLines.shifted 4 threeLines).first = ⟨1, 2⟩ ∧
      (restOfLines.shifted 4 threeLines).last = ⟨2, 1⟩ := by
  obtain ⟨-, -, hspans⟩ := positions_correspond threeLines
  have hbase : 4 ≤ threeLines.length := by decide
  have hof : restOfLines.IsOf (threeLines.drop 4) := ⟨1, 4, by decide, by decide, rfl⟩
  obtain ⟨hcover, hfirst, hlast⟩ := hspans 4 hbase restOfLines hof
  have hcovered : restOfLines.cover (threeLines.drop 4) = "e\nf".toList := by decide
  -- Only the first end is on the line on which the part starts.
  have hmoved : restOfLines.first.rebased (.ofOffset threeLines 4) = ⟨1, 2⟩ := by decide
  have hkept : restOfLines.last.rebased (.ofOffset threeLines 4) = ⟨2, 1⟩ := by decide
  exact ⟨⟨hbase, hof⟩, hcover.trans hcovered, hfirst.trans hmoved, hlast.trans hkept⟩

end EnumCompanion
