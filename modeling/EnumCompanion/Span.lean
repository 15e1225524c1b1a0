import EnumCompanion.Text.Basic

/-!
# Positions and spans

A *position* is a line and a column, both counted from zero, and a *span* is a
run of a text with the positions of its ends. Offsets are signed: a caller may
count from the end of the text or point beyond it, and a span keeps what it was
given.

* `Position.ofOffset`: the position of an offset;
* `Span.ofOffsets`: the span between two offsets;
* `Span.shifted`: a span of a substring, moved to the text around it;
* `Span.cover`: the characters of a span.
-/

namespace EnumCompanion

/-- A line and a column. -/
structure Position where
  /-- Number of lines before this one. -/
  line : Nat
  /-- Distance from the start of the line, negative for an offset that counts
      from the end of the text. -/
  column : Int
  deriving DecidableEq

/-- The position of an offset: the line feeds before it, and its distance from
    the last of them. -/
def Position.ofOffset (text : Text) (offset : Int) : Position :=
  let before := text.before offset
  { line := before.count '\n', column := offset - before.lastLineStart }

/-- A run of a text, the end not included. -/
structure Span where
  /-- The first offset. -/
  start : Int
  /-- The offset after the last. -/
  stop : Int
  /-- The position of `start`. -/
  first : Position
  /-- The position of `stop`. -/
  last : Position
  deriving DecidableEq

namespace Span

/-- The span between two offsets of a text. -/
def ofOffsets (text : Text) (start stop : Int) : Span where
  start := start
  stop := stop
  first := .ofOffset text start
  last := .ofOffset text stop

/-- A span measured in the substring of `text` that starts at `offset`, as a
    span of `text`. -/
def shifted (span : Span) (offset : Int) (text : Text) : Span :=
  ofOffsets text (span.start + offset) (span.stop + offset)

/-- The characters of a span. -/
def cover (span : Span) (text : Text) : Text := text.slice span.start span.stop

end Span

end EnumCompanion
