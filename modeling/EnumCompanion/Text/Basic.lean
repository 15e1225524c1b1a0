/-!
# Texts

A *text* is a list of characters, and every offset into one counts characters.
Lines end at a line feed and at nothing else.

* `Text.place`: the place of a signed offset, where a negative offset counts
  from the end;
* `Text.slice`: the characters between two signed offsets;
* `Text.searchStart`: the place where a search from a signed offset starts;
* `Text.lines`: the lines of a text, one more than it has line feeds;
* `Text.seek?`: the first place, at or after another, where a character stands.
-/

namespace EnumCompanion

/-- Source text, generated code and the identifiers in both. -/
abbrev Text := List Char

namespace Text

/-- A text as a string. -/
def str (text : Text) : String := String.ofList text

/-- Texts as a string, with a comma and a space between neighbours. -/
def listing (texts : List Text) : String := ", ".intercalate (texts.map str)

/-! ### Offsets -/

/-- The place a signed offset stands for: a negative one counts from the end,
    and neither end of the text is passed. -/
def place (text : Text) (offset : Int) : Nat :=
  min (if offset < 0 then offset + text.length else offset).toNat text.length

/-- The text before a signed offset. -/
def before (text : Text) (offset : Int) : Text := text.take (text.place offset)

/-- The characters from one signed offset up to another. -/
def slice (text : Text) (start stop : Int) : Text := (text.before stop).drop (text.place start)

/-- What keeps a signed offset from being used. -/
inductive OffsetFault where
  /-- It is that of a character before the start of the text. -/
  | beforeStart
  /-- It is that of a character and does not fit into 64 bits. -/
  | longIndex
  /-- It is the start of a search and does not fit into 64 bits. -/
  | longStart
  deriving DecidableEq

/-- Whether a signed offset fits into 64 bits. -/
def fitsWord (offset : Int) : Bool :=
  -9223372036854775808 ≤ offset && offset ≤ 9223372036854775807

/-- The place where a search from a signed offset starts: a negative one stands
    for the start of the text. -/
def searchStart (offset : Int) : Except OffsetFault Nat :=
  if fitsWord offset then .ok offset.toNat else .error .longStart

theorem place_le_length (text : Text) (offset : Int) : text.place offset ≤ text.length :=
  Nat.min_le_right _ _

theorem place_natCast (text : Text) (offset : Nat) :
    text.place offset = min offset text.length := by
  have h : ¬(offset : Int) < 0 := by omega
  simp [place, h]

/-! ### Lines -/

/-- The lines of a text, without their line feeds. -/
def lines (text : Text) : List Text := text.splitOn '\n'

/-- The text with the given lines. -/
def unlines (lines : List Text) : Text := ['\n'].intercalate lines

/-- Number of characters after the last line feed. -/
def lastLineLength (text : Text) : Nat := (text.reverse.takeWhile (· != '\n')).length

/-- The start of the line on which a text ends. -/
def lastLineStart (text : Text) : Nat := text.length - text.lastLineLength

/-! ### Search -/

/-- The first place at or after `start` at which the character `c` stands. -/
def seek? (text : Text) (c : Char) (start : Nat) : Option Nat :=
  ((text.drop start).findIdx? (· == c)).map (start + ·)

/-- The end of the line that holds the place `start`: its line feed or the end
    of the text. -/
def lineEnd (text : Text) (start : Nat) : Nat := (text.seek? '\n' start).getD text.length

/-- Whether a text holds another as a run of its characters. -/
def holds (text part : Text) : Bool :=
  match text with
  | [] => part.isEmpty
  | c :: rest => part.isPrefixOf (c :: rest) || holds rest part

/-- What follows a beginning of a text. -/
theorem isPrefixOf?_eq_some_iff {part text rest : Text} :
    part.isPrefixOf? text = some rest ↔ part ++ rest = text := by
  induction part generalizing text with
  | nil =>
    change some text = some rest ↔ rest = text
    rw [Option.some.injEq, eq_comm]
  | cons c part ih =>
    cases text with
    | nil =>
      change none = some rest ↔ c :: (part ++ rest) = []
      simp only [reduceCtorEq]
    | cons d text =>
      change (if c == d then part.isPrefixOf? text else none) = some rest ↔
        c :: (part ++ rest) = d :: text
      rw [List.cons.injEq]
      by_cases h : c = d
      · rw [if_pos (beq_of_eq h), ih, and_iff_right h]
      · rw [if_neg fun e => h (eq_of_beq e)]
        exact iff_of_false nofun fun e => h e.1

/-! ### Order -/

/-- Order by code point, first difference first; a beginning comes before what
    it begins. -/
def le : Text → Text → Bool
  | [], _ => true
  | _ :: _, [] => false
  | a :: as, b :: bs => if a = b then le as bs else decide (a.val < b.val)

/-- A list of texts in ascending order. -/
def sorted (texts : List Text) : List Text := texts.mergeSort le

end Text

end EnumCompanion
