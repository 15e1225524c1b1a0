import EnumCompanion.Declaration.Body
import EnumCompanion.Mask
import EnumCompanion.Span

/-!
# Blocks

In masked text a *block* is mentioned where the word `extension` or `class`,
blanks and the name of the block follow one another. It reaches from there to
the closing brace of the first brace behind the mention, and takes in the blanks
before it and behind it on its lines if nothing else is there.

* `Block.mention?`: what follows a mention at the head of a text;
* `Block.first?`: the first mention of a name at or behind a place;
* `findBlock?`: the span of the block that is mentioned first.
-/

namespace EnumCompanion

open Text

namespace Block

/-- The words before the name of a block. -/
def keywords : List Text := ["extension".toList, "class".toList]

/-- What follows a name at the head of a text, if a word starts or ends behind
    it, where `previous` is the character before the text. -/
def nameHere? (name : Text) (previous : Char) (text : Text) : Option Text := do
  let rest ← name.isPrefixOf? text
  if isBoundary (previous :: name).getLast? rest.head? then some rest else none

/-- What follows a name behind as many blanks as can stand before it, where
    `previous` is a blank before the text. -/
def nameBehindBlanks? (name : Text) (previous : Char) : Text → Option Text
  | [] => nameHere? name previous []
  | c :: rest =>
    (if isBlank c then nameBehindBlanks? name c rest else none) <|>
      nameHere? name previous (c :: rest)

/-- What follows a keyword, blanks and a name at the head of a text. -/
def keywordMention? (name keyword text : Text) : Option Text :=
  match keyword.isPrefixOf? text with
  | some (c :: rest) => if isBlank c then nameBehindBlanks? name c rest else none
  | _ => none

/-- What follows a mention of a name at the head of a text, where `previous` is
    the character before the text. -/
def mention? (name : Text) (previous : Option Char) (text : Text) : Option Text :=
  if previous.any isWordChar then none
  else keywords.findSome? fun keyword => keywordMention? name keyword text

/-- The places of the start and the end of the first mention at or behind
    `start` in a text that starts at `offset`. -/
def firstFrom? (name : Text) (start : Nat) (previous : Option Char) (offset : Nat) :
    Text → Option (Nat × Nat)
  | [] => none
  | c :: rest =>
    match if start ≤ offset then mention? name previous (c :: rest) else none with
    | some behind => some (offset, offset + ((c :: rest).length - behind.length))
    | none => firstFrom? name start (some c) (offset + 1) rest

/-- The places of the start and the end of the first mention at or behind a
    place of masked text. -/
def first? (masked name : Text) (start : Nat) : Option (Nat × Nat) :=
  firstFrom? name start none 0 masked

/-- A place, moved to the start of its line if only blanks stand between. -/
def widenedStart (text : Text) (start : Nat) : Nat :=
  let line : Text := text.take start
  let lineStart := line.lastLineStart
  if isBlankText (line.drop lineStart) then lineStart else start

/-- A place, moved to the end of its line if only blanks stand between. -/
def widenedStop (text : Text) (stop : Nat) : Nat :=
  let lineEnd := text.lineEnd stop
  if isBlankText ((text.take lineEnd).drop stop) then lineEnd else stop

end Block

/-- The span of the block of a name that is mentioned first at or behind a
    place. -/
def findBlock? (text name : Text) (start : Nat) : Option Span := do
  let masked := text.masked
  let (first, behind) ← Block.first? masked name start
  let brace ← masked.seek? '{' behind
  let close ← closingBrace? masked brace
  return .ofOffsets text (Block.widenedStart text first) (Block.widenedStop text (close + 1))

end EnumCompanion
