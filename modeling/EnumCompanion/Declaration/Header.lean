import EnumCompanion.Text.Blank
import EnumCompanion.Text.Identifier
import EnumCompanion.Text.Word

/-!
# Headers of enum declarations

In masked text a declaration is *mentioned* where the word `enum`, blanks and a
type name follow one another. Type parameters, mixins and interfaces may come
next. The mention is a *header* when, of the characters that can end it and of
further words `enum`, an opening brace comes first.

* `mention?`: the name mentioned at the head of a text;
* `braceAhead?`: the distance of the brace that ends a header;
* `headers`: the headers of a text, in order;
* `firstHeader?`: the first of them at or after a place.
-/

namespace EnumCompanion

open Text

/-- The place of a header in masked text. -/
structure Header where
  /-- The name of the enum. -/
  name : Text
  /-- The place of the keyword. -/
  start : Nat
  /-- The place of the opening brace. -/
  brace : Nat
  /-- The name is that of a type. -/
  isTypeName_name : isTypeName name = true

namespace Header

/-- The keyword of a declaration. -/
def keyword : Text := ['e', 'n', 'u', 'm']

/-- Whether the keyword stands at the head of a text as a whole word, where
    `previous` is the character before the text. -/
def keywordAt (previous : Option Char) (text : Text) : Bool :=
  !previous.any isWordChar &&
    (keyword.isPrefixOf? text).any fun rest => !rest.head?.any isWordChar

/-- The type name at the head of a text, as a whole word, and what follows. -/
def nameAt? : Text → Option ({ name : Text // isTypeName name = true } × Text)
  | [] => none
  | c :: rest =>
    if h : c.isUpper then
      -- A letter beyond ASCII goes on with the word, which is then no name.
      if (rest.dropWhile isNameChar).head?.any isWordChar then none
      else
        some (⟨c :: rest.takeWhile isNameChar, by simp [isTypeName, h]⟩, rest.dropWhile isNameChar)
    else none

/-- The name mentioned at the head of a text, and what follows the mention. -/
def mention? (previous : Option Char) (text : Text) :
    Option ({ name : Text // isTypeName name = true } × Text) :=
  if previous.any isWordChar then none
  else do
    let rest ← keyword.isPrefixOf? text
    if rest.head?.any isBlank then nameAt? (rest.dropWhile isBlank) else none

/-- The characters other than an opening brace that end a header. -/
def closesHeader (c : Char) : Bool := c ∈ ['}', ';', '(', ')', '=']

/-- The distance of the opening brace, unless something else that ends a header
    comes first. -/
def braceAhead? (previous : Option Char) : Text → Option Nat
  | [] => none
  | c :: rest =>
    if c = '{' then some 0
    else if closesHeader c || keywordAt previous (c :: rest) then none
    else (braceAhead? (some c) rest).map (· + 1)

/-- The header at the head of a text that starts at `offset`. -/
def headerAt? (previous : Option Char) (offset : Nat) (text : Text) : Option Header := do
  let (⟨name, isTypeName_name⟩, rest) ← mention? previous text
  let distance ← braceAhead? name.getLast? rest
  return { name, isTypeName_name, start := offset,
           brace := offset + (text.length - rest.length) + distance }

/-- The headers of a text that starts at `offset`. -/
def headersFrom (previous : Option Char) (offset : Nat) : Text → List Header
  | [] => []
  | c :: rest =>
    (headerAt? previous offset (c :: rest)).toList ++ headersFrom (some c) (offset + 1) rest

end Header

/-- The headers of a masked text, in the order of their keywords. -/
def headers (masked : Text) : List Header := Header.headersFrom none 0 masked

/-- The first header whose keyword stands at or after a place. -/
def firstHeader? (masked : Text) (position : Nat) : Option Header :=
  (headers masked).find? fun header => position ≤ header.start

end EnumCompanion
