import EnumCompanion.Text.Blank
import EnumCompanion.Text.Identifier
import EnumCompanion.Text.Word

/-!
# Bodies of enum declarations

The body of a declaration stands between its braces, and its value list is what
comes before the first semicolon outside every bracket. Each entry of the list
gives one *token*: its text outside every bracket, without annotations, up to
the first dot and stripped of blanks. Entries without a token, such as the one
behind a trailing comma, are left out.

A less-than sign is a bracket only outside argument lists, and a closing bracket
that matches no open one is dropped.

* `closingBrace?`: the brace that closes the one at a place;
* `topLevel`: what of the value list stands outside every bracket;
* `withoutAnnotations`: annotations replaced by a space;
* `valueTokens`: the tokens of a body.
-/

namespace EnumCompanion

open Text

/-! ### Braces -/

/-- The distance of the brace that brings the depth back to zero. -/
def closingBraceFrom (depth : Int) : Text → Option Nat
  | [] => none
  | c :: rest =>
    if c = '{' then (closingBraceFrom (depth + 1) rest).map (· + 1)
    else if c = '}' then
      if depth = 1 then some 0 else (closingBraceFrom (depth - 1) rest).map (· + 1)
    else (closingBraceFrom depth rest).map (· + 1)

/-- The place of the brace that closes the one at `start` in masked text. -/
def closingBrace? (masked : Text) (start : Nat) : Option Nat :=
  (closingBraceFrom 0 (masked.drop start)).map (start + ·)

/-- The offset of the brace that closes the one at a signed offset. From a
    negative one, counted from the end, the search goes on at the start of the
    text. -/
def closingBraceAt (masked : Text) (start : Int) : Except OffsetFault (Option Int) :=
  if 0 ≤ start then .ok ((closingBrace? masked start.toNat).map Int.ofNat)
  else if !fitsWord start then .error .longIndex
  else if start + masked.length < 0 then .error .beforeStart
  else .ok ((closingBraceFrom 0 (masked.drop (masked.place start) ++ masked)).map (start + ·))

/-! ### The value list -/

/-- The bracket that closes an opening one. -/
def closer? : Char → Option Char
  | '(' => some ')'
  | '[' => some ']'
  | '{' => some '}'
  | '<' => some '>'
  | _ => none

/-- The closing brackets. -/
def isCloser (c : Char) : Bool := c ∈ [')', ']', '}', '>']

/-- What of a value list stands outside every bracket, where `awaited` holds
    the closers of the open brackets, the innermost first. -/
def topLevelFrom (awaited : Text) : Text → Text
  | [] => []
  | c :: rest =>
    if c = ';' ∧ awaited = [] then []
    else match closer? c with
      | some closer =>
        -- In an argument list this is the sign of a comparison.
        if c = '<' ∧ awaited ≠ [] ∧ awaited.head? ≠ some '>' then topLevelFrom awaited rest
        else topLevelFrom (closer :: awaited) rest
      | none =>
        if isCloser c then
          topLevelFrom (if awaited.head? = some c then awaited.tail else awaited) rest
        else if awaited = [] then c :: topLevelFrom awaited rest
        else topLevelFrom awaited rest

/-- What of the value list of a body stands outside every bracket. -/
def topLevel (body : Text) : Text := topLevelFrom [] body

/-! ### Tokens -/

/-- The characters that continue the name of an annotation. -/
def isAnnotationChar (c : Char) : Bool := isWordChar c || c == '.'

/-- A text with a space for each annotation, entered within one or not. -/
def withoutAnnotationsFrom (within : Bool) : Text → Text
  | [] => []
  | c :: rest =>
    if within && isAnnotationChar c then withoutAnnotationsFrom true rest
    else if c = '@' ∧ rest.head?.any isNameStart then ' ' :: withoutAnnotationsFrom true rest
    else c :: withoutAnnotationsFrom false rest

/-- A text with a space for each annotation: an at sign, a letter or underscore,
    and the word characters and dots that follow. -/
def withoutAnnotations (text : Text) : Text := withoutAnnotationsFrom false text

/-- The token of an entry, empty if it has none. -/
def entryToken (entry : Text) : Text := strip (entry.takeWhile (· != '.'))

/-- The tokens of a body, as written. -/
def valueTokens (body : Text) : List Text :=
  (((withoutAnnotations (topLevel body)).splitOn ',').map entryToken).filter (· ≠ [])

end EnumCompanion
