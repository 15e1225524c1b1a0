import EnumCompanion.Text.Basic
import EnumCompanion.Text.Word

/-!
# Masking comments and literals

The *mask* of a source text has a space in place of every character of a
comment or string literal, so that brackets, commas and semicolons found in it
are code. Line feeds stay, and no offset moves.

Block comments nest. A literal stands between single quotes or double quotes,
one or three at each end. In a *raw* literal, one marked by an `r` or `R` that
no alphanumeric character precedes, a backslash is a character like others;
elsewhere it hides the character after it. A literal with one quote ends at its
line at the latest.

The text is read one character at a time by a machine whose state is a `Mode`,
with one character of look-ahead: a slash opens a comment by what follows it.

* `Mode.resume?`: when a character is read as code;
* `codeStep`, `Mode.absorb`: the mode after a character of code, and after one
  of a comment or literal;
* `maskFrom`, `Text.masked`: the mask of a text.
-/

namespace EnumCompanion

open Text

namespace Mask

/-- What the characters before a place of code make of a quote there. -/
inductive Trail where
  /-- Nothing alphanumeric stands before. -/
  | clear
  /-- An alphanumeric character stands before. -/
  | word
  /-- A mark of a raw literal stands before. -/
  | rawMark
  deriving DecidableEq

/-- The trail behind one more character of code. -/
def Trail.next (trail : Trail) (c : Char) : Trail :=
  if (c = 'r' ∨ c = 'R') ∧ trail = .clear then .rawMark
  else if isAlnum c then .word
  else .clear

/-- The half of a comment delimiter that was just read. -/
inductive Half where
  /-- No half. -/
  | none
  /-- The slash of `/*`. -/
  | slash
  /-- The star of `*/`. -/
  | star
  deriving DecidableEq

/-- How far a literal has been read. -/
inductive Progress where
  /-- One quote. -/
  | opened
  /-- Two quotes: an empty literal, unless a third one follows. -/
  | doubled
  /-- Between single delimiters. -/
  | inside
  /-- Between single delimiters, behind a backslash. -/
  | escaped
  /-- Between triple delimiters, behind a run of `quotes` quotes. -/
  | triple (quotes : Nat)
  /-- Between triple delimiters, behind a backslash. -/
  | tripleEscaped
  deriving DecidableEq

/-- The state of the machine between two characters. -/
inductive Mode where
  /-- In code. -/
  | code (trail : Trail)
  /-- In a line comment. -/
  | lineComment
  /-- In block comments nested to a depth. -/
  | blockComment (depth : Nat) (half : Half)
  /-- In a literal. -/
  | literal (quote : Char) (raw : Bool) (progress : Progress)
  deriving DecidableEq

/-- The mode after a character of code, where `next` is the one after it. -/
def codeStep (trail : Trail) (c : Char) (next : Option Char) : Mode :=
  if c = '/' ∧ next = some '/' then .lineComment
  -- The star that follows is read with the slash before it, and makes the depth 1.
  else if c = '/' ∧ next = some '*' then .blockComment 0 .slash
  else if c = '\'' ∨ c = '"' then .literal c (trail = .rawMark) .opened
  else .code (trail.next c)

namespace Mode

/-- Whether the mode is that of code. -/
def isCode : Mode → Bool
  | code _ => true
  | _ => false

/-- The trail with which a character is read as code, if it is. A line comment
    and an unfinished literal give way to code at the end of their line, an
    empty literal behind its second quote. -/
def resume? : Mode → Char → Option Trail
  | code trail, _ => some trail
  | lineComment, c => if c = '\n' then some .clear else none
  | blockComment _ _, _ => none
  | literal _ _ .opened, c => if c = '\n' then some .clear else none
  | literal _ _ .inside, c => if c = '\n' then some .clear else none
  | literal quote _ .doubled, c => if c = quote then none else some .clear
  | literal _ _ _, _ => none

/-- The mode after a character of a block comment. -/
def absorbComment (depth : Nat) : Half → Char → Mode
  | .slash, '*' => blockComment (depth + 1) .none
  | .star, '/' => if depth ≤ 1 then code .clear else blockComment (depth - 1) .none
  | _, '/' => blockComment depth .slash
  | _, '*' => blockComment depth .star
  | _, _ => blockComment depth .none

/-- The mode after a character between single delimiters. -/
def absorbSingle (quote : Char) (raw : Bool) (c : Char) : Mode :=
  if c = '\\' ∧ raw = false then literal quote raw .escaped
  else if c = quote then code .clear
  else literal quote raw .inside

/-- The mode after a character between triple delimiters. -/
def absorbTriple (quote : Char) (raw : Bool) (quotes : Nat) (c : Char) : Mode :=
  if c = '\\' ∧ raw = false then literal quote raw .tripleEscaped
  else if c = quote then
    if quotes = 2 then code .clear else literal quote raw (.triple (quotes + 1))
  else literal quote raw (.triple 0)

/-- The mode after a character that is not read as code. -/
def absorb : Mode → Char → Mode
  | code trail, _ => code trail
  | lineComment, _ => lineComment
  | blockComment depth half, c => absorbComment depth half c
  | literal quote raw .opened, c =>
    if c = quote then literal quote raw .doubled else absorbSingle quote raw c
  | literal quote raw .doubled, _ => literal quote raw (.triple 0)
  | literal quote raw .inside, c => absorbSingle quote raw c
  | literal quote raw .escaped, _ => literal quote raw .inside
  | literal quote raw (.triple quotes), c => absorbTriple quote raw quotes c
  | literal quote raw .tripleEscaped, _ => literal quote raw (.triple 0)

/-- The mode after a character. -/
def step (mode : Mode) (c : Char) (next : Option Char) : Mode :=
  match mode.resume? c with
  | some trail => codeStep trail c next
  | none => mode.absorb c

/-- Whether a character is code: it is read as code and opens neither a comment
    nor a literal. -/
def shows (mode : Mode) (c : Char) (next : Option Char) : Bool :=
  (mode.resume? c).any fun trail => (codeStep trail c next).isCode

end Mode

/-- What stands for a character of a comment or literal. -/
def blanked (c : Char) : Char := if c = '\n' then '\n' else ' '

/-- The mask of a text that is entered in a mode. -/
def maskFrom (mode : Mode) : Text → Text
  | [] => []
  | c :: rest =>
    (if mode.shows c rest.head? then c else blanked c) :: maskFrom (mode.step c rest.head?) rest

@[simp] theorem length_maskFrom (mode : Mode) (text : Text) :
    (maskFrom mode text).length = text.length := by
  induction text generalizing mode with
  | nil => rfl
  | cons c rest ih => simp [maskFrom, ih]

end Mask

/-- A text with its comments and literals blanked out. -/
def Text.masked (text : Text) : Text := Mask.maskFrom (.code .clear) text

@[simp] theorem Text.length_masked (text : Text) : text.masked.length = text.length :=
  Mask.length_maskFrom _ text

end EnumCompanion
