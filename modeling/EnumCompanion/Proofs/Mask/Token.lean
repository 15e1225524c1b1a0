import EnumCompanion.Proofs.Text.Characters
import EnumCompanion.Text.Basic
import Mathlib.Data.Nat.Find

/-!
# The tokens of source text

Source text is a row of *tokens*: line comments, block comments, which nest,
string literals, and single characters of code. What is a token at a place is
said here by rules of its own, without any machine; a rule looks at the text
before the place, where a literal may be marked as a raw one, and at the text
behind the token, where it may go on.

Where several tokens may stand the longest one does. So each text is cut into
tokens in one way only.

* `Comment`, `Content`: what stands within a block comment and within a literal;
* `Token.Stands`: the tokens that may stand between two texts;
* `Token.Munches`: the longest of them;
* `Segments`: the texts that are cut into tokens from left to right;
* `exists_segments`, `Segments.unique`: there is one way to do so.
-/

namespace EnumCompanion.Mask

open Text

/-! ### Comments -/

/-- What stands within a block comment, where another text follows: block
    comments and characters that start no delimiter of one. -/
inductive Comment : Text → Text → Prop
  | nil (behind : Text) : Comment [] behind
  | char {c : Char} {inner behind : Text} (hopen : ¬['/', '*'] <+: c :: (inner ++ behind))
    (hclose : ¬['*', '/'] <+: c :: (inner ++ behind)) (h : Comment inner behind) :
    Comment (c :: inner) behind
  | nested {inner rest behind : Text} (h : Comment inner ('*' :: '/' :: (rest ++ behind)))
    (hrest : Comment rest behind) :
    Comment ('/' :: '*' :: (inner ++ '*' :: '/' :: rest)) behind
  | unclosed {inner : Text} (h : Comment inner []) : Comment ('/' :: '*' :: inner) []

/-- More text behind changes nothing, if what stands there is not empty. -/
theorem Comment.append {inner behind : Text} (h : Comment inner behind) (hne : behind ≠ [])
    (more : Text) : Comment inner (behind ++ more) := by
  induction h with
  | nil => exact .nil _
  | @char c inner behind hopen hclose _ ih =>
    have hlength : 2 ≤ (c :: (inner ++ behind)).length := by
      have := List.length_pos_of_ne_nil hne
      rw [List.length_cons, List.length_append]
      omega
    -- A delimiter has two characters, and so many stand before the text.
    have hdelimiter : ∀ a b : Char, ¬[a, b] <+: c :: (inner ++ behind) →
        ¬[a, b] <+: c :: (inner ++ (behind ++ more)) := fun a b hnot h => by
      rw [← List.append_assoc, ← List.cons_append] at h
      exact hnot (List.prefix_of_prefix_length_le h (List.prefix_append _ more) hlength)
    exact .char (hdelimiter _ _ hopen) (hdelimiter _ _ hclose) (ih hne)
  | @nested inner rest behind _ _ ihinner ihrest =>
    refine .nested ?_ (ihrest hne)
    rw [← List.append_assoc]
    exact ihinner (List.cons_ne_nil _ _)
  | unclosed => exact absurd rfl hne

/-- Every text starts with what stands within a comment: all of it, or what
    comes before a delimiter that closes the comment. -/
theorem exists_comment (text : Text) : ∃ inner behind, text = inner ++ behind ∧
    Comment inner behind ∧ (behind = [] ∨ ['*', '/'] <+: behind) := by
  induction hlength : text.length using Nat.strong_induction_on generalizing text with
  | _ length ih =>
    by_cases hclose : ['*', '/'] <+: text
    · exact ⟨[], text, rfl, .nil text, .inr hclose⟩
    by_cases hopen : ['/', '*'] <+: text
    · -- A comment within, and what follows it if it is closed.
      obtain ⟨rest, rfl⟩ := hopen
      have hrest : rest.length < length := by
        rw [← hlength, List.length_append]
        exact Nat.lt_add_of_pos_left Nat.two_pos
      obtain ⟨inner, behind, rfl, hinner, rfl | ⟨more, rfl⟩⟩ := ih rest.length hrest rest rfl
      · exact ⟨'/' :: '*' :: inner, [], by simp, .unclosed hinner, .inl rfl⟩
      · have hmore : more.length < length := by
          rw [List.length_append, List.length_append] at hrest
          omega
        obtain ⟨rest, behind, rfl, hrest, hends⟩ := ih more.length hmore more rfl
        exact ⟨'/' :: '*' :: (inner ++ '*' :: '/' :: rest), behind, by simp, .nested hinner hrest,
          hends⟩
    · cases text with
      | nil => exact ⟨[], [], rfl, .nil [], .inl rfl⟩
      | cons c text =>
        obtain ⟨inner, behind, rfl, hinner, hends⟩ :=
          ih text.length (hlength ▸ Nat.lt_succ_self _) text rfl
        exact ⟨c :: inner, behind, rfl, .char hopen hclose hinner, hends⟩

/-! ### Literals -/

/-- What opens and closes a literal: one quote or three. -/
def delimiter (quote : Char) (triple : Bool) : Text :=
  if triple then [quote, quote, quote] else [quote]

/-- What stands within a literal, where another text follows: characters that
    neither start the delimiter nor, on one line, end it, and outside raw
    literals a backslash with the character that it hides. -/
inductive Content (raw : Bool) (quote : Char) (triple : Bool) : Text → Text → Prop
  | nil (behind : Text) : Content raw quote triple [] behind
  | escape {c : Char} {content behind : Text} (hraw : raw = false)
    (h : Content raw quote triple content behind) :
    Content raw quote triple ('\\' :: c :: content) behind
  | backslash (hraw : raw = false) : Content raw quote triple ['\\'] []
  | char {c : Char} {content behind : Text} (hback : c = '\\' → raw = true)
    (hfeed : c = '\n' → triple = true)
    (hclose : ¬delimiter quote triple <+: c :: (content ++ behind))
    (h : Content raw quote triple content behind) : Content raw quote triple (c :: content) behind

/-- Where a literal that is not closed ends: with the text, or with the line. -/
def EndsLiteral (triple : Bool) (behind : Text) : Prop :=
  behind = [] ∨ triple = false ∧ behind.head? = some '\n'

/-- Every text starts with what stands within a literal, before its delimiter or
    where a literal that is not closed ends. -/
theorem exists_content (raw : Bool) (quote : Char) (triple : Bool) (text : Text) :
    ∃ content behind, text = content ++ behind ∧ Content raw quote triple content behind ∧
      (EndsLiteral triple behind ∨ delimiter quote triple <+: behind) := by
  induction hlength : text.length using Nat.strong_induction_on generalizing text with
  | _ length ih =>
    rcases text with _ | ⟨c, text⟩
    · exact ⟨[], [], rfl, .nil [], .inl (.inl rfl)⟩
    have hrest := ih text.length (hlength ▸ Nat.lt_succ_self _) text rfl
    by_cases hclose : delimiter quote triple <+: c :: text
    · exact ⟨[], c :: text, rfl, .nil _, .inr hclose⟩
    by_cases hfeed : c = '\n' → triple = true
    · by_cases hback : c = '\\' → raw = true
      · obtain ⟨content, behind, rfl, h, hends⟩ := hrest
        exact ⟨c :: content, behind, rfl, .char hback hfeed hclose h, hends⟩
      · -- A backslash, with the character behind it if there is one.
        obtain ⟨rfl, hraw⟩ := Classical.not_imp.1 hback
        rw [Bool.not_eq_true] at hraw
        rcases text with _ | ⟨d, text⟩
        · exact ⟨['\\'], [], rfl, .backslash hraw, .inl (.inl rfl)⟩
        · have hlt : text.length < length := by
            rw [← hlength, List.length_cons, List.length_cons]
            omega
          obtain ⟨content, behind, rfl, h, hends⟩ := ih text.length hlt text rfl
          exact ⟨'\\' :: d :: content, behind, rfl, .escape hraw h, hends⟩
    · obtain ⟨rfl, htriple⟩ := Classical.not_imp.1 hfeed
      exact ⟨[], _, rfl, .nil _, .inl (.inr ⟨by simpa using htriple, rfl⟩)⟩

/-! ### Tokens -/

/-- The kinds of tokens. -/
inductive Token.Kind where
  /-- A character of code. -/
  | plain
  /-- A comment up to the end of its line. -/
  | lineComment
  /-- A comment between delimiters. -/
  | blockComment
  /-- A string literal. -/
  | literal
  deriving DecidableEq

/-- A token of source text. -/
structure Token where
  /-- What it is. -/
  kind : Token.Kind
  /-- Its characters. -/
  lexeme : Text
  deriving DecidableEq

/-- Whether a text marks a literal behind it as a raw one: it ends with the
    letter `r` in either case, and no alphanumeric character before it. -/
def MarksRaw (before : Text) : Prop :=
  ∃ front mark, before = front ++ [mark] ∧ (mark = 'r' ∨ mark = 'R') ∧
    front.getLast?.any isAlnum = false

namespace Token

/-- The tokens that may stand between two texts. -/
inductive Stands (before : Text) : Token → Text → Prop
  | plain {c : Char} {behind : Text} (hquote : c ≠ '\'' ∧ c ≠ '"') :
    Stands before ⟨.plain, [c]⟩ behind
  | lineComment {body behind : Text} (hbody : '\n' ∉ body)
    (hends : behind = [] ∨ behind.head? = some '\n') :
    Stands before ⟨.lineComment, '/' :: '/' :: body⟩ behind
  | closedComment {inner behind : Text} (hinner : Comment inner ('*' :: '/' :: behind)) :
    Stands before ⟨.blockComment, '/' :: '*' :: (inner ++ ['*', '/'])⟩ behind
  | openComment {inner : Text} (hinner : Comment inner []) :
    Stands before ⟨.blockComment, '/' :: '*' :: inner⟩ []
  | closedLiteral {quote : Char} {raw triple : Bool} {content behind : Text}
    (hquote : quote = '\'' ∨ quote = '"') (hraw : raw = true ↔ MarksRaw before)
    (hcontent : Content raw quote triple content (delimiter quote triple ++ behind)) :
    Stands before ⟨.literal, delimiter quote triple ++ (content ++ delimiter quote triple)⟩ behind
  | openLiteral {quote : Char} {raw triple : Bool} {content behind : Text}
    (hquote : quote = '\'' ∨ quote = '"') (hraw : raw = true ↔ MarksRaw before)
    (hcontent : Content raw quote triple content behind) (hends : EndsLiteral triple behind) :
    Stands before ⟨.literal, delimiter quote triple ++ content⟩ behind

/-- The longest of the tokens that may stand at a place. -/
structure Munches (before : Text) (token : Token) (behind : Text) : Prop where
  stands : token.Stands before behind
  longest : ∀ (other : Token) (rest : Text), other.Stands before rest →
    other.lexeme ++ rest = token.lexeme ++ behind → other.lexeme.length ≤ token.lexeme.length

/-- A token that does not go on behind it: no slash that starts a comment there,
    and no two quotes that start a triple delimiter. -/
def IsWhole (token : Token) (behind : Text) : Prop :=
  (token.lexeme = ['/'] → behind.head? ≠ some '/' ∧ behind.head? ≠ some '*') ∧
    (token.lexeme ∈ [['\'', '\''], ['"', '"']] → behind.head? ≠ token.lexeme.head?)

instance (token : Token) (behind : Text) : Decidable (token.IsWhole behind) :=
  inferInstanceAs (Decidable (_ ∧ _))

variable {before behind : Text} {token : Token}

/-- The kind of a token, by the characters that it starts with. -/
def kindOf : Text → Kind
  | '/' :: '/' :: _ => .lineComment
  | '/' :: '*' :: _ => .blockComment
  | '\'' :: _ => .literal
  | '"' :: _ => .literal
  | _ => .plain

theorem exists_delimiter_eq (quote : Char) (triple : Bool) :
    ∃ quotes, delimiter quote triple = quote :: quotes := by
  cases triple <;> exact ⟨_, rfl⟩

theorem kindOf_delimiter_append {quote : Char} (hquote : quote = '\'' ∨ quote = '"')
    (triple : Bool) (rest : Text) : kindOf (delimiter quote triple ++ rest) = .literal := by
  obtain ⟨quotes, hquotes⟩ := exists_delimiter_eq quote triple
  rw [hquotes]
  rcases hquote with rfl | rfl <;> rfl

/-- The characters of a token tell its kind. -/
theorem Stands.kind_eq (h : token.Stands before behind) : token.kind = kindOf token.lexeme := by
  cases h with
  | plain hquote =>
    unfold kindOf
    split <;> simp_all
  | lineComment => rfl
  | closedComment => rfl
  | openComment => rfl
  | closedLiteral hquote => exact (kindOf_delimiter_append hquote _ _).symm
  | openLiteral hquote => exact (kindOf_delimiter_append hquote _ _).symm

theorem Stands.lexeme_ne_nil (h : token.Stands before behind) : token.lexeme ≠ [] := by
  cases h with
  | plain | lineComment | closedComment | openComment => exact List.cons_ne_nil _ _
  | @closedLiteral quote _ triple | @openLiteral quote _ triple =>
    obtain ⟨quotes, hquotes⟩ := exists_delimiter_eq quote triple
    rw [hquotes]
    exact List.cons_ne_nil _ _

/-- A literal of either kind stands wherever its delimiter does. -/
theorem exists_stands_literal (before : Text) {quote : Char} (hquote : quote = '\'' ∨ quote = '"')
    (triple : Bool) (text : Text) : ∃ (token : Token) (behind : Text),
      token.Stands before behind ∧ delimiter quote triple ++ text = token.lexeme ++ behind ∧
        (delimiter quote triple).length ≤ token.lexeme.length := by
  classical
  have hraw : decide (MarksRaw before) = true ↔ MarksRaw before := decide_eq_true_iff
  obtain ⟨content, behind, rfl, hcontent, hends | ⟨behind, rfl⟩⟩ :=
    exists_content (decide (MarksRaw before)) quote triple text
  · exact ⟨_, behind, .openLiteral hquote hraw hcontent hends, by simp, by simp⟩
  · exact ⟨_, behind, .closedLiteral hquote hraw hcontent, by simp, by simp⟩

/-- A block comment stands wherever its delimiter does. -/
theorem exists_stands_comment (before text : Text) : ∃ (token : Token) (behind : Text),
    token.Stands before behind ∧ '/' :: '*' :: text = token.lexeme ++ behind ∧
      2 ≤ token.lexeme.length := by
  obtain ⟨inner, behind, rfl, hinner, rfl | ⟨behind, rfl⟩⟩ := exists_comment text
  · exact ⟨_, [], .openComment hinner, by simp, by simp⟩
  · exact ⟨_, behind, .closedComment hinner, by simp, by simp⟩

/-- A line comment stands wherever its slashes do. -/
theorem exists_stands_line (before text : Text) : ∃ (token : Token) (behind : Text),
    token.Stands before behind ∧ '/' :: '/' :: text = token.lexeme ++ behind ∧
      2 ≤ token.lexeme.length := by
  refine ⟨⟨.lineComment, '/' :: '/' :: text.takeWhile (· != '\n')⟩, text.dropWhile (· != '\n'),
    .lineComment (fun hmem => ?_) ?_, by simp, by simp⟩
  · exact absurd (of_mem_takeWhile hmem) (by decide)
  · have hhead := @head?_dropWhile_any (· != '\n') text
    cases hrest : text.dropWhile (· != '\n') with
    | nil => exact .inl rfl
    | cons c rest =>
      rw [hrest] at hhead
      exact .inr (congrArg some (by simpa using hhead))

/-- The longest token does not go on behind it. -/
theorem Munches.isWhole (h : token.Munches before behind) : token.IsWhole behind := by
  -- A longer token would stand in its place.
  have hlonger : ∀ {d : Char}, behind.head? = some d →
      ¬∃ (other : Token) (rest : Text), other.Stands before rest ∧
        token.lexeme ++ d :: behind.tail = other.lexeme ++ rest ∧
          token.lexeme.length < other.lexeme.length := by
    rintro d hd ⟨other, rest, hstands, htext, hlong⟩
    obtain ⟨more, rfl⟩ := List.head?_eq_some_iff.1 hd
    exact absurd (h.longest other rest hstands htext.symm) (Nat.not_le.2 hlong)
  constructor
  · intro hslash
    rw [hslash] at hlonger
    exact ⟨fun hd => hlonger hd (exists_stands_line before _),
      fun hd => hlonger hd (exists_stands_comment before _)⟩
  · intro hquotes hd
    rcases List.mem_cons.1 hquotes with hquotes | hquotes
    · rw [hquotes] at hlonger hd
      exact hlonger hd (exists_stands_literal before (.inl rfl) true _)
    · rw [List.mem_singleton.1 hquotes] at hlonger hd
      exact hlonger hd (exists_stands_literal before (.inr rfl) true _)

/-- A token stands at the head of every text that is not empty. -/
theorem exists_stands (before : Text) {text : Text} (hne : text ≠ []) :
    ∃ (token : Token) (behind : Text), token.Stands before behind ∧
      text = token.lexeme ++ behind := by
  obtain ⟨c, text, rfl⟩ := List.exists_cons_of_ne_nil hne
  by_cases hquote : c = '\'' ∨ c = '"'
  · obtain ⟨token, behind, hstands, htext, -⟩ := exists_stands_literal before hquote false text
    exact ⟨token, behind, hstands, htext⟩
  · exact ⟨⟨.plain, [c]⟩, text, .plain (not_or.1 hquote), rfl⟩

/-- So there is a longest one. -/
theorem exists_munches (before : Text) {text : Text} (hne : text ≠ []) :
    ∃ (token : Token) (behind : Text), token.Munches before behind ∧
      text = token.lexeme ++ behind := by
  classical
  let Fits (n : Nat) : Prop := ∃ (token : Token) (behind : Text), token.Stands before behind ∧
    text = token.lexeme ++ behind ∧ token.lexeme.length = n
  have hle : ∀ {token : Token} {behind : Text}, text = token.lexeme ++ behind →
      token.lexeme.length ≤ text.length := fun htext => by
    rw [htext, List.length_append]
    exact Nat.le_add_right _ _
  obtain ⟨token, behind, hstands, htext⟩ := exists_stands before hne
  obtain ⟨token, behind, hstands, htext, hlength⟩ : Fits (Nat.findGreatest Fits text.length) :=
    Nat.findGreatest_spec (hle htext) ⟨token, behind, hstands, htext, rfl⟩
  refine ⟨token, behind, ⟨hstands, fun other rest hother hrest => ?_⟩, htext⟩
  have hrest := htext.trans hrest.symm
  rw [hlength]
  exact Nat.le_findGreatest (hle hrest) ⟨other, rest, hother, hrest, rfl⟩

/-- There is only one. -/
theorem Munches.unique {other : Token} {rest : Text} (h : token.Munches before behind)
    (hother : other.Munches before rest) (htext : token.lexeme ++ behind = other.lexeme ++ rest) :
    token = other ∧ behind = rest := by
  have hlength : token.lexeme.length = other.lexeme.length :=
    Nat.le_antisymm (hother.longest _ _ h.stands htext) (h.longest _ _ hother.stands htext.symm)
  obtain ⟨hlexeme, hrest⟩ := List.append_inj htext hlength
  have hkind := h.stands.kind_eq.trans ((congrArg kindOf hlexeme).trans hother.stands.kind_eq.symm)
  cases token
  cases other
  exact ⟨congrArg₂ Token.mk hkind hlexeme, hrest⟩

end Token

/-! ### Segmentation -/

/-- A text that is cut into tokens from left to right, each the longest at its
    place, where another text stands before it. -/
inductive Segments : Text → List Token → Text → Prop
  | nil (before : Text) : Segments before [] []
  | cons {before rest : Text} {token : Token} {tokens : List Token}
    (htoken : token.Munches before rest) (hrest : Segments (before ++ token.lexeme) tokens rest) :
    Segments before (token :: tokens) (token.lexeme ++ rest)

variable {before text : Text} {tokens : List Token}

/-- The tokens of a text are all of it. -/
theorem Segments.flatMap_lexeme (h : Segments before tokens text) :
    tokens.flatMap Token.lexeme = text := by
  induction h with
  | nil => rfl
  | cons _ _ ih => rw [List.flatMap_cons, ih]

theorem exists_segments (before text : Text) : ∃ tokens, Segments before tokens text := by
  induction hlength : text.length using Nat.strong_induction_on generalizing before text with
  | _ length ih =>
    by_cases hne : text = []
    · exact ⟨[], hne ▸ .nil before⟩
    · obtain ⟨token, rest, htoken, rfl⟩ := Token.exists_munches before hne
      have hpos := List.length_pos_iff.2 htoken.stands.lexeme_ne_nil
      rw [List.length_append] at hlength
      obtain ⟨tokens, htokens⟩ := ih rest.length (by omega) (before ++ token.lexeme) rest rfl
      exact ⟨token :: tokens, .cons htoken htokens⟩

theorem Segments.unique (h : Segments before tokens text) {others : List Token}
    (hothers : Segments before others text) : others = tokens := by
  induction h generalizing others with
  | nil =>
    generalize htext : ([] : Text) = text at hothers
    cases hothers with
    | nil => rfl
    | cons htoken =>
      exact absurd (List.append_eq_nil_iff.1 htext.symm).1 htoken.stands.lexeme_ne_nil
  | @cons before rest token tokens htoken _ ih =>
    generalize htext : token.lexeme ++ rest = text at hothers
    cases hothers with
    | nil => exact absurd (List.append_eq_nil_iff.1 htext).1 htoken.stands.lexeme_ne_nil
    | cons hother hrest =>
      obtain ⟨rfl, rfl⟩ := htoken.unique hother htext
      rw [ih hrest]

end EnumCompanion.Mask
