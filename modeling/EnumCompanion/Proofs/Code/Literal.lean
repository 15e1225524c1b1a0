import EnumCompanion.Code.Literal
import EnumCompanion.Proofs.Mask.Segment

/-!
# Literals read back

A text without line feeds is written between quotes so that the machine that masks
source text finds one literal there, up to the last quote, and that the text can be
read off it: each backslash hides the character behind it, which is one of the text,
and a dollar sign is always hidden, so that no interpolation starts.

* `Mask.literalEnd`, `Mask.maskFrom_literalEnd`: where the machine leaves a literal,
  and what it masks;
* `Text.literalEnd_literal_append`: the literal of a text ends with its last quote,
  whatever follows;
* `Text.literalChars`, `Text.literalChars_literalBody`: what is read between the quotes;
* `Text.literalBody_eq_escaped`: one escape after the other makes the same;
* `literal_readBack`: all of it, so that no two texts have one literal.
-/

namespace EnumCompanion

open Text Mask

namespace Mask

/-! ### Ends of literals -/

/-- How many characters of a text are passed before one is read as code. -/
def hiddenLength (mode : Mode) : Text → Nat
  | [] => 0
  | c :: rest => if (mode.resume? c).isSome then 0 else hiddenLength (mode.absorb c) rest + 1

/-- The place behind the literal that a text starts with, taken for a raw one or
    not. -/
def literalEnd (raw : Bool) : Text → Nat
  | [] => 0
  | quote :: rest => hiddenLength (.literal quote raw .opened) rest + 1

variable {mode : Mode} {c quote : Char} {raw : Bool}

theorem hiddenLength_of_resume? {trail : Trail} (h : mode.resume? c = some trail) (rest : Text) :
    hiddenLength mode (c :: rest) = 0 := by
  rw [hiddenLength, h]
  rfl

theorem hiddenLength_cons (h : mode.resume? c = none) (rest : Text) :
    hiddenLength mode (c :: rest) = hiddenLength (mode.absorb c) rest + 1 := by
  rw [hiddenLength, h]
  rfl

theorem hiddenLength_code (trail : Trail) (text : Text) : hiddenLength (.code trail) text = 0 := by
  cases text <;> rfl

/-- What is passed is blanked, and the rest is masked as by itself. -/
theorem hides_hiddenLength (h : mode.IsFresh) (text : Text) :
    Hides mode (text.take (hiddenLength mode text)) (text.drop (hiddenLength mode text))
      (.code .clear) := by
  induction text generalizing mode with
  | nil => exact rfl
  | cons c rest ih =>
    cases hresume : mode.resume? c with
    | some trail =>
      rw [hiddenLength_of_resume? hresume]
      exact maskFrom_of_resume? (h c trail hresume ▸ hresume) rest
    | none =>
      rw [hiddenLength_cons hresume]
      exact .cons hresume (ih (Mode.isFresh_absorb hresume))

/-- Up to its end a literal is blanked, and what follows is masked as by itself. -/
theorem maskFrom_literalEnd (hquote : quote = '\'' ∨ quote = '"') (trail : Trail) (rest : Text) :
    maskFrom (.code trail) (quote :: rest) =
      ((quote :: rest).take (literalEnd (trail = .rawMark) (quote :: rest))).map blanked ++
        Text.masked ((quote :: rest).drop (literalEnd (trail = .rawMark) (quote :: rest))) := by
  have hfresh : Mode.IsFresh (.literal quote (trail = .rawMark) .opened) :=
    Mode.isFresh_of_not_isCode rfl
  have hides : Hides (.code trail) (quote :: rest.take _) (rest.drop _) (.code .clear) :=
    .opens rfl (codeStep_of_quote hquote trail _) rfl (hides_hiddenLength hfresh rest)
  rw [literalEnd, List.take_succ_cons, List.drop_succ_cons]
  rwa [Hides, List.cons_append, List.take_append_drop] at hides

/-- Behind one quote the machine passes as much as within a literal, unless there
    is another one. -/
theorem hiddenLength_opened {text : Text} (h : text.head? ≠ some quote) :
    hiddenLength (.literal quote raw .opened) text =
      hiddenLength (.literal quote raw .inside) text := by
  cases text with
  | nil => rfl
  | cons c rest =>
    have habsorb : (Mode.literal quote raw .opened).absorb c =
        (Mode.literal quote raw .inside).absorb c :=
      if_neg fun hc => h (congrArg some hc)
    rw [hiddenLength, hiddenLength, habsorb]
    rfl

end Mask

namespace Text

/-! ### The literal of a text -/

variable {text : Text}

theorem isLiteralSpecial_iff {c : Char} :
    isLiteralSpecial c = true ↔ c = '\\' ∨ c = '\'' ∨ c = '$' := by
  simp [isLiteralSpecial]

/-- What is written between the quotes is passed within the literal. -/
theorem hiddenLength_literalBody (h : '\n' ∉ text) (rest : Text) :
    hiddenLength (.literal '\'' false .inside) (literalBody text ++ rest) =
      (literalBody text).length + hiddenLength (.literal '\'' false .inside) rest := by
  induction text with
  | nil => rw [literalBody, List.nil_append, List.length_nil, Nat.zero_add]
  | cons c text ih =>
    rw [List.mem_cons, not_or] at h
    have htext := ih h.2
    rw [literalBody]
    split_ifs with hspecial
    · -- The backslash hides what follows it.
      rw [List.cons_append, List.cons_append, hiddenLength_cons (by rfl)]
      rw [Mode.absorb, Mode.absorbSingle, if_pos ⟨rfl, rfl⟩, hiddenLength_cons (by rfl)]
      rw [Mode.absorb, htext, List.length_cons, List.length_cons]
      omega
    · obtain ⟨hback, hquote, -⟩ :=
        not_or.1 (mt isLiteralSpecial_iff.2 hspecial) |>.imp_right not_or.1
      have hresume : (Mode.literal '\'' false .inside).resume? c = none := if_neg (Ne.symm h.1)
      rw [List.cons_append, hiddenLength_cons hresume]
      rw [Mode.absorb, Mode.absorbSingle, if_neg fun hc => hback hc.1, if_neg hquote, htext,
        List.length_cons]
      omega

/-- A text that is not empty does not start with a quote between the quotes. -/
theorem head?_literalBody_cons (c : Char) (text rest : Text) :
    (literalBody (c :: text) ++ rest).head? ≠ some '\'' := by
  rw [literalBody]
  split_ifs with hspecial
  · exact (by decide : some '\\' ≠ some '\'')
  · exact fun hc => hspecial (isLiteralSpecial_iff.2 (.inr (.inl (Option.some.inj hc))))

/-- The literal of a text ends with its last quote, whatever follows. Only that of
    an empty text, with another quote behind it, would be taken for the start of a
    triple delimiter. -/
theorem literalEnd_literal_append (h : '\n' ∉ text) {behind : Text}
    (hbehind : text = [] → behind.head? ≠ some '\'') :
    literalEnd false (text.literal ++ behind) = text.literal.length := by
  rw [literal, List.cons_append, List.cons_append, List.append_assoc, List.singleton_append,
    literalEnd, List.length_cons, List.length_append, List.length_singleton]
  congr 1
  cases text with
  | nil =>
    rw [literalBody, List.nil_append, hiddenLength_cons (by rfl)]
    rw [Mode.absorb, if_pos rfl]
    cases behind with
    | nil => rfl
    | cons c behind =>
      have hresume : (Mode.literal '\'' false .doubled).resume? c = some .clear :=
        if_neg fun hc => hbehind rfl (congrArg some hc)
      rw [hiddenLength_of_resume? hresume]
      rfl
  | cons c text =>
    rw [hiddenLength_opened (head?_literalBody_cons c text _), hiddenLength_literalBody h,
      hiddenLength_cons (by rfl)]
    rw [Mode.absorb, Mode.absorbSingle, if_neg (by decide), if_pos rfl, hiddenLength_code]

theorem feed_notMem_literalBody (h : '\n' ∉ text) : '\n' ∉ literalBody text := by
  induction text with
  | nil => exact List.not_mem_nil
  | cons c text ih =>
    rw [List.mem_cons, not_or] at h
    rw [literalBody]
    split_ifs <;> simp [h.1, ih h.2]

/-- It is masked as a whole, and what follows as by itself. -/
theorem masked_literal_append (h : '\n' ∉ text) {behind : Text}
    (hbehind : text = [] → behind.head? ≠ some '\'') : Text.masked (text.literal ++ behind) =
      List.replicate text.literal.length ' ' ++ behind.masked := by
  have hmasked : Text.masked (text.literal ++ behind) =
      ((text.literal ++ behind).take (literalEnd false (text.literal ++ behind))).map blanked ++
        Text.masked ((text.literal ++ behind).drop (literalEnd false (text.literal ++ behind))) :=
    maskFrom_literalEnd (.inl rfl) .clear (literalBody text ++ ['\''] ++ behind)
  have hblanked : ∀ c ∈ text.literal, blanked c = ' ' := by
    intro c hc
    refine if_neg ?_
    rintro rfl
    simp [literal, feed_notMem_literalBody h] at hc
  rw [hmasked, literalEnd_literal_append h hbehind, List.take_left, List.drop_left,
    List.map_congr_left hblanked, List.map_const']

/-! ### Between the quotes -/

/-- A character between the quotes of a literal. -/
inductive LiteralChar where
  /-- One that stands for itself. -/
  | bare (c : Char)
  /-- One that a backslash hides. -/
  | hidden (c : Char)
  deriving DecidableEq

/-- The character without the backslash. -/
def LiteralChar.value : LiteralChar → Char
  | bare c => c
  | hidden c => c

/-- What stands between the quotes of a literal, read from left to right. -/
def literalChars : Text → List LiteralChar
  | [] => []
  | '\\' :: c :: rest => .hidden c :: literalChars rest
  | c :: rest => .bare c :: literalChars rest

/-- How a character is written in a literal. -/
def literalCharOf (c : Char) : LiteralChar := if isLiteralSpecial c then .hidden c else .bare c

theorem literalChars_cons {c : Char} (h : c ≠ '\\') (rest : Text) :
    literalChars (c :: rest) = .bare c :: literalChars rest := by
  rw [literalChars]
  exact fun _ _ hc => absurd hc h

theorem literalChars_literalBody (text : Text) :
    literalChars (literalBody text) = text.map literalCharOf := by
  induction text with
  | nil => rfl
  | cons c text ih =>
    rw [literalBody, List.map_cons, literalCharOf]
    split_ifs with hspecial
    · rw [literalChars, ih]
    · have hback : c ≠ '\\' := fun hc => hspecial (isLiteralSpecial_iff.2 (.inl hc))
      rw [literalChars_cons hback, ih]

/-- Without the backslashes the text is read. -/
theorem map_value_literalChars (text : Text) :
    (literalChars (literalBody text)).map LiteralChar.value = text := by
  have hvalue : LiteralChar.value ∘ literalCharOf = id := by
    funext c
    rw [Function.comp, literalCharOf]
    split_ifs <;> rfl
  rw [literalChars_literalBody, List.map_map, hvalue, List.map_id]

/-- No character that has a meaning in a literal stands for itself. -/
theorem bare_notMem_literalChars {c : Char} (h : isLiteralSpecial c = true) (text : Text) :
    .bare c ∉ literalChars (literalBody text) := by
  rw [literalChars_literalBody, List.mem_map]
  rintro ⟨d, -, hd⟩
  rw [literalCharOf] at hd
  split_ifs at hd with hspecial
  obtain rfl : d = c := LiteralChar.bare.inj hd
  exact hspecial h

/-- So no two texts are written alike. -/
theorem literal_injective {text other : Text} (h : other.literal = text.literal) :
    other = text := by
  have hbody : literalBody other = literalBody text :=
    List.append_cancel_right (List.cons.inj h).2
  rw [← map_value_literalChars other, hbody, map_value_literalChars]

/-! ### Escapes in a row -/

/-- A text with a backslash before each place where a character stands. -/
def escaped (c : Char) (text : Text) : Text :=
  text.flatMap fun d => if d = c then ['\\', d] else [d]

theorem escaped_cons (c d : Char) (text : Text) :
    escaped c (d :: text) = (if d = c then ['\\', d] else [d]) ++ escaped c text :=
  List.flatMap_cons

/-- Backslashes first, each character is escaped as if by itself: no escape adds a
    character that a later one escapes. -/
theorem literalBody_eq_escaped (text : Text) :
    literalBody text = escaped '$' (escaped '\'' (escaped '\\' text)) := by
  induction text with
  | nil => rfl
  | cons c text ih =>
    rw [literalBody, ih, escaped_cons]
    split_ifs with hspecial hback hback
    · subst hback
      simp [escaped_cons]
    · rcases (isLiteralSpecial_iff.1 hspecial).resolve_left hback with rfl | rfl <;>
        simp [escaped_cons]
    · exact absurd (isLiteralSpecial_iff.2 (.inl hback)) hspecial
    · obtain ⟨-, hquote, hdollar⟩ :=
        not_or.1 (mt isLiteralSpecial_iff.2 hspecial) |>.imp_right not_or.1
      simp [escaped_cons, hquote, hdollar]

end Text

/-- The literal of a text without line feeds is one literal up to its last quote,
    and the mask blanks it and nothing behind it. What stands between its quotes is
    made by escaping backslashes, quotes and dollar signs in a row. Read with each
    escape as its second character it is the text, and every dollar sign is escaped.
    No other text has this literal. -/
theorem literal_readBack {text : Text} (h : '\n' ∉ text) :
    literalEnd false text.literal = text.literal.length ∧
      (∀ behind : Text, (text = [] → behind.head? ≠ some '\'') →
        masked (text.literal ++ behind) =
          List.replicate text.literal.length ' ' ++ behind.masked) ∧
      (∃ body, text.literal = '\'' :: (body ++ ['\'']) ∧
        body = escaped '$' (escaped '\'' (escaped '\\' text)) ∧
        (literalChars body).map LiteralChar.value = text ∧ .bare '$' ∉ literalChars body) ∧
      ∀ other : Text, other.literal = text.literal → other = text := by
  refine ⟨?_, fun _ => masked_literal_append h, ⟨literalBody text, rfl, ?_, ?_, ?_⟩,
    fun _ => literal_injective⟩
  · have hend : literalEnd false (text.literal ++ []) = text.literal.length :=
      literalEnd_literal_append h fun _ => nofun
    rwa [List.append_nil] at hend
  · exact literalBody_eq_escaped text
  · exact map_value_literalChars text
  · exact bare_notMem_literalChars (by decide) text

/-- A text of characters that are escaped, with a quote at either end. -/
def sharpText : Text := "'$\\'\x7b'".toList

theorem literal_readBack_sharpText : '\n' ∉ sharpText ∧
    literalEnd false sharpText.literal = sharpText.literal.length ∧
      ∃ body, sharpText.literal = '\'' :: (body ++ ['\'']) ∧
        (literalChars body).map LiteralChar.value = sharpText ∧ .bare '$' ∉ literalChars body := by
  have h : '\n' ∉ sharpText := by decide
  obtain ⟨hend, -, ⟨body, hliteral, -, hchars, hdollar⟩, -⟩ := literal_readBack h
  exact ⟨h, hend, body, hliteral, hchars, hdollar⟩

end EnumCompanion
