import EnumCompanion.Proofs.Declaration.Brackets
import EnumCompanion.Proofs.Declaration.Masked

/-!
# Interpolation

String literals nest. In one that is not raw, `$` and an opening brace start an
*interpolation*: code up to the brace that closes it, with literals of its own.
The mask does not know of interpolations. It takes a literal to end at its next
delimiter, or with its line, and blanks all that stands before, however deep it
nests. So a literal is blanked as a whole where none of its interpolations shows
its delimiter. Such a literal is *sealed*.

* `Mask.Code`, `Mask.Body`: source text by its structure, with the literals in
  literals;
* `Mask.Code.Stands`: the rules by which it is read;
* `Mask.Code.IsSealed`: literals that no interpolation seems to end;
* `Mask.Body.Stands.content_iff`: a literal ends where it would without
  interpolations exactly if it is sealed;
* `Mask.Code.masked_eq_kept`: the mask of text with sealed literals, and what is read
  of it;
* `exists_masked_ne_kept`: a literal that is not sealed may end too early.
-/

namespace EnumCompanion

open Text

namespace Mask

/-! ### Structure -/

mutual

/-- Source text by its structure: comments and characters of code as tokens, and
    literals with their quote, marked as raw or not, between single or triple
    delimiters. -/
inductive Code where
  | nil
  | cons (token : Token) (rest : Code)
  | literal (quote : Char) (raw triple : Bool) (body : Body) (rest : Code)

/-- What stands within a literal: characters, a backslash with the character
    behind it, and interpolations. -/
inductive Body where
  | nil
  | char (c : Char) (rest : Body)
  | escape (c : Char) (rest : Body)
  | interpolation (code : Code) (rest : Body)

end

/-- A literal with what stands within it. -/
def lexemeOf (quote : Char) (triple : Bool) (content : Text) : Text :=
  delimiter quote triple ++ (content ++ delimiter quote triple)

mutual

/-- The text of code. -/
def Code.text : Code → Text
  | .nil => []
  | .cons token rest => token.lexeme ++ rest.text
  | .literal quote _ triple body rest => lexemeOf quote triple body.text ++ rest.text

/-- The text within a literal. -/
def Body.text : Body → Text
  | .nil => []
  | .char c rest => c :: rest.text
  | .escape c rest => '\\' :: c :: rest.text
  | .interpolation code rest => '$' :: '{' :: (code.text ++ '}' :: rest.text)

end

/-- The text of code with its comments and literals blanked out, those within
    literals included. -/
def Code.kept : Code → Text
  | .nil => []
  | .cons token rest => token.masked ++ rest.kept
  | .literal quote _ triple body rest => (lexemeOf quote triple body.text).map blanked ++ rest.kept

mutual

/-- The code that may stand between two texts. Tokens and literals are as in
    source text without interpolations. -/
def Code.Stands : Code → Text → Text → Prop
  | .nil, _, _ => True
  | .cons token rest, before, behind =>
    token.kind ≠ .literal ∧ token.Stands before (rest.text ++ behind) ∧
      token.IsWhole (rest.text ++ behind) ∧ rest.Stands (before ++ token.lexeme) behind
  | .literal quote raw triple body rest, before, behind =>
    (quote = '\'' ∨ quote = '"') ∧ (raw = true ↔ MarksRaw before) ∧
      body.Stands raw quote triple (before ++ delimiter quote triple)
        (delimiter quote triple ++ (rest.text ++ behind)) ∧
      Token.IsWhole ⟨.literal, lexemeOf quote triple body.text⟩ (rest.text ++ behind) ∧
      rest.Stands (before ++ lexemeOf quote triple body.text) behind

/-- What may stand within a literal between two texts. An interpolation goes up
    to the brace that closes it, where braces in comments and literals do not
    count. -/
def Body.Stands (raw : Bool) (quote : Char) (triple : Bool) : Body → Text → Text → Prop
  | .nil, _, _ => True
  | .char c rest, before, behind =>
    (c = '\\' → raw = true) ∧ (c = '\n' → triple = true) ∧
      (raw = true ∨ ¬['$', '{'] <+: c :: (rest.text ++ behind)) ∧
      ¬delimiter quote triple <+: c :: (rest.text ++ behind) ∧
      rest.Stands raw quote triple (before ++ [c]) behind
  | .escape c rest, before, behind =>
    raw = false ∧ rest.Stands raw quote triple (before ++ ['\\', c]) behind
  | .interpolation code rest, before, behind =>
    raw = false ∧ code.Stands (before ++ ['$', '{']) ('}' :: (rest.text ++ behind)) ∧
      Balanced code.kept ∧
      rest.Stands raw quote triple (before ++ '$' :: '{' :: (code.text ++ ['}'])) behind

end

/-- Within a literal no interpolation seems to end it: read as characters, none
    shows its delimiter or, on one line, a line feed. -/
def Body.IsSealed (quote : Char) (triple : Bool) : Body → Prop
  | .nil => True
  | .char _ rest | .escape _ rest => rest.IsSealed quote triple
  | .interpolation code rest =>
    Content false quote triple ('$' :: '{' :: (code.text ++ ['}'])) [] ∧
      rest.IsSealed quote triple

/-- The literals of code, but for those within them, are sealed. -/
def Code.IsSealed : Code → Prop
  | .nil => True
  | .cons _ rest => rest.IsSealed
  | .literal quote _ triple body rest => body.IsSealed quote triple ∧ rest.IsSealed

/-! ### Sealed literals -/

variable {raw triple : Bool} {quote : Char} {content rest before behind : Text}

theorem eq_of_mem_delimiter {c : Char} (h : c ∈ delimiter quote triple) : c = quote := by
  cases triple <;> simpa [delimiter] using h

/-- A delimiter does not reach over a closing brace. -/
theorem not_delimiter_prefix_append (hquote : quote = '\'' ∨ quote = '"') {text : Text}
    (hend : text.getLast? = some '}') (h : ¬delimiter quote triple <+: text) (more : Text) :
    ¬delimiter quote triple <+: text ++ more := by
  intro hcloses
  rcases List.prefix_or_prefix_of_prefix hcloses (List.prefix_append text more) with hle | hge
  · exact h hle
  · have hbrace := eq_of_mem_delimiter (hge.mem (List.mem_of_getLast? hend))
    rcases hquote with rfl | rfl <;> exact absurd hbrace (by decide)

theorem getLast?_cons_of_mem {c d : Char} (h : d ∈ content.getLast?) :
    d ∈ (c :: content).getLast? := by
  rw [List.getLast?_cons, Option.mem_def.1 h]
  rfl

/-- What stands within a literal, up to a closing brace, stands so before other
    text that does. -/
theorem Content.append (hquote : quote = '\'' ∨ quote = '"')
    (h : Content raw quote triple content []) (hend : ∀ c ∈ content.getLast?, c = '}')
    (hrest : Content raw quote triple rest behind) :
    Content raw quote triple (content ++ rest) behind := by
  generalize hnone : ([] : Text) = none at h
  induction h with
  | nil => exact hrest
  | escape hraw _ ih =>
    exact .escape hraw
      (ih (fun c hc => hend c (getLast?_cons_of_mem (getLast?_cons_of_mem hc))) hnone)
  | backslash => exact absurd (hend '\\' rfl) (by decide)
  | @char c content none hback hfeed hclose _ ih =>
    subst hnone
    refine .char hback hfeed (fun hcloses => ?_)
      (ih (fun d hd => hend d (getLast?_cons_of_mem hd)) rfl)
    rw [List.append_nil] at hclose
    have hlast := List.getLast?_eq_some_getLast (List.cons_ne_nil c content)
    refine not_delimiter_prefix_append hquote (by rw [hlast, hend _ hlast]) hclose (rest ++ behind) ?_
    rwa [List.cons_append, ← List.append_assoc]

theorem content_cons_iff {c : Char} : Content raw quote triple (c :: content) behind ↔
    (c = '\\' ∧ raw = false ∧
      ((content = [] ∧ behind = []) ∨ content ≠ [] ∧ Content raw quote triple content.tail behind)) ∨
    (c = '\\' → raw = true) ∧ (c = '\n' → triple = true) ∧
      ¬delimiter quote triple <+: c :: (content ++ behind) ∧
        Content raw quote triple content behind := by
  constructor
  · intro h
    cases h with
    | escape hraw h => exact .inl ⟨rfl, hraw, .inr ⟨List.cons_ne_nil _ _, h⟩⟩
    | backslash hraw => exact .inl ⟨rfl, hraw, .inl ⟨rfl, rfl⟩⟩
    | char hback hfeed hclose h => exact .inr ⟨hback, hfeed, hclose, h⟩
  · rintro (⟨rfl, hraw, ⟨rfl, rfl⟩ | ⟨hne, h⟩⟩ | ⟨hback, hfeed, hclose, h⟩)
    · exact .backslash hraw
    · obtain ⟨d, content, rfl⟩ := List.exists_cons_of_ne_nil hne
      exact .escape hraw h
    · exact .char hback hfeed hclose h

/-- What stands within a literal does so up to a brace and behind it. -/
theorem Content.of_append (hquote : quote = '\'' ∨ quote = '"') {front : Text}
    (h : Content raw quote triple (front ++ '}' :: rest) behind) :
    Content raw quote triple (front ++ ['}']) [] ∧ Content raw quote triple rest behind := by
  induction hlength : front.length using Nat.strong_induction_on generalizing front with
  | _ length ih =>
    rcases front with _ | ⟨c, front⟩
    · obtain ⟨hbrace, -⟩ | ⟨hback, hfeed, -, hrest⟩ := content_cons_iff.1 h
      · exact absurd hbrace (by decide)
      · refine ⟨.char hback hfeed (fun hcloses => ?_) (.nil _), hrest⟩
        obtain ⟨quotes, hquotes⟩ := Token.exists_delimiter_eq quote triple
        rw [hquotes] at hcloses
        rcases hquote with rfl | rfl <;> exact absurd (List.cons_prefix_cons.1 hcloses).1 (by decide)
    rw [← hlength, List.length_cons] at ih
    rw [List.cons_append] at h
    obtain ⟨rfl, hraw, ⟨hnil, -⟩ | ⟨-, hrest⟩⟩ | ⟨hback, hfeed, hclose, hrest⟩ := content_cons_iff.1 h
    · exact absurd hnil (by simp)
    · -- The character that a backslash hides may be the brace.
      rcases front with _ | ⟨d, front⟩
      · exact ⟨.escape hraw (.nil _), hrest⟩
      · obtain ⟨hfront, hrest⟩ := ih front.length (by rw [List.length_cons]; omega) hrest rfl
        exact ⟨.escape hraw hfront, hrest⟩
    · obtain ⟨hfront, hrest⟩ := ih front.length (Nat.lt_succ_self _) hrest rfl
      refine ⟨.char hback hfeed (fun hcloses => hclose (hcloses.trans ?_)) hfront, hrest⟩
      exact ⟨rest ++ behind, by simp⟩

/-- A literal is one as if it had no interpolations exactly if it is sealed. -/
theorem Body.Stands.content_iff (hquote : quote = '\'' ∨ quote = '"') :
    ∀ {body : Body} {before : Text}, body.Stands raw quote triple before behind →
      (Content raw quote triple body.text behind ↔ body.IsSealed quote triple)
  | .nil, _, _ => iff_of_true (.nil _) trivial
  | .char c rest, _, ⟨hback, hfeed, _, hclose, hrest⟩ => by
    rw [Body.text, content_cons_iff, Body.IsSealed, ← hrest.content_iff hquote]
    constructor
    · rintro (⟨hc, hraw, -⟩ | ⟨-, -, -, h⟩)
      · exact absurd ((hback hc).symm.trans hraw) (by decide)
      · exact h
    · exact fun h => .inr ⟨hback, hfeed, hclose, h⟩
  | .escape c rest, _, ⟨hraw, hrest⟩ => by
    rw [Body.text, content_cons_iff, Body.IsSealed, ← hrest.content_iff hquote]
    constructor
    · rintro (⟨-, -, ⟨hnil, -⟩ | ⟨-, h⟩⟩ | ⟨hback, -⟩)
      · exact absurd hnil (List.cons_ne_nil _ _)
      · exact h
      · exact absurd ((hback rfl).symm.trans hraw) (by decide)
    · exact fun h => .inl ⟨rfl, hraw, .inr ⟨List.cons_ne_nil _ _, h⟩⟩
  | .interpolation code rest, _, ⟨hraw, _, _, hrest⟩ => by
    have hsplit : Body.text (.interpolation code rest) =
        ('$' :: '{' :: code.text) ++ '}' :: rest.text := rfl
    rw [hsplit, Body.IsSealed, ← hrest.content_iff hquote, ← hraw]
    constructor
    · exact fun h => h.of_append hquote
    · rintro ⟨hcode, h⟩
      have hend : ∀ c ∈ ('$' :: '{' :: (code.text ++ ['}'])).getLast?, c = '}' := fun c hc => by
        rw [← List.cons_append, ← List.cons_append, List.getLast?_concat] at hc
        exact (Option.some.inj hc).symm
      simpa using hcode.append hquote hend h

/-- Code with sealed literals is blanked as it should be, where the machine reads
    its first character as code. -/
theorem Code.Stands.maskFrom_eq : ∀ {code : Code} {before : Text} {mode : Mode},
    code.Stands before [] → code.IsSealed → Reads mode before code.text →
      maskFrom mode code.text = code.kept
  | .nil, _, _, _, _, _ => rfl
  | .cons token rest, before, mode, ⟨_, htoken, hwhole, hrest⟩, hsealed, hreads => by
    rw [List.append_nil] at htoken hwhole
    obtain ⟨mode', hmask, hreads'⟩ := htoken.exists_maskFrom hwhole hreads
    rw [Code.text, Code.kept, hmask, hrest.maskFrom_eq hsealed hreads']
  | .literal quote raw triple body rest, before, mode, ⟨hquote, hraw, hbody, hwhole, hrest⟩,
      ⟨hsealed, hsealed'⟩, hreads => by
    rw [List.append_nil] at hbody hwhole
    have htoken : Token.Stands before ⟨.literal, lexemeOf quote triple body.text⟩ rest.text :=
      .closedLiteral hquote hraw ((hbody.content_iff hquote).2 hsealed)
    obtain ⟨mode', hmask, hreads'⟩ := htoken.exists_maskFrom hwhole hreads
    rw [Code.text, Code.kept, hmask, hrest.maskFrom_eq hsealed' hreads']
    rfl

/-! ### Deciding what is sealed -/

instance decidableContent (raw : Bool) (quote : Char) (triple : Bool) :
    ∀ content behind, Decidable (Content raw quote triple content behind)
  | [], behind => .isTrue (.nil behind)
  | [_], behind =>
    have : Decidable (Content raw quote triple [] behind) := .isTrue (.nil behind)
    have : Decidable (Content raw quote triple ([] : Text).tail behind) := .isTrue (.nil behind)
    decidable_of_iff _ content_cons_iff.symm
  | _ :: d :: content, behind =>
    have := decidableContent raw quote triple (d :: content) behind
    have : Decidable (Content raw quote triple (d :: content).tail behind) :=
      decidableContent raw quote triple content behind
    decidable_of_iff _ content_cons_iff.symm

instance Body.decidableIsSealed (quote : Char) (triple : Bool) :
    ∀ body : Body, Decidable (body.IsSealed quote triple)
  | .nil => .isTrue trivial
  | .char _ rest | .escape _ rest => Body.decidableIsSealed quote triple rest
  | .interpolation _ rest =>
    have := Body.decidableIsSealed quote triple rest
    inferInstanceAs (Decidable (_ ∧ _))

instance Code.decidableIsSealed : ∀ code : Code, Decidable code.IsSealed
  | .nil => .isTrue trivial
  | .cons _ rest => Code.decidableIsSealed rest
  | .literal _ _ _ _ rest =>
    have := Code.decidableIsSealed rest
    inferInstanceAs (Decidable (_ ∧ _))

/-! ### Characters of code -/

/-- Characters of code, each a token. -/
def Code.plain (text : Text) (rest : Code) : Code :=
  text.foldr (fun c rest => .cons ⟨.plain, [c]⟩ rest) rest

/-- Characters that start neither a comment nor a literal stand everywhere. -/
theorem Code.Stands.plain {text : Text} {code : Code}
    (htext : (text.all fun c => c != '\'' && c != '"' && c != '/') = true)
    (h : code.Stands (before ++ text) behind) : (Code.plain text code).Stands before behind := by
  induction text generalizing before with
  | nil => rwa [List.append_nil] at h
  | cons c text ih =>
    simp only [List.all_cons, Bool.and_eq_true, bne_iff_ne] at htext
    obtain ⟨⟨⟨hsingle, hdouble⟩, hslash⟩, htext⟩ := htext
    refine ⟨Token.Kind.noConfusion, .plain ⟨hsingle, hdouble⟩, ⟨fun hc => ?_, fun hc => ?_⟩,
      ih htext (by rwa [List.append_assoc, List.singleton_append])⟩
    · exact absurd (List.cons.inj hc).1 hslash
    · simp at hc

instance (before : Text) : Decidable (MarksRaw before) :=
  decidable_of_iff _ (trailBehind_eq_rawMark_iff before)

end Mask

/-- In text with sealed literals, all comments and literals are blanked, with the
    literals in literals at any depth, and the code between them stays. So what is
    read of the text is read of it with these blanked out. -/
theorem Mask.Code.masked_eq_kept {code : Mask.Code} (hstands : code.Stands [] [])
    (hsealed : code.IsSealed) : code.text.masked = code.kept ∧
      ∀ allowRepeats, parse code.text allowRepeats = parse code.kept allowRepeats ∧
        parseAll code.text allowRepeats = parseAll code.kept allowRepeats := by
  have hmasked : code.text.masked = code.kept :=
    hstands.maskFrom_eq hsealed fun _ _ => ⟨.clear, rfl, .inr rfl⟩
  have hkept : code.text.masked = code.kept.masked := by
    rw [← hmasked]
    exact (maskFrom_of_opensNothing (opensNothing_maskFrom _ _) .clear).symm
  exact ⟨hmasked, fun allowRepeats => ⟨parse_congr hkept, parseAll_congr hkept⟩⟩

/-- A list of an enum with three literals in each other, each with a brace or a
    comma of its own, where every one has quotes that end none around it. -/
def nestedLiterals : Mask.Code :=
  .plain "enum A \x7b a(".toList <|
  .literal '\'' false true
    (.char '}' <| .interpolation
      (.plain "m[".toList <|
        .literal '"' false false
          (.interpolation
            (.plain "f(".toList <| .literal '\'' false false (.char '}' .nil) <|
              .plain ")".toList .nil) <|
          .char ',' .nil) <|
        .plain "]".toList .nil)
      .nil) <|
  .plain "), b \x7d".toList .nil

/-- All of it is blanked, and both values are read. -/
theorem Mask.Code.masked_eq_kept_nestedLiterals :
    (nestedLiterals.Stands [] [] ∧ nestedLiterals.IsSealed) ∧
      nestedLiterals.text.masked = nestedLiterals.kept ∧
      (parse nestedLiterals.text false).toOption.map Enumeration.values =
        some ["a".toList, "b".toList] := by
  have hstands : nestedLiterals.Stands [] [] := by
    refine .plain (by decide) ⟨.inl rfl, by decide, ⟨nofun, nofun, by decide, by decide, rfl,
      .plain (by decide) ⟨.inr rfl, by decide, ⟨rfl,
        .plain (by decide) ⟨.inl rfl, by decide, ⟨nofun, nofun, by decide, by decide, trivial⟩,
          by decide, .plain (by decide) trivial⟩,
        by decide, nofun, nofun, by decide, by decide, trivial⟩,
        by decide, .plain (by decide) trivial⟩,
      by decide, trivial⟩, by decide, .plain (by decide) trivial⟩
  have hsealed : nestedLiterals.IsSealed := by decide
  obtain ⟨hmasked, hread⟩ := masked_eq_kept hstands hsealed
  refine ⟨⟨hstands, hsealed⟩, hmasked, ?_⟩
  rw [(hread false).1]
  decide +kernel

/-- A list of an enum with a literal in the interpolation of another one that has
    the same quotes. -/
def leakingLiteral : Mask.Code :=
  .plain "enum A \x7b a(".toList <|
  .literal '\'' false false
    (.interpolation
      (.plain "f(".toList <| .literal '\'' false false (.char '}' .nil) <| .plain ")".toList .nil)
      .nil) <|
  .plain "), b \x7d".toList .nil

/-- Its brace is not blanked and ends the list, so that a value is lost. -/
theorem exists_masked_ne_kept : ∃ code : Mask.Code, code.Stands [] [] ∧
    code.text.masked ≠ code.kept ∧
    (parse code.text false).toOption.map Enumeration.values = some ["a".toList] ∧
    (parse code.kept false).toOption.map Enumeration.values = some ["a".toList, "b".toList] := by
  refine ⟨leakingLiteral, ?_, by decide +kernel⟩
  exact .plain (by decide) ⟨.inl rfl, by decide, ⟨rfl,
    .plain (by decide) ⟨.inl rfl, by decide, ⟨nofun, nofun, by decide, by decide, trivial⟩,
      by decide, .plain (by decide) trivial⟩,
    by decide, trivial⟩, by decide, .plain (by decide) trivial⟩

end EnumCompanion
