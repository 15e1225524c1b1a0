import EnumCompanion.Proofs.Declaration.Identifiers
import EnumCompanion.Proofs.Declaration.Tokens
import EnumCompanion.Proofs.Text.Lines

/-!
# Value lists in parts

A value list that is scanned to its end with no bracket open goes on behind a
comma as a list of its own, whatever brackets stand in either part, and with a
semicolon it ends. So the tokens of a list come from its parts one by one, and
each of them is a text that none of the characters which part or close anything
belongs to.

* `valueTokens_append_comma`, `valueTokens_append_semicolon`: a list and what
  stands behind it;
* `any_isBlank_strip`: the ends of a stripped text;
* `IsToken`, `isToken_of_mem_valueTokens`: what a token is;
* `valueTokens_local`: all of this of every list.
-/

namespace EnumCompanion

open Text

/-! ### Seams -/

/-- Behind a list that leaves no bracket open, a comma starts another one. -/
theorem valueTokens_append_comma {list : Text} (hlist : awaitedBehind [] list = some [])
    (rest : Text) : valueTokens (list ++ ',' :: rest) = valueTokens list ++ valueTokens rest := by
  have hscan : topLevel (list ++ ',' :: rest) = topLevel list ++ ',' :: topLevel rest :=
    (topLevelFrom_append_of_eq_some hlist _).trans
      (congrArg (topLevel list ++ ·) (topLevel_cons (by decide) (by decide) rest))
  calc valueTokens (list ++ ',' :: rest)
      = tokensOf (withoutAnnotations (topLevel list ++ ',' :: topLevel rest)) := by
        rw [← hscan]
        rfl
    _ = tokensOf (withoutAnnotations (topLevel list) ++ ',' :: withoutAnnotations (topLevel rest)) :=
        congrArg tokensOf (withoutAnnotationsFrom_append_cons (by decide) (by decide) false _ _)
    _ = valueTokens list ++ valueTokens rest := tokensOf_append_cons _ _

/-- Behind a list that leaves no bracket open, a semicolon hides what follows. -/
theorem valueTokens_append_semicolon {list : Text} (hlist : awaitedBehind [] list = some [])
    (rest : Text) : valueTokens (list ++ ';' :: rest) = valueTokens list := by
  have hscan : topLevel (list ++ ';' :: rest) = topLevel list := by
    rw [topLevel, topLevelFrom_append_of_eq_some hlist, topLevelFrom_cons, if_pos ⟨rfl, rfl⟩,
      List.append_nil]
    rfl
  rw [valueTokens, hscan, valueTokens]

/-! ### Tokens -/

/-- A text that a value list can give as a token: it is not empty, no blank stands
    at its ends, and no comma, dot or bracket in it. -/
structure IsToken (token : Text) : Prop where
  ne_nil : token ≠ []
  head : token.head?.any isBlank = false
  last : token.getLast?.any isBlank = false
  comma : ',' ∉ token
  dot : '.' ∉ token
  bracket : ∀ c ∈ token, isBracket c = false

/-- A stripped text has no blank at either end. -/
theorem any_isBlank_strip (text : Text) :
    (strip text).head?.any isBlank = false ∧ (strip text).getLast?.any isBlank = false := by
  constructor
  · -- What is stripped behind a text leaves its first character, if it leaves any.
    obtain ⟨behind, hbehind⟩ : strip text <+: text.dropWhile isBlank := by
      rw [strip, ← List.reverse_suffix, List.reverse_reverse]
      exact List.dropWhile_suffix _
    have hfirst := head?_dropWhile_any (p := isBlank) text
    rw [← hbehind, List.head?_append] at hfirst
    cases hhead : (strip text).head? with
    | none => rfl
    | some c => rwa [hhead] at hfirst
  · rw [strip, List.getLast?_reverse]
    exact head?_dropWhile_any _

theorem mem_of_mem_strip {text : Text} {c : Char} (h : c ∈ strip text) : c ∈ text := by
  obtain ⟨before, behind, htext, -⟩ := exists_eq_strip text
  rw [htext]
  exact List.mem_append_right _ (List.mem_append_left _ h)

/-- What is left without annotations are characters of the text, and spaces. -/
theorem mem_of_mem_withoutAnnotationsFrom {within : Bool} {text : Text} {c : Char}
    (h : c ∈ withoutAnnotationsFrom within text) : c = ' ' ∨ c ∈ text := by
  induction text generalizing within with
  | nil => exact absurd h List.not_mem_nil
  | cons d text ih =>
    rw [withoutAnnotationsFrom] at h
    split_ifs at h with hgoes hopens
    · exact (ih h).imp_right (List.mem_cons_of_mem d)
    · rcases List.mem_cons.1 h with rfl | h
      · exact .inl rfl
      · exact (ih h).imp_right (List.mem_cons_of_mem d)
    · rcases List.mem_cons.1 h with rfl | h
      · exact .inr List.mem_cons_self
      · exact (ih h).imp_right (List.mem_cons_of_mem d)

/-- No bracket is found outside every bracket. -/
theorem isBracket_of_mem_topLevel {body : Text} {c : Char} (h : c ∈ topLevel body) :
    isBracket c = false := by
  obtain ⟨kept, kept', hkept⟩ := List.append_of_mem h
  obtain ⟨before, behind, -, -, -, hbracket, -⟩ := exists_of_topLevelFrom hkept
  exact hbracket

/-- What a value list gives are tokens. -/
theorem isToken_of_mem_valueTokens {body token : Text} (h : token ∈ valueTokens body) :
    IsToken token := by
  obtain ⟨hmem, hne⟩ := List.mem_filter.1 h
  obtain ⟨entry, hentry, rfl⟩ := List.mem_map.1 hmem
  have hfront : ∀ c ∈ entryToken entry, c ∈ entry.takeWhile (· != '.') := fun c => mem_of_mem_strip
  have hlist : ∀ c ∈ entryToken entry, c ∈ withoutAnnotations (topLevel body) ∧ c ≠ ',' :=
    fun c hc => mem_of_mem_splitOn hentry ((List.takeWhile_prefix _).subset (hfront c hc))
  refine ⟨by simpa using hne, (any_isBlank_strip _).1, (any_isBlank_strip _).2, ?_, ?_, ?_⟩
  · exact fun hc => (hlist _ hc).2 rfl
  · exact fun hc => absurd (of_mem_takeWhile (hfront _ hc)) (by decide)
  · intro c hc
    rcases mem_of_mem_withoutAnnotationsFrom (hlist c hc).1 with rfl | htop
    · decide
    · exact isBracket_of_mem_topLevel htop

/-- A value list that leaves no bracket open goes on behind a comma as a list of
    its own, and a semicolon behind it hides what follows. What any list gives are
    tokens. -/
theorem valueTokens_local :
    (∀ list rest : Text, awaitedBehind [] list = some [] →
      valueTokens (list ++ ',' :: rest) = valueTokens list ++ valueTokens rest ∧
        valueTokens (list ++ ';' :: rest) = valueTokens list) ∧
      ∀ body : Text, ∀ token ∈ valueTokens body, IsToken token :=
  ⟨fun _ rest h => ⟨valueTokens_append_comma h rest, valueTokens_append_semicolon h rest⟩,
    fun _ _ => isToken_of_mem_valueTokens⟩

/-- A list with an annotation, type arguments, a comparison and a closing bracket
    that matches none, in front of one that closes no bracket. -/
theorem valueTokens_local_nested :
    let list := "@A(1) one<B<C>>.of(2 < 3, [x; (y)])".toList
    let rest := " two] (three, four".toList
    awaitedBehind [] list = some [] ∧ valueTokens list = ["one".toList] ∧
      "two".toList ∈ valueTokens rest ∧
        valueTokens (list ++ ',' :: rest) = ["one".toList, "two".toList] ∧
          valueTokens (list ++ ';' :: rest) = ["one".toList] ∧ IsToken "two".toList := by
  intro list rest
  have hlist : awaitedBehind [] list = some [] := by decide +kernel
  have hone : valueTokens list = ["one".toList] := by decide +kernel
  have htwo : valueTokens rest = ["two".toList] := by decide +kernel
  obtain ⟨hcomma, hsemicolon⟩ := valueTokens_local.1 list rest hlist
  have hmem : "two".toList ∈ valueTokens rest := htwo ▸ List.mem_singleton_self _
  refine ⟨hlist, hone, hmem, ?_, hsemicolon.trans hone, valueTokens_local.2 rest _ hmem⟩
  rw [hcomma, hone, htwo]
  rfl

end EnumCompanion
