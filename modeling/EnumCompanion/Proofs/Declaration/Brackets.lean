import EnumCompanion.Declaration.Body
import EnumCompanion.Proofs.Text.Characters

/-!
# Brackets

What the scans of a declaration make of text whose brackets are properly nested.
Braces are counted, and a text is *balanced* when it closes exactly the braces
it opens. Brackets of all kinds are matched: within round, square and curly ones
the signs `<` and `>` are no brackets, within type arguments they are.

* `braceDepth`, `Balanced`: the depth of braces behind a text, and the texts that
  leave it as it is;
* `closingBraceFrom_append`: a closing brace is looked for behind such a text;
* `closingBrace?_eq_some_iff`: the brace that closes one;
* `Nested`, `TypeArguments`: what may stand in argument lists and in type
  arguments;
* `openBrackets`, `nested_of_openBrackets`: the brackets that are open behind a
  text;
* `Nested.topLevelFrom`, `TypeArguments.topLevelFrom`: none of it is at the top.
-/

namespace EnumCompanion

open Text

/-! ### Braces -/

/-- The number of open braces behind a text that is entered with some, unless it
    closes more than are open. -/
def braceDepth (depth : Nat) : Text → Option Nat
  | [] => some depth
  | c :: rest =>
    if c = '{' then braceDepth (depth + 1) rest
    else if c = '}' then if depth = 0 then none else braceDepth (depth - 1) rest
    else braceDepth depth rest

/-- A text that closes the braces it opens and no others. -/
def Balanced (text : Text) : Prop := braceDepth 0 text = some 0

instance (text : Text) : Decidable (Balanced text) :=
  inferInstanceAs (Decidable (braceDepth 0 text = some 0))

theorem braceDepth_append (depth : Nat) (text rest : Text) :
    braceDepth depth (text ++ rest) =
      (braceDepth depth text).bind fun depth => braceDepth depth rest := by
  induction text generalizing depth with
  | nil => rfl
  | cons c text ih =>
    rw [List.cons_append, braceDepth, braceDepth]
    split_ifs
    exacts [ih _, rfl, ih _, ih _]

/-- Braces that are open already stay so. -/
theorem braceDepth_add {depth after : Nat} {text : Text} (h : braceDepth depth text = some after)
    (more : Nat) : braceDepth (depth + more) text = some (after + more) := by
  induction text generalizing depth with
  | nil => simpa [braceDepth] using h
  | cons c text ih =>
    rw [braceDepth] at h ⊢
    split_ifs at h ⊢ with hopen hclose hzero hzero'
    · rw [Nat.add_right_comm]
      exact ih h
    · omega
    · rw [Nat.sub_add_comm (by omega)]
      exact ih h
    · exact ih h

theorem Balanced.braceDepth {text : Text} (h : Balanced text) (depth : Nat) :
    braceDepth depth text = some depth := by
  have := braceDepth_add h depth
  rwa [Nat.zero_add] at this

theorem Balanced.append {text rest : Text} (h : Balanced text) (hrest : Balanced rest) :
    Balanced (text ++ rest) := by
  rw [Balanced, braceDepth_append, h.braceDepth]
  exact hrest

/-- The closing brace is looked for behind a text that leaves some braces open. -/
theorem closingBraceFrom_append {depth after : Nat} {text : Text}
    (h : EnumCompanion.braceDepth depth text = some after) (rest : Text) :
    closingBraceFrom (depth + 1 : Nat) (text ++ rest) =
      (closingBraceFrom (after + 1 : Nat) rest).map (· + text.length) := by
  induction text generalizing depth with
  | nil =>
    obtain rfl : depth = after := Option.some.inj h
    simp
  | cons c text ih =>
    rw [EnumCompanion.braceDepth] at h
    rw [List.cons_append, closingBraceFrom]
    split_ifs at h ⊢ with hopen hclose hzero hone hone
    · have := ih h
      push_cast at this ⊢
      rw [this, Option.map_map]
      rfl
    · omega
    · have := ih h
      have hdepth : ((depth + 1 : Nat) : Int) - 1 = (depth - 1 + 1 : Nat) := by omega
      rw [hdepth, this, Option.map_map]
      rfl
    · rw [ih h, Option.map_map]
      rfl

/-- A closing brace stands behind a text that leaves the braces open before it. -/
theorem closingBraceFrom_eq_some_iff {depth n : Nat} {text : Text} :
    closingBraceFrom (depth + 1 : Nat) text = some n ↔ ∃ body rest,
      text = body ++ '}' :: rest ∧ body.length = n ∧ EnumCompanion.braceDepth depth body = some 0 := by
  constructor
  · intro h
    induction text generalizing depth n with
    | nil => exact absurd h nofun
    | cons c text ih =>
      rw [closingBraceFrom] at h
      split_ifs at h with hopen hclose hone
      · -- One more brace is open.
        obtain ⟨m, hm, rfl⟩ := Option.map_eq_some_iff.1 h
        have hm' : closingBraceFrom (depth + 1 + 1 : Nat) text = some m := by exact_mod_cast hm
        obtain ⟨body, rest, rfl, rfl, hbody⟩ := ih hm'
        exact ⟨c :: body, rest, rfl, rfl, by rw [EnumCompanion.braceDepth, if_pos hopen, hbody]⟩
      · obtain rfl : depth = 0 := by omega
        exact ⟨[], text, by rw [hclose]; rfl, Option.some.inj h, rfl⟩
      · obtain ⟨m, hm, rfl⟩ := Option.map_eq_some_iff.1 h
        obtain ⟨more, rfl⟩ := Nat.exists_eq_succ_of_ne_zero (by omega : depth ≠ 0)
        have hm' : closingBraceFrom (more + 1 : Nat) text = some m := by simpa using hm
        obtain ⟨body, rest, rfl, rfl, hbody⟩ := ih hm'
        refine ⟨c :: body, rest, rfl, rfl, ?_⟩
        rw [EnumCompanion.braceDepth, if_neg hopen, if_pos hclose, if_neg (by omega)]
        exact hbody
      · obtain ⟨m, hm, rfl⟩ := Option.map_eq_some_iff.1 h
        obtain ⟨body, rest, rfl, rfl, hbody⟩ := ih hm
        exact ⟨c :: body, rest, rfl, rfl,
          by rw [EnumCompanion.braceDepth, if_neg hopen, if_neg hclose, hbody]⟩
  · rintro ⟨body, rest, rfl, rfl, hbody⟩
    rw [closingBraceFrom_append hbody]
    simp [closingBraceFrom]

/-- The brace that closes one stands behind a balanced body. -/
theorem closingBrace?_eq_some_iff {before behind : Text} {close : Nat} :
    closingBrace? (before ++ '{' :: behind) before.length = some close ↔ ∃ body rest,
      behind = body ++ '}' :: rest ∧ Balanced body ∧ close = before.length + (body.length + 1) := by
  have hfirst : closingBraceFrom 0 ('{' :: behind) =
      (closingBraceFrom (0 + 1 : Nat) behind).map (· + 1) := by
    rw [closingBraceFrom, if_pos rfl]
    rfl
  rw [closingBrace?, List.drop_left, hfirst, Option.map_map, Option.map_eq_some_iff]
  constructor
  · rintro ⟨n, hn, rfl⟩
    obtain ⟨body, rest, rfl, rfl, hbody⟩ := closingBraceFrom_eq_some_iff.1 hn
    exact ⟨body, rest, rfl, hbody, rfl⟩
  · rintro ⟨body, rest, rfl, hbody, rfl⟩
    exact ⟨body.length, closingBraceFrom_eq_some_iff.2 ⟨body, rest, rfl, rfl, hbody⟩, rfl⟩

/-! ### Arguments -/

/-- The brackets of argument lists, collections and blocks. -/
def bracketPairs : List (Char × Char) := [('(', ')'), ('[', ']'), ('{', '}')]

/-- What may stand between round, square or curly brackets: these are properly
    nested, and all other characters are free. -/
inductive Nested : Text → Prop where
  | nil : Nested []
  | char {c : Char} {rest : Text} (hc : ∀ pair ∈ bracketPairs, c ≠ pair.1 ∧ c ≠ pair.2) :
      Nested rest → Nested (c :: rest)
  | group {pair : Char × Char} {inner rest : Text} (hpair : pair ∈ bracketPairs) :
      Nested inner → Nested rest → Nested (pair.1 :: (inner ++ pair.2 :: rest))

/-- What may stand between angle brackets: these are properly nested as well. -/
inductive TypeArguments : Text → Prop where
  | nil : TypeArguments []
  | char {c : Char} {rest : Text} (hc : ∀ pair ∈ bracketPairs, c ≠ pair.1 ∧ c ≠ pair.2)
      (hangle : c ≠ '<' ∧ c ≠ '>') : TypeArguments rest → TypeArguments (c :: rest)
  | group {pair : Char × Char} {inner rest : Text} (hpair : pair ∈ bracketPairs) :
      Nested inner → TypeArguments rest → TypeArguments (pair.1 :: (inner ++ pair.2 :: rest))
  | angle {inner rest : Text} :
      TypeArguments inner → TypeArguments rest → TypeArguments ('<' :: (inner ++ '>' :: rest))

theorem mem_bracketPairs {pair : Char × Char} : pair ∈ bracketPairs ↔
    pair = ('(', ')') ∨ pair = ('[', ']') ∨ pair = ('{', '}') := by
  simp [bracketPairs]

theorem Balanced.cons {c : Char} {rest : Text} (hc : ∀ pair ∈ bracketPairs, c ≠ pair.1 ∧ c ≠ pair.2)
    (h : Balanced rest) : Balanced (c :: rest) := by
  obtain ⟨hopen, hclose⟩ := hc ('{', '}') (by decide)
  rwa [Balanced, EnumCompanion.braceDepth, if_neg hopen, if_neg hclose]

theorem Balanced.group {pair : Char × Char} {inner rest : Text} (hpair : pair ∈ bracketPairs)
    (hinner : Balanced inner) (hrest : Balanced rest) :
    Balanced (pair.1 :: (inner ++ pair.2 :: rest)) := by
  rcases mem_bracketPairs.1 hpair with rfl | rfl | rfl <;>
    simpa [Balanced, EnumCompanion.braceDepth, braceDepth_append, hinner.braceDepth] using hrest

/-- Properly nested text closes the braces it opens. -/
theorem Nested.balanced {text : Text} (h : Nested text) : Balanced text := by
  induction h with
  | nil => rfl
  | char hc _ ih => exact ih.cons hc
  | group hpair _ _ ihinner ihrest => exact ihinner.group hpair ihrest

theorem TypeArguments.balanced {text : Text} (h : TypeArguments text) : Balanced text := by
  induction h with
  | nil => rfl
  | char hc _ _ ih => exact ih.cons hc
  | group hpair hinner _ ihrest => exact hinner.balanced.group hpair ihrest
  | angle _ _ ihinner ihrest =>
    simpa [Balanced, EnumCompanion.braceDepth, braceDepth_append, ihinner.braceDepth] using ihrest

/-! ### Open brackets -/

/-- The closers of the brackets that are open behind a text that is entered with
    some, the innermost first, unless it closes another than the innermost. -/
def openBrackets (awaited : Text) : Text → Option Text
  | [] => some awaited
  | c :: rest =>
    match bracketPairs.find? fun pair => pair.1 == c with
    | some pair => openBrackets (pair.2 :: awaited) rest
    | none =>
      if ∀ pair ∈ bracketPairs, c ≠ pair.2 then openBrackets awaited rest
      else if awaited.head? = some c then openBrackets awaited.tail rest
      else none

theorem openBrackets_append (awaited text rest : Text) :
    openBrackets awaited (text ++ rest) =
      (openBrackets awaited text).bind fun awaited => openBrackets awaited rest := by
  induction text generalizing awaited with
  | nil => rfl
  | cons c text ih =>
    rw [List.cons_append, openBrackets, openBrackets]
    split
    · exact ih _
    · split_ifs
      exacts [ih _, ih _, rfl]

/-- Brackets that are open already stay so. -/
theorem openBrackets_extend {awaited awaited' text : Text}
    (h : openBrackets awaited text = some awaited') (outer : Text) :
    openBrackets (awaited ++ outer) text = some (awaited' ++ outer) := by
  induction text generalizing awaited with
  | nil => simpa [openBrackets] using h
  | cons c text ih =>
    rw [openBrackets] at h ⊢
    split at h
    · exact ih h
    · split_ifs at h with hother hcloses
      · rw [if_pos hother]
        exact ih h
      · obtain ⟨awaited, rfl⟩ := List.head?_eq_some_iff.1 hcloses
        rw [if_neg hother, if_pos (by rfl)]
        exact ih h

/-- Properly nested text that closes the brackets opened before it. -/
inductive Shuts : Text → Text → Prop where
  | nil {text : Text} : Nested text → Shuts [] text
  | cons {c : Char} {awaited inner rest : Text} :
      Nested inner → Shuts awaited rest → Shuts (c :: awaited) (inner ++ c :: rest)

theorem Shuts.char {c : Char} (hc : ∀ pair ∈ bracketPairs, c ≠ pair.1 ∧ c ≠ pair.2)
    {awaited text : Text} (h : Shuts awaited text) : Shuts awaited (c :: text) := by
  cases h with
  | nil hnested => exact .nil (hnested.char hc)
  | cons hnested hrest => exact .cons (hnested.char hc) hrest

theorem Shuts.group {pair : Char × Char} (hpair : pair ∈ bracketPairs) {awaited text : Text}
    (h : Shuts (pair.2 :: awaited) text) : Shuts awaited (pair.1 :: text) := by
  obtain _ | ⟨hinner, hrest⟩ := h
  cases hrest with
  | nil hnested => exact .nil (.group hpair hinner hnested)
  | @cons d _ _ _ hnested hrest =>
    have := @Shuts.cons d _ _ _ (.group hpair hinner hnested) hrest
    rwa [List.cons_append, List.append_assoc, List.cons_append] at this

/-- A text behind which no brackets are open shuts those that were. -/
theorem shuts_of_openBrackets {awaited text : Text} (h : openBrackets awaited text = some []) :
    Shuts awaited text := by
  induction text generalizing awaited with
  | nil =>
    obtain rfl : awaited = [] := Option.some.inj h
    exact .nil .nil
  | cons c text ih =>
    rw [openBrackets] at h
    split at h
    · next pair hfind =>
      obtain rfl : pair.1 = c := by simpa using List.find?_some hfind
      exact (ih h).group (List.mem_of_find?_eq_some hfind)
    · next hnone =>
      have hopens : ∀ pair ∈ bracketPairs, c ≠ pair.1 := fun pair hpair hc => by
        simpa [hc] using List.find?_eq_none.1 hnone pair hpair
      split_ifs at h with hother hcloses
      · exact (ih h).char fun pair hpair => ⟨hopens pair hpair, hother pair hpair⟩
      · obtain ⟨awaited, rfl⟩ := List.head?_eq_some_iff.1 hcloses
        exact .cons .nil (ih h)

/-- A text that opens and shuts its brackets in turn is properly nested. -/
theorem nested_of_openBrackets {text : Text} (h : openBrackets [] text = some []) :
    Nested text := by
  cases shuts_of_openBrackets h with
  | nil hnested => exact hnested

/-! ### The top of a value list -/

/-- A bracketed group is passed over if what stands in it changes nothing. -/
theorem topLevelFrom_group {pair : Char × Char} (hpair : pair ∈ bracketPairs) {inner : Text}
    (hinner : ∀ awaited rest, topLevelFrom (pair.2 :: awaited) (inner ++ rest) =
      topLevelFrom (pair.2 :: awaited) rest) (awaited rest : Text) :
    topLevelFrom awaited (pair.1 :: (inner ++ pair.2 :: rest)) = topLevelFrom awaited rest := by
  obtain ⟨hcloser, hnone, hcloses, hless, hsemicolon⟩ : closer? pair.1 = some pair.2 ∧
      closer? pair.2 = none ∧ isCloser pair.2 = true ∧ pair.1 ≠ '<' ∧ pair.1 ≠ ';' := by
    rcases mem_bracketPairs.1 hpair with rfl | rfl | rfl <;> decide
  rw [topLevelFrom, if_neg fun h => hsemicolon h.1, hcloser]
  simp only [hless, false_and, if_false, hinner]
  rw [topLevelFrom, if_neg fun h => List.cons_ne_nil _ _ h.2, hnone]
  simp only [hcloses, List.head?_cons, List.tail_cons, if_true]

/-- So are type arguments, where a less-than sign is a bracket. -/
theorem topLevelFrom_angle {inner : Text}
    (hinner : ∀ awaited rest, topLevelFrom ('>' :: awaited) (inner ++ rest) =
      topLevelFrom ('>' :: awaited) rest) {awaited : Text}
    (hawaited : awaited = [] ∨ awaited.head? = some '>') (rest : Text) :
    topLevelFrom awaited ('<' :: (inner ++ '>' :: rest)) = topLevelFrom awaited rest := by
  have hopen : topLevelFrom awaited ('<' :: (inner ++ '>' :: rest)) =
      topLevelFrom ('>' :: awaited) (inner ++ '>' :: rest) := by
    rw [topLevelFrom, if_neg (by simp)]
    exact if_neg fun h => hawaited.elim h.2.1 h.2.2
  rw [hopen, hinner, topLevelFrom, if_neg (by simp)]
  simp [closer?, isCloser]

/-- Characters that are no brackets change nothing within brackets. -/
theorem topLevelFrom_char {c : Char} (hc : ∀ pair ∈ bracketPairs, c ≠ pair.1 ∧ c ≠ pair.2)
    {closer : Char} (hless : c = '<' → closer ≠ '>') (hmore : c = '>' → closer ≠ '>')
    (awaited rest : Text) :
    topLevelFrom (closer :: awaited) (c :: rest) = topLevelFrom (closer :: awaited) rest := by
  have hround := hc ('(', ')') (by decide)
  have hsquare := hc ('[', ']') (by decide)
  have hcurly := hc ('{', '}') (by decide)
  rw [topLevelFrom, if_neg (by simp)]
  by_cases hangle : c = '<'
  · -- The sign of a comparison.
    subst hangle
    simp [closer?, hless rfl]
  · have hnone : closer? c = none := by
      simp only [closer?]
      split <;> simp_all
    rw [hnone]
    by_cases hangle' : c = '>'
    · subst hangle'
      simp [isCloser, hmore rfl]
    · simp [isCloser, hround.2, hsquare.2, hcurly.2, hangle']

/-- Within brackets other than those of type arguments, properly nested text
    changes nothing. -/
theorem Nested.topLevelFrom {text : Text} (h : Nested text) {closer : Char} (hcloser : closer ≠ '>')
    (awaited rest : Text) :
    EnumCompanion.topLevelFrom (closer :: awaited) (text ++ rest) =
      EnumCompanion.topLevelFrom (closer :: awaited) rest := by
  induction h generalizing closer awaited rest with
  | nil => rfl
  | char hc _ ih =>
    rw [List.cons_append, topLevelFrom_char hc (fun _ => hcloser) (fun _ => hcloser), ih hcloser]
  | @group pair inner text hpair _ _ ihinner ihrest =>
    have hcloser' : pair.2 ≠ '>' := by
      rcases mem_bracketPairs.1 hpair with rfl | rfl | rfl <;> decide
    rw [List.cons_append, List.append_assoc, List.cons_append,
      topLevelFrom_group hpair fun awaited rest => ihinner hcloser' awaited rest, ihrest hcloser]

/-- An argument list or the like is passed over. -/
theorem Nested.topLevelFrom_group {pair : Char × Char} (hpair : pair ∈ bracketPairs) {inner : Text}
    (h : Nested inner) (awaited rest : Text) :
    EnumCompanion.topLevelFrom awaited (pair.1 :: (inner ++ pair.2 :: rest)) =
      EnumCompanion.topLevelFrom awaited rest := by
  have hcloser : pair.2 ≠ '>' := by
    rcases mem_bracketPairs.1 hpair with rfl | rfl | rfl <;> decide
  exact EnumCompanion.topLevelFrom_group hpair
    (fun awaited rest => h.topLevelFrom hcloser awaited rest) awaited rest

/-- Within type arguments, properly nested text changes nothing. -/
theorem TypeArguments.topLevelFrom {text : Text} (h : TypeArguments text) (awaited rest : Text) :
    EnumCompanion.topLevelFrom ('>' :: awaited) (text ++ rest) =
      EnumCompanion.topLevelFrom ('>' :: awaited) rest := by
  induction h generalizing awaited rest with
  | nil => rfl
  | char hc hangle _ ih =>
    rw [List.cons_append, topLevelFrom_char hc (absurd · hangle.1) (absurd · hangle.2), ih]
  | group hpair hinner _ ihrest =>
    rw [List.cons_append, List.append_assoc, List.cons_append, hinner.topLevelFrom_group hpair,
      ihrest]
  | angle _ _ ihinner ihrest =>
    rw [List.cons_append, List.append_assoc, List.cons_append,
      topLevelFrom_angle ihinner (.inr rfl), ihrest]

end EnumCompanion
