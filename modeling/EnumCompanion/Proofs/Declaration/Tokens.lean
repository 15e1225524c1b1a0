import EnumCompanion.Proofs.Declaration.Entries
import EnumCompanion.Proofs.Declaration.Top

/-!
# Value lists around a block

A block is words and a properly nested group in braces. In a value list it counts
only where no bracket is open, and there its words become part of an entry. With
blanks between them they make no value name unless a dot comes before, so that the
tokens are those of the list with any other words in the place of the block, or
none, if all of them are value names.

* `exists_splitOn_append`: the entry at a seam;
* `tokensOf_append_cons`: the tokens of two lists with a comma between them;
* `IsFiller`, `IsFiller.tokensOf`: the tokens of a list with words in it;
* `CountsAs`, `IsMember`, `IsMember.valueTokens`: those of a list with a block in it.
-/

namespace EnumCompanion

open Text

/-! ### Annotations -/

/-- No annotation goes on behind a character that is no part of one. -/
theorem withoutAnnotationsFrom_append_cons {c : Char} (hc : isAnnotationChar c = false)
    (hat : c ≠ '@') (within : Bool) (text rest : Text) :
    withoutAnnotationsFrom within (text ++ c :: rest) =
      withoutAnnotationsFrom within text ++ c :: withoutAnnotations rest := by
  have hstart : isNameStart c = false := by
    rw [isAnnotationChar, Bool.or_eq_false_iff] at hc
    rw [Bool.eq_false_iff]
    exact fun h => Bool.noConfusion
      ((isWordChar_of_isNameChar (isNameChar_of_isNameStart h)).symm.trans hc.1)
  induction text generalizing within with
  | nil =>
    change withoutAnnotationsFrom within (c :: rest) = c :: withoutAnnotations rest
    rw [withoutAnnotationsFrom, hc, Bool.and_false, if_neg Bool.false_ne_true,
      if_neg fun h => hat h.1]
    rfl
  | cons d text ih =>
    have hhead : (text ++ c :: rest).head?.any isNameStart = text.head?.any isNameStart := by
      cases text with
      | nil => exact hstart
      | cons e text => rfl
    rw [List.cons_append, withoutAnnotationsFrom, withoutAnnotationsFrom, hhead, ih, ih]
    split_ifs <;> rfl

/-! ### Entries -/

/-- The entries of two lists, one behind the other: the last of the first list
    goes on with the first of the second. -/
theorem exists_splitOn_append (text : Text) : ∃ (entries : List Text) (last : Text), ∀ rest : Text,
    (text ++ rest).splitOn ',' = entries ++ (rest.splitOn ',').modifyHead (last ++ ·) := by
  induction text with
  | nil =>
    refine ⟨[], [], fun rest => ?_⟩
    rw [List.nil_append, List.nil_append]
    cases rest.splitOn ',' <;> rfl
  | cons c text ih =>
    obtain ⟨entries, last, hsplit⟩ := ih
    by_cases hc : c = ','
    · refine ⟨[] :: entries, last, fun rest => ?_⟩
      rw [List.cons_append, List.splitOn_cons_eq_if_modifyHead, if_pos (beq_of_eq hc), hsplit]
      rfl
    have hstep : ∀ rest : Text, (c :: text ++ rest).splitOn ',' =
        (entries ++ (rest.splitOn ',').modifyHead (last ++ ·)).modifyHead (c :: ·) := fun rest => by
      rw [List.cons_append, List.splitOn_cons_eq_if_modifyHead, if_neg (by simpa using hc), hsplit]
    cases entries with
    | nil =>
      refine ⟨[], c :: last, fun rest => ?_⟩
      rw [hstep]
      cases rest.splitOn ',' <;> rfl
    | cons entry entries => exact ⟨(c :: entry) :: entries, last, hstep⟩

/-- A text without commas becomes part of the first entry behind it. -/
theorem splitOn_append_of_notMem {text : Text} (h : ',' ∉ text) (rest : Text) :
    (text ++ rest).splitOn ',' = (rest.splitOn ',').modifyHead (text ++ ·) := by
  induction text with
  | nil => cases hrest : rest.splitOn ',' <;> simp [hrest]
  | cons c text ih =>
    rw [List.mem_cons, not_or] at h
    rw [List.cons_append, List.splitOn_cons_eq_if_modifyHead, if_neg (by simpa using Ne.symm h.1),
      ih h.2]
    cases rest.splitOn ',' <;> rfl

/-- A comma separates the tokens of a value list. -/
theorem tokensOf_append_cons (text rest : Text) :
    tokensOf (text ++ ',' :: rest) = tokensOf text ++ tokensOf rest := by
  obtain ⟨entries, last, hsplit⟩ := exists_splitOn_append text
  have htext : text.splitOn ',' = entries ++ [last] := by
    have := hsplit []
    rwa [List.append_nil, List.splitOn_nil, List.modifyHead_cons, List.append_nil] at this
  have hcomma : (',' :: rest).splitOn ',' = [] :: rest.splitOn ',' := by
    rw [List.splitOn_cons_eq_if_modifyHead, if_pos (by rfl)]
  rw [tokensOf, tokensOf, tokensOf, hsplit, hcomma, htext, List.modifyHead_cons, List.append_nil,
    List.append_cons, List.map_append, List.filter_append]

/-- Blanks before an entry are no part of its token. -/
theorem entryToken_append {blanks : Text} (h : ∀ c ∈ blanks, isBlank c = true) (entry : Text) :
    entryToken (blanks ++ entry) = entryToken entry := by
  have hdot : ∀ c ∈ blanks, (c != '.') = true := fun c hc => by
    rw [bne_iff_ne]
    rintro rfl
    exact absurd (h _ hc) (by decide)
  rw [entryToken, entryToken, List.takeWhile_append_of_pos hdot, strip, strip,
    List.dropWhile_append_of_pos h]

theorem tokensOf_append {blanks : Text} (h : ∀ c ∈ blanks, isBlank c = true) (text : Text) :
    tokensOf (blanks ++ text) = tokensOf text := by
  have hcomma : ',' ∉ blanks := fun hc => notMem_cuts_of_isBlank (h _ hc) (by decide)
  rw [tokensOf, tokensOf, splitOn_append_of_notMem hcomma]
  cases text.splitOn ',' with
  | nil => rfl
  | cons entry entries =>
    rw [List.modifyHead_cons, List.map_cons, List.map_cons, entryToken_append h]

/-- What stands between characters that are no blanks is not stripped. -/
theorem mem_strip {before gap behind : Text} {first last c : Char} (hfirst : isBlank first = false)
    (hlast : isBlank last = false) (hc : c ∈ gap) :
    c ∈ strip (before ++ first :: (gap ++ last :: behind)) := by
  have hdrop : ∀ (before : Text) {stop : Char}, isBlank stop = false → ∀ rest, ∃ before',
      (before ++ stop :: rest).dropWhile isBlank = before' ++ stop :: rest := by
    intro before stop hstop rest
    rw [List.dropWhile_append]
    split_ifs
    · exact ⟨[], List.dropWhile_cons_of_neg (by simp [hstop])⟩
    · exact ⟨_, rfl⟩
  obtain ⟨before', hbefore⟩ := hdrop before hfirst (gap ++ last :: behind)
  obtain ⟨behind', hbehind⟩ := hdrop behind.reverse hlast (gap.reverse ++ first :: before'.reverse)
  have hreverse : (before' ++ first :: (gap ++ last :: behind)).reverse =
      behind.reverse ++ last :: (gap.reverse ++ first :: before'.reverse) := by
    simp
  rw [strip, hbefore, hreverse, hbehind, List.mem_reverse]
  simp [hc]

/-! ### Fillers -/

/-- What a block leaves at the top of a value list: words with blanks between
    them, and nothing that ends a token. -/
structure IsFiller (filler : Text) : Prop where
  cuts : ∀ c ∈ filler, c ∉ cuts
  dot : '.' ∉ filler
  words : ∃ before first gap last behind, filler = before ++ first :: (gap ++ last :: behind) ∧
    isBlank first = false ∧ isBlank last = false ∧ ∃ c ∈ gap, isBlank c = true

/-- The token of an entry ends at a dot, whatever follows it. -/
theorem entryToken_append_of_mem {before : Text} (h : '.' ∈ before) (rest : Text) :
    entryToken (before ++ rest) = entryToken before := by
  rw [entryToken, entryToken, List.takeWhile_append, if_neg]
  intro hlength
  have hself := (List.takeWhile_prefix (· != '.')).eq_of_length hlength
  exact absurd (List.takeWhile_eq_self_iff.1 hself _ h) (by decide)

/-- A filler makes the token of its entry no value name if no dot comes before. -/
theorem IsFiller.entryToken {filler : Text} (h : IsFiller filler) {before : Text}
    (hdot : '.' ∉ before) (behind : Text) :
    EnumCompanion.entryToken (before ++ (filler ++ behind)) ≠ [] ∧
      isValueName (EnumCompanion.entryToken (before ++ (filler ++ behind))) = false := by
  -- The token takes in the filler, with a blank that no name has.
  have hrun : ∀ c ∈ before ++ filler, (c != '.') = true := fun c hc => by
    rw [bne_iff_ne]
    rintro rfl
    exact (List.mem_append.1 hc).elim hdot h.dot
  obtain ⟨before', first, gap, last, behind', rfl, hfirst, hlast, c, hc, hblank⟩ := h.words
  have hmem : c ∈ EnumCompanion.entryToken
      (before ++ (before' ++ first :: (gap ++ last :: behind') ++ behind)) := by
    rw [EnumCompanion.entryToken, ← List.append_assoc, List.takeWhile_append_of_pos hrun]
    have := @mem_strip (before ++ before') gap (behind' ++ behind.takeWhile (· != '.')) first last c
      hfirst hlast hc
    simpa only [List.append_assoc, List.cons_append] using this
  refine ⟨List.ne_nil_of_mem hmem, Bool.eq_false_iff.2 fun hname => ?_⟩
  exact Bool.noConfusion (hblank.symm.trans
    (isBlank_of_isNameChar (isNameChar_of_isValueName hname c hmem)))

/-- If all tokens of a list with a filler in it are value names, they are those of
    the list with any other words in its place. -/
theorem IsFiller.tokensOf {filler other : Text} (h : IsFiller filler) (hother : ',' ∉ other)
    {before behind : Text} (hnames : ∀ token ∈ EnumCompanion.tokensOf (before ++ (filler ++ behind)),
      isValueName token = true) :
    EnumCompanion.tokensOf (before ++ (other ++ behind)) =
      EnumCompanion.tokensOf (before ++ (filler ++ behind)) := by
  -- Only the entry at the seam differs.
  obtain ⟨entries, last, hsplit⟩ := exists_splitOn_append before
  obtain ⟨first, others, hbehind⟩ := List.exists_cons_of_ne_nil (List.splitOn_ne_nil ',' behind)
  have htokens : ∀ words : Text, ',' ∉ words → EnumCompanion.tokensOf (before ++ (words ++ behind)) =
      ((entries ++ (last ++ (words ++ first)) :: others).map EnumCompanion.entryToken).filter
        (· ≠ []) := by
    intro words hwords
    rw [EnumCompanion.tokensOf, hsplit, splitOn_append_of_notMem hwords, hbehind]
    rfl
  have hfiller := htokens filler fun hc => h.cuts _ hc (by decide)
  by_cases hdot : '.' ∈ last
  · -- The token ends before the words.
    rw [htokens other hother, hfiller, List.map_append, List.map_append, List.map_cons, List.map_cons,
      entryToken_append_of_mem hdot, entryToken_append_of_mem hdot]
  · obtain ⟨hne, hbad⟩ := h.entryToken hdot first
    refine absurd (hnames (EnumCompanion.entryToken (last ++ (filler ++ first))) ?_) (by simp [hbad])
    rw [hfiller, List.mem_filter]
    exact ⟨List.mem_map_of_mem (by simp), by simpa using hne⟩

/-! ### Blocks -/

/-- A block in a value list: words, and a properly nested group in braces. -/
structure IsMember (block filler : Text) : Prop where
  exists_group : ∃ head inner tail, block = head ++ '{' :: (inner ++ '}' :: tail) ∧
    filler = head ++ tail ∧ (∀ c ∈ head, c ∉ signs) ∧ (∀ c ∈ tail, c ∉ signs) ∧ Nested inner
  filler : IsFiller filler

/-- A part of a value list that counts as some words where no bracket is open,
    and as nothing elsewhere. -/
def CountsAs (part words : Text) : Prop :=
  ∀ awaited rest, topLevelFrom awaited (part ++ rest) =
    (if awaited = [] then words else []) ++ topLevelFrom awaited rest

theorem countsAs_nil : CountsAs [] [] := fun awaited rest => by
  split_ifs <;> rfl

/-- A block counts as its words. -/
theorem IsMember.countsAs {block filler : Text} (h : IsMember block filler) :
    CountsAs block filler := by
  obtain ⟨head, inner, tail, rfl, rfl, hhead, htail, hinner⟩ := h.exists_group
  intro awaited rest
  rw [List.append_assoc, List.cons_append, List.append_assoc, List.cons_append,
    topLevelFrom_append_of_notMem hhead,
    hinner.topLevelFrom_group (show ('{', '}') ∈ bracketPairs by decide),
    topLevelFrom_append_of_notMem htail]
  split_ifs
  · rw [List.append_assoc]
  · rfl

/-- If all tokens of a list with a block on a new line in it are value names, they
    are those of the list with any other words in the place of the block. -/
theorem IsMember.valueTokens {block filler part words : Text} (h : IsMember block filler)
    (hpart : CountsAs part words) (hwords : ∀ c ∈ words, c ∉ cuts) {start rest : Text}
    (hstart : start.getLast? = some '\n')
    (hnames : ∀ token ∈ EnumCompanion.valueTokens (start ++ (block ++ rest)),
      isValueName token = true) :
    EnumCompanion.valueTokens (start ++ (part ++ rest)) =
      EnumCompanion.valueTokens (start ++ (block ++ rest)) := by
  obtain ⟨init, rfl⟩ := List.getLast?_eq_some_iff.1 hstart
  have hfeed : ∀ c ∈ ['\n'], c ∉ signs := forall_mem_of_all (by decide)
  simp only [List.append_assoc] at hnames ⊢
  cases hinit : awaitedBehind [] init with
  | none =>
    -- The list ends before the block.
    have hend : ∀ rest, topLevel (init ++ rest) = _ := topLevelFrom_append_of_eq_none hinit
    rw [EnumCompanion.valueTokens, EnumCompanion.valueTokens, hend, hend]
  | some awaited =>
    have hopen : ∀ {part words : Text}, CountsAs part words →
        topLevel (init ++ (['\n'] ++ (part ++ rest))) = _ := fun hcounts =>
      (topLevelFrom_append_of_eq_some hinit _).trans
        (by rw [topLevelFrom_append_of_notMem hfeed, hcounts])
    have hwith := hopen h.countsAs
    have hother := hopen hpart
    by_cases hawaited : awaited = []
    · -- At the top the words are part of an entry, and a line feed keeps them apart
      -- from annotations.
      rw [if_pos hawaited, if_pos hawaited] at hwith hother
      have hlist : ∀ {words : Text}, (∀ c ∈ words, c ∉ cuts) → ∀ rest,
          withoutAnnotations (EnumCompanion.topLevelFrom [] init ++ (['\n'] ++ (words ++ rest))) =
            (withoutAnnotations (EnumCompanion.topLevelFrom [] init) ++ ['\n']) ++
              (words ++ withoutAnnotations rest) := fun hwords rest => by
        rw [← withoutAnnotations_append fun hc => hwords _ hc (by decide)]
        exact (withoutAnnotationsFrom_append_cons (by decide) (by decide) false _ _).trans
          (List.append_cons ..)
      have htokens : ∀ body, EnumCompanion.valueTokens body =
          tokensOf (withoutAnnotations (topLevel body)) := fun _ => rfl
      rw [htokens, hwith, hlist h.filler.cuts] at hnames
      rw [htokens, htokens, hwith, hother, hlist h.filler.cuts, hlist hwords]
      exact h.filler.tokensOf (fun hc => hwords _ hc (by decide)) hnames
    · rw [if_neg hawaited, if_neg hawaited] at hwith hother
      rw [EnumCompanion.valueTokens, EnumCompanion.valueTokens, hwith, hother]

end EnumCompanion
