import EnumCompanion.Declaration.Body
import Mathlib.Data.List.Basic
import Mathlib.Tactic.Common

/-!
# The scan of a value list

What of a value list stands outside every bracket is found in one scan, whose
state are the closers of the brackets that are open. The scan of two texts, one
behind the other, is that of the second one from the state behind the first one,
and what is found in it can be traced back to its place.

* `awaitedStep`, `awaitedBehind`: the state behind a character and behind a text;
* `topLevelFrom_cons`: one step of the scan;
* `topLevelFrom_append`: the scan of two texts;
* `exists_of_topLevelFrom`: the place of what is found;
* `isBracket_or_getLast?`, `isBracket_or_head?`: what stands next to such a place.
-/

namespace EnumCompanion

open Text

/-- Whether a character opens or closes brackets. -/
def isBracket (c : Char) : Bool := (closer? c).isSome || isCloser c

/-- The closers that are awaited behind a character, the innermost first. -/
def awaitedStep (awaited : Text) (c : Char) : Text :=
  match closer? c with
  | some closer =>
    if c = '<' ∧ awaited ≠ [] ∧ awaited.head? ≠ some '>' then awaited else closer :: awaited
  | none => if isCloser c ∧ awaited.head? = some c then awaited.tail else awaited

/-- The closers that are awaited behind a text, unless the value list has ended. -/
def awaitedBehind (awaited : Text) : Text → Option Text
  | [] => some awaited
  | c :: rest => if c = ';' ∧ awaited = [] then none else awaitedBehind (awaitedStep awaited c) rest

theorem awaitedStep_of_not_isBracket {c : Char} (h : isBracket c = false) (awaited : Text) :
    awaitedStep awaited c = awaited := by
  rw [isBracket, Bool.or_eq_false_iff, Option.isSome_eq_false_iff, Option.isNone_iff_eq_none] at h
  rw [awaitedStep, h.1]
  exact if_neg (by simp [h.2])

/-- One step of the scan: a character is found if it is no bracket and none is
    open. -/
theorem topLevelFrom_cons (awaited : Text) (c : Char) (rest : Text) :
    topLevelFrom awaited (c :: rest) = if c = ';' ∧ awaited = [] then [] else
      (if awaited = [] ∧ isBracket c = false then [c] else []) ++
        topLevelFrom (awaitedStep awaited c) rest := by
  rw [topLevelFrom, awaitedStep, isBracket]
  by_cases hends : c = ';' ∧ awaited = []
  · rw [if_pos hends, if_pos hends]
  rw [if_neg hends, if_neg hends]
  cases closer? c with
  | some closer =>
    rw [if_neg (show ¬(awaited = [] ∧ _) by simp), List.nil_append]
    dsimp only
    split_ifs <;> rfl
  | none =>
    by_cases hcloses : isCloser c = true <;> by_cases htop : awaited = [] <;>
      simp [hcloses, htop]

theorem awaitedBehind_cons (awaited : Text) (c : Char) (rest : Text) :
    awaitedBehind awaited (c :: rest) =
      if c = ';' ∧ awaited = [] then none else awaitedBehind (awaitedStep awaited c) rest := rfl

/-- A character that is neither a bracket nor a semicolon is found where none is
    open. -/
theorem topLevel_cons {c : Char} (hbracket : isBracket c = false) (hends : c ≠ ';') (rest : Text) :
    topLevel (c :: rest) = c :: topLevel rest := by
  rw [topLevel, topLevelFrom_cons, if_neg fun h => hends h.1, if_pos ⟨rfl, hbracket⟩,
    awaitedStep_of_not_isBracket hbracket]
  rfl

theorem awaitedBehind_top_cons {c : Char} (hbracket : isBracket c = false) (hends : c ≠ ';')
    (rest : Text) : awaitedBehind [] (c :: rest) = awaitedBehind [] rest := by
  rw [awaitedBehind_cons, if_neg fun h => hends h.1, awaitedStep_of_not_isBracket hbracket]

/-- The state behind two texts. -/
theorem awaitedBehind_append (awaited text rest : Text) : awaitedBehind awaited (text ++ rest) =
    (awaitedBehind awaited text).bind (awaitedBehind · rest) := by
  induction text generalizing awaited with
  | nil => rfl
  | cons c text ih =>
    rw [List.cons_append, awaitedBehind_cons, awaitedBehind_cons]
    split_ifs
    · rfl
    · exact ih _

/-- The scan of two texts: the second one is scanned from the state behind the
    first one, or not at all. -/
theorem topLevelFrom_append (awaited text rest : Text) : topLevelFrom awaited (text ++ rest) =
    topLevelFrom awaited text ++ (awaitedBehind awaited text).elim [] (topLevelFrom · rest) := by
  induction text generalizing awaited with
  | nil => rfl
  | cons c text ih =>
    rw [List.cons_append, topLevelFrom_cons, topLevelFrom_cons, awaitedBehind_cons]
    split_ifs
    · rfl
    · rw [ih, List.append_assoc]
    · rw [ih, List.append_assoc]

/-- A text that goes on behind the end of its value list, or with some open
    brackets. -/
theorem topLevelFrom_append_of_eq_none {awaited text : Text}
    (h : awaitedBehind awaited text = none) (rest : Text) :
    topLevelFrom awaited (text ++ rest) = topLevelFrom awaited text := by
  rw [topLevelFrom_append, h]
  exact List.append_nil _

theorem topLevelFrom_append_of_eq_some {awaited awaited' text : Text}
    (h : awaitedBehind awaited text = some awaited') (rest : Text) :
    topLevelFrom awaited (text ++ rest) =
      topLevelFrom awaited text ++ topLevelFrom awaited' rest := by
  rw [topLevelFrom_append, h]
  rfl

/-- What is found has a place in the text: there no bracket is open, and what is
    found before and behind it stands before and behind that place. -/
theorem exists_of_topLevelFrom {awaited text kept kept' : Text} {c : Char}
    (h : topLevelFrom awaited text = kept ++ c :: kept') : ∃ before behind,
      text = before ++ c :: behind ∧ awaitedBehind awaited before = some [] ∧
        topLevelFrom awaited before = kept ∧ isBracket c = false ∧ c ≠ ';' ∧
          topLevelFrom [] behind = kept' := by
  induction text generalizing awaited kept with
  | nil => simp [topLevelFrom] at h
  | cons d text ih =>
    rw [topLevelFrom_cons] at h
    by_cases hends : d = ';' ∧ awaited = []
    · simp [hends] at h
    rw [if_neg hends] at h
    by_cases hfound : awaited = [] ∧ isBracket d = false
    · obtain ⟨rfl, hd⟩ := hfound
      have hsemicolon : d ≠ ';' := fun hc => hends ⟨hc, rfl⟩
      rw [if_pos ⟨rfl, hd⟩, awaitedStep_of_not_isBracket hd, List.singleton_append] at h
      cases kept with
      | nil =>
        obtain ⟨rfl, rfl⟩ := List.cons.inj h
        exact ⟨[], text, rfl, rfl, rfl, hd, hsemicolon, rfl⟩
      | cons e kept =>
        obtain ⟨rfl, hrest⟩ := List.cons.inj h
        obtain ⟨before, behind, rfl, hbefore, hkept, hbehind⟩ := ih hrest
        refine ⟨d :: before, behind, rfl, ?_, ?_, hbehind⟩
        · rwa [awaitedBehind_top_cons hd hsemicolon]
        · exact (topLevel_cons hd hsemicolon before).trans (congrArg (d :: ·) hkept)
    · rw [if_neg hfound, List.nil_append] at h
      obtain ⟨before, behind, rfl, hbefore, hkept, hbehind⟩ := ih h
      refine ⟨d :: before, behind, rfl, ?_, ?_, hbehind⟩
      · rwa [awaitedBehind_cons, if_neg hends]
      · rwa [topLevelFrom_cons, if_neg hends, if_neg hfound, List.nil_append]

/-- The character before a place where no bracket is open is a bracket, or the
    last one that is found before it. -/
theorem isBracket_or_getLast? {awaited before : Text} {c : Char}
    (h : awaitedBehind awaited (before ++ [c]) = some []) :
    isBracket c = true ∨ (topLevelFrom awaited (before ++ [c])).getLast? = some c := by
  rw [awaitedBehind_append, Option.bind_eq_some_iff] at h
  obtain ⟨awaited', hbefore, hc⟩ := h
  rw [awaitedBehind_cons, Option.ite_none_left_eq_some] at hc
  obtain ⟨hends, hstep⟩ := hc
  by_cases hbracket : isBracket c = true
  · exact .inl hbracket
  rw [Bool.not_eq_true] at hbracket
  obtain rfl : awaited' = [] := by
    rw [awaitedStep_of_not_isBracket hbracket] at hstep
    exact Option.some.inj hstep
  refine .inr ?_
  rw [topLevelFrom_append_of_eq_some hbefore, topLevelFrom_cons, if_neg hends,
    if_pos ⟨rfl, hbracket⟩, List.getLast?_append]
  rfl

/-- A character behind a place where no bracket is open is a bracket, a semicolon,
    or the first one that is found. -/
theorem isBracket_or_head? (c : Char) (rest : Text) :
    isBracket c = true ∨ c = ';' ∨ (topLevel (c :: rest)).head? = some c := by
  by_cases hbracket : isBracket c = true
  · exact .inl hbracket
  by_cases hends : c = ';'
  · exact .inr (.inl hends)
  · rw [Bool.not_eq_true] at hbracket
    exact .inr (.inr (by rw [topLevel_cons hbracket hends]; rfl))

end EnumCompanion
