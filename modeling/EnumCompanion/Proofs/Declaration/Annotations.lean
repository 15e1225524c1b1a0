import EnumCompanion.Proofs.Declaration.Tokens
import EnumCompanion.Proofs.Mask.Segment

/-!
# Annotations before entries

Before an entry of a value list may stand annotations, with blanks and comments
between them. In the mask comments are blanks. Of an annotation the arguments
stand in brackets, so that only its name is left at the top of the list, for
which there is a space at last. So nothing but blanks is left before the entry,
and these are stripped.

The name that is left goes on as far as word characters do, though. Where no
blank stands behind the arguments of the last annotation, what follows them is
lost with it; and a dollar sign ends a name that should go on.

* `Gap`, `Gap.exists_maskFrom`: a blank or a comment, and its mask;
* `Lead`: what may stand before an entry;
* `Lead.exists_fades`: what is left of it;
* `StartsEntry`, `valueTokens_lead`: the values do not depend on it.
-/

namespace EnumCompanion

open Text Mask

/-! ### Gaps -/

/-- One blank, or one comment with its end. -/
inductive Gap : Text → Prop where
  | blank {c : Char} (hc : isBlank c = true) : Gap [c]
  | lineComment {body : Text} (hbody : '\n' ∉ body) : Gap ('/' :: '/' :: (body ++ ['\n']))
  | blockComment {inner : Text} (hinner : Comment inner ['*', '/']) :
    Gap ('/' :: '*' :: (inner ++ ['*', '/']))

/-- The mask of a gap in code is one of blanks, whatever stands around it. -/
theorem Gap.exists_maskFrom {gap : Text} (h : Gap gap) : ∃ blanks : Text, blanks ≠ [] ∧
    (∀ c ∈ blanks, isBlank c = true) ∧ ∀ trail behind,
      maskFrom (.code trail) (gap ++ behind) = blanks ++ maskFrom (.code .clear) behind := by
  have hmap : ∀ text : Text, ∀ c ∈ text.map blanked, isBlank c = true := by
    intro text c hc
    obtain ⟨d, -, rfl⟩ := List.mem_map.1 hc
    exact isBlank_blanked d
  cases h with
  | @blank c hc =>
    refine ⟨[c], List.cons_ne_nil _ _, by simpa using hc, fun trail behind => ?_⟩
    have halnum : isAlnum c = false := (Bool.or_eq_false_iff.1 (isWordChar_of_isBlank hc)).1
    have hplain := isPlain_of_isBlank hc
    rw [List.singleton_append, maskFrom_cons, shown, shows_of_plain hplain rfl, if_pos rfl,
      step_of_plain hplain rfl, Trail.next_of_not_isAlnum halnum]
    rfl
  | @lineComment body hbody =>
    refine ⟨('/' :: '/' :: (body ++ ['\n'])).map blanked, List.cons_ne_nil _ _, hmap _,
      fun trail behind => ?_⟩
    have hides : Hides (.code trail) ('/' :: '/' :: body) ('\n' :: behind) .lineComment :=
      Hides.opens rfl rfl rfl (.cons rfl (hides_lineComment hbody _))
    have hfeed : maskFrom .lineComment ('\n' :: behind) =
        '\n' :: maskFrom (.code .clear) behind := by
      rw [maskFrom_cons, shown, shows_of_plain (by decide) rfl, if_pos rfl,
        step_of_plain (by decide) rfl, Trail.next_of_not_isAlnum (by decide)]
    rw [Hides, hfeed] at hides
    simpa [blanked] using hides
  | @blockComment inner hinner =>
    refine ⟨('/' :: '*' :: (inner ++ ['*', '/'])).map blanked, List.cons_ne_nil _ _, hmap _,
      fun trail behind => ?_⟩
    obtain ⟨half, hhalf, hides⟩ := (hinner.append (List.cons_ne_nil _ _) behind).hides 0 (.none _)
    refine Hides.opens rfl rfl rfl (.cons rfl (.append hides (.cons rfl ?_)))
    rw [Mode.absorb, absorbComment_of_ends hhalf]
    exact .cons rfl (.nil _ behind)

/-! ### Leads -/

/-- A letter or an underscore, and word characters and dots. -/
def IsAnnotationName (name : Text) : Prop :=
  ∃ c rest, name = c :: rest ∧ isNameStart c = true ∧ ∀ d ∈ rest, isAnnotationChar d = true

/-- What may stand before an entry: blanks, comments and annotations. Behind the
    name of an annotation stands a gap, unless there are arguments. -/
inductive Lead : Text → Prop where
  | nil : Lead []
  | gap {gap rest : Text} (hgap : Gap gap) (h : Lead rest) : Lead (gap ++ rest)
  | named {name gap rest : Text} (hname : IsAnnotationName name) (hgap : Gap gap) (h : Lead rest) :
    Lead ('@' :: (name ++ (gap ++ rest)))
  | called {name arguments rest : Text} (hname : IsAnnotationName name)
    (harguments : IsArgumentList arguments.masked) (h : Lead rest) :
    Lead ('@' :: (name ++ (arguments ++ rest)))

/-- What is left of a text before an entry: its mask, what of that stands at the top
    of the value list, and blanks in the place of this. -/
structure Fades (lead masked kept blanks : Text) : Prop where
  mask : ∀ behind,
    maskFrom (.code .clear) (lead ++ behind) = masked ++ maskFrom (.code .clear) behind
  keeps : Keeps masked kept
  blank : ∀ c ∈ blanks, isBlank c = true
  annotations : ∀ within, (within = true → lead ≠ []) → ∀ tail,
    withoutAnnotationsFrom within (kept ++ tail) = blanks ++ withoutAnnotations tail

theorem isAnnotationChar_of_isNameStart {c : Char} (h : isNameStart c = true) :
    isAnnotationChar c = true := by
  rw [isAnnotationChar, isWordChar_of_isNameChar (isNameChar_of_isNameStart h), Bool.true_or]

theorem isAnnotationChar_of_isBlank {c : Char} (h : isBlank c = true) :
    isAnnotationChar c = false := by
  rw [isAnnotationChar, isWordChar_of_isBlank h, Bool.false_or, beq_eq_false_iff_ne]
  rintro rfl
  exact absurd h (by decide)

namespace IsAnnotationName

variable {name : Text}

theorem isAnnotationChar (h : IsAnnotationName name) :
    ∀ c ∈ name, EnumCompanion.isAnnotationChar c = true := by
  obtain ⟨c, rest, rfl, hc, hrest⟩ := h
  exact List.forall_mem_cons.2 ⟨isAnnotationChar_of_isNameStart hc, hrest⟩

/-- An annotation in code is its own mask. -/
theorem exists_maskFrom (h : IsAnnotationName name) : ∃ trail, ∀ behind,
    maskFrom (.code .clear) ('@' :: (name ++ behind)) =
      '@' :: (name ++ maskFrom (.code trail) behind) := by
  have hplain : ∀ c ∈ '@' :: name, IsPlain c := by
    refine List.forall_mem_cons.2 ⟨by decide, fun c hc => ?_⟩
    have hc := h.isAnnotationChar c hc
    refine ⟨?_, ?_, ?_⟩ <;> rintro rfl <;> exact absurd hc (by decide)
  have hlast : ('@' :: name).getLast? ≠ some '/' := fun hlast =>
    (hplain _ (List.mem_of_getLast? hlast)).1 rfl
  refine ⟨('@' :: name).foldl Trail.next .clear, fun behind => ?_⟩
  have hmask : maskFrom (.code .clear) ('@' :: name ++ behind) = _ :=
    maskFrom_append (seam_of_getLast? hlast behind)
  rwa [maskFrom_of_plain hplain, after_of_plain hplain] at hmask

/-- An annotation is kept at the top of a value list. -/
theorem keeps (h : IsAnnotationName name) : Keeps ('@' :: name) ('@' :: name) := by
  refine keeps_self (List.forall_mem_cons.2 ⟨by decide, fun c hc => ?_⟩)
  exact notMem_signs (forall_mem_of_all (by decide)) (h.isAnnotationChar c hc)

/-- There is a space for an annotation, behind which its name may go on. -/
theorem withoutAnnotationsFrom (h : IsAnnotationName name) (within : Bool) (rest : Text) :
    EnumCompanion.withoutAnnotationsFrom within ('@' :: (name ++ rest)) =
      ' ' :: EnumCompanion.withoutAnnotationsFrom true rest := by
  have hrun : ∀ name : Text, (∀ c ∈ name, EnumCompanion.isAnnotationChar c = true) →
      EnumCompanion.withoutAnnotationsFrom true (name ++ rest) =
        EnumCompanion.withoutAnnotationsFrom true rest := by
    intro name hname
    induction name with
    | nil => rfl
    | cons c name ih =>
      obtain ⟨hc, hname⟩ := List.forall_mem_cons.1 hname
      rw [List.cons_append, EnumCompanion.withoutAnnotationsFrom, hc, Bool.and_true, if_pos rfl,
        ih hname]
  have hat : EnumCompanion.isAnnotationChar '@' = false := by decide
  have hhead : (name ++ rest).head?.any isNameStart = true := by
    obtain ⟨c, tail, rfl, hc, -⟩ := h
    exact hc
  rw [EnumCompanion.withoutAnnotationsFrom, hat, Bool.and_false, if_neg Bool.false_ne_true,
    if_pos ⟨rfl, hhead⟩, hrun name h.isAnnotationChar]

end IsAnnotationName

/-- Arguments lead to code, with a bracket at their end. -/
theorem after_arguments {arguments : Text} (h : IsArgumentList arguments.masked) :
    after (.code .clear) arguments = .code .clear ∧ arguments.getLast? = some ')' := by
  obtain ⟨inner, -, hmask⟩ := h
  refine after_of_getLast?_eq (by decide) (by decide) (by decide) ?_
  rw [show maskFrom (.code .clear) arguments = _ from hmask, ← List.cons_append,
    List.getLast?_concat]

/-- Arguments in code are masked as by themselves. -/
theorem maskFrom_arguments {arguments : Text} (h : IsArgumentList arguments.masked)
    (trail : Trail) (behind : Text) : maskFrom (.code trail) (arguments ++ behind) =
      arguments.masked ++ maskFrom (.code .clear) behind := by
  obtain ⟨hafter, hlast⟩ := after_arguments h
  obtain ⟨inner, -, hmask⟩ := h
  -- What stands before the opening bracket does not matter.
  have htrail : maskFrom (.code trail) (arguments ++ behind) =
      maskFrom (.code .clear) (arguments ++ behind) := by
    obtain ⟨c, rest, rfl⟩ := List.exists_cons_of_ne_nil
      (show arguments ≠ [] by rintro rfl; exact absurd hlast nofun)
    obtain ⟨rfl, -⟩ := of_maskFrom_cons hmask (by decide) (by decide)
    rw [List.cons_append, maskFrom_cons, maskFrom_cons, shown, shown,
      shows_of_plain (by decide) rfl, shows_of_plain (by decide) rfl, step_of_plain (by decide) rfl,
      step_of_plain (by decide) rfl, Trail.next_of_not_isAlnum (by decide),
      Trail.next_of_not_isAlnum (by decide)]
  rw [htrail, maskFrom_append (seam_of_getLast? (by rw [hlast]; decide) behind), hafter]
  rfl

namespace Fades

variable {lead masked kept blanks : Text}

theorem nil : Fades [] [] [] [] where
  mask _ := rfl
  keeps _ := rfl
  blank := nofun
  annotations within h tail := by
    obtain rfl : within = false := by
      cases within with
      | false => rfl
      | true => exact absurd rfl (h rfl)
    rfl

/-- Blanks in front of a lead. -/
theorem gap {front : Text} (hne : front ≠ []) (hfront : ∀ c ∈ front, isBlank c = true)
    {gap : Text} (hmask : ∀ behind, maskFrom (.code .clear) (gap ++ behind) =
      front ++ maskFrom (.code .clear) behind) (h : Fades lead masked kept blanks) :
    Fades (gap ++ lead) (front ++ masked) (front ++ kept) (front ++ blanks) where
  mask behind := by rw [List.append_assoc, hmask, h.mask, List.append_assoc]
  keeps := (keeps_self fun c hc => notMem_signs_of_isBlank (hfront c hc)).append h.keeps
  blank c hc := (List.mem_append.1 hc).elim (hfront c) (h.blank c)
  annotations within _ tail := by
    obtain ⟨c, front, rfl⟩ := List.exists_cons_of_ne_nil hne
    obtain ⟨hc, hrest⟩ := List.forall_mem_cons.1 hfront
    have hat : ∀ d, isBlank d = true → d ≠ '@' := by
      rintro d hd rfl
      exact absurd hd (by decide)
    have hfirst := withoutAnnotationsFrom_append_cons (isAnnotationChar_of_isBlank hc) (hat c hc)
      within [] (front ++ (kept ++ tail))
    have hrest : withoutAnnotations (front ++ (kept ++ tail)) =
        front ++ withoutAnnotations (kept ++ tail) :=
      withoutAnnotations_append (fun hmem => hat _ (hrest _ hmem) rfl) _
    rw [List.append_assoc, List.cons_append]
    refine hfirst.trans ?_
    rw [hrest, show withoutAnnotations (kept ++ tail) = _ from h.annotations false nofun tail,
      List.append_assoc]
    rfl

/-- An annotation in front of a lead, of which something is left. -/
theorem tagged {name rest maskedRest : Text} (hname : IsAnnotationName name) (hne : lead ≠ [])
    (hmask : ∀ trail behind, maskFrom (.code trail) (rest ++ (lead ++ behind)) =
      maskedRest ++ maskFrom (.code .clear) (lead ++ behind)) (hrest : Keeps maskedRest [])
    (h : Fades lead masked kept blanks) :
    Fades ('@' :: (name ++ (rest ++ lead))) ('@' :: (name ++ (maskedRest ++ masked)))
      ('@' :: (name ++ kept)) (' ' :: blanks) where
  mask behind := by
    obtain ⟨trail, hname'⟩ := hname.exists_maskFrom
    rw [List.cons_append, List.append_assoc, List.append_assoc, hname', hmask, h.mask]
    simp only [List.cons_append, List.append_assoc]
  keeps := hname.keeps.append (hrest.append h.keeps)
  blank := List.forall_mem_cons.2 ⟨by decide, h.blank⟩
  annotations within _ tail := by
    rw [List.cons_append, List.append_assoc, hname.withoutAnnotationsFrom,
      h.annotations true fun _ => hne]
    rfl

end Fades

/-- Before an entry nothing but blanks is left, unless the arguments of an annotation
    stand right before the entry. -/
theorem Lead.exists_fades {lead : Text} (h : Lead lead) (hlast : lead.getLast? ≠ some ')') :
    ∃ masked kept blanks, Fades lead masked kept blanks := by
  have htail : ∀ {text rest : Text}, (text ++ rest).getLast? ≠ some ')' →
      rest.getLast? ≠ some ')' := fun h hrest => h (by rw [List.getLast?_append, hrest]; rfl)
  induction h with
  | nil => exact ⟨[], [], [], .nil⟩
  | gap hgap _ ih =>
    obtain ⟨front, hne, hfront, hmask⟩ := hgap.exists_maskFrom
    obtain ⟨masked, kept, blanks, hfades⟩ := ih (htail hlast)
    exact ⟨_, _, _, hfades.gap hne hfront (hmask .clear)⟩
  | @named name gap rest hname hgap _ ih =>
    obtain ⟨front, hne, hfront, hmask⟩ := hgap.exists_maskFrom
    rw [← List.cons_append, ← List.append_assoc] at hlast
    obtain ⟨masked, kept, blanks, hfades⟩ := ih (htail hlast)
    have hgapNe : gap ++ rest ≠ [] := by
      cases hgap <;> exact List.cons_ne_nil _ _
    have hmask' : ∀ trail behind, maskFrom (.code trail) ([] ++ (gap ++ rest ++ behind)) =
        [] ++ maskFrom (.code .clear) (gap ++ rest ++ behind) := fun trail behind => by
      rw [List.nil_append, List.append_assoc, hmask trail, hmask .clear]
      rfl
    have hnamed := (hfades.gap hne hfront (hmask .clear)).tagged hname hgapNe hmask'
      (show Keeps [] [] from fun _ => rfl)
    exact ⟨_, _, _, hnamed⟩
  | @called name arguments rest hname harguments _ ih =>
    rw [← List.cons_append, ← List.append_assoc] at hlast
    have hne : rest ≠ [] := by
      rintro rfl
      rw [List.append_nil] at hlast
      exact htail hlast (after_arguments harguments).2
    obtain ⟨masked, kept, blanks, hfades⟩ := ih (htail hlast)
    exact ⟨_, _, _, hfades.tagged hname hne
      (fun trail behind => maskFrom_arguments harguments trail _) harguments.keeps⟩

/-! ### Bodies -/

/-- A text behind which an entry starts: none, or one that ends with a comma outside
    every bracket of the value list. -/
structure StartsEntry (before : Text) : Prop where
  top : awaitedBehind [] before.masked = some []
  last : before = [] ∨ before.masked.getLast? = some ','

/-- The values of a body are those before an entry and those from the entry on. -/
theorem Fades.valueTokens {lead masked kept blanks before : Text}
    (h : Fades lead masked kept blanks) (hbefore : StartsEntry before) (behind : Text) :
    EnumCompanion.valueTokens (before ++ (lead ++ behind)).masked =
      EnumCompanion.valueTokens before.masked ++ EnumCompanion.valueTokens behind.masked := by
  have htokens : ∀ body, EnumCompanion.valueTokens body =
      tokensOf (withoutAnnotations (topLevel body)) := fun _ => rfl
  have hentry : ∀ rest, tokensOf (withoutAnnotations (kept ++ rest)) =
      tokensOf (withoutAnnotations rest) := fun rest => by
    rw [show withoutAnnotations (kept ++ rest) = _ from h.annotations false nofun rest,
      tokensOf_append h.blank]
  rcases hbefore.last with rfl | hlast
  · rw [List.nil_append, Text.masked, h.mask, htokens, h.keeps, hentry]
    rfl
  -- The comma ends the last entry before, and any annotation in it.
  obtain ⟨hafter, hlast'⟩ := after_of_getLast?_eq (by decide) (by decide) (by decide) hlast
  have hmask : (before ++ (lead ++ behind)).masked =
      before.masked ++ (masked ++ behind.masked) := by
    rw [Text.masked, maskFrom_append (seam_of_getLast? (by rw [hlast']; decide) _), hafter, h.mask]
    rfl
  obtain ⟨kept', hkept'⟩ : ∃ kept', topLevel before.masked = kept' ++ [','] := by
    obtain ⟨init, hinit⟩ := List.getLast?_eq_some_iff.1 hlast
    have htop := hbefore.top
    rw [hinit] at htop ⊢
    exact List.getLast?_eq_some_iff.1 ((isBracket_or_getLast? htop).resolve_left (by decide))
  have hsplit : ∀ rest, withoutAnnotations (topLevel before.masked ++ rest) =
      withoutAnnotations kept' ++ ',' :: withoutAnnotations rest := fun rest => by
    rw [hkept', ← List.append_cons]
    exact withoutAnnotationsFrom_append_cons (by decide) (by decide) false kept' rest
  have hbody : topLevel (before ++ (lead ++ behind)).masked =
      topLevel before.masked ++ (kept ++ topLevel behind.masked) := by
    rw [hmask, ← h.keeps]
    exact topLevelFrom_append_of_eq_some hbefore.top _
  have hself := hsplit []
  rw [List.append_nil] at hself
  rw [htokens, htokens, htokens, hbody, hsplit, hself, tokensOf_append_cons, tokensOf_append_cons,
    hentry]
  exact congrArg (· ++ _) (List.append_nil _).symm

/-- Annotations do not show in the values: what stands before an entry may be
    exchanged for anything else that may stand there, if a gap stands between the
    arguments of the last annotation and the entry. -/
theorem valueTokens_lead {before lead lead' : Text} (hbefore : StartsEntry before)
    (hlead : Lead lead) (hlead' : Lead lead') (hgap : lead.getLast? ≠ some ')')
    (hgap' : lead'.getLast? ≠ some ')') (behind : Text) :
    valueTokens (before ++ (lead ++ behind)).masked =
      valueTokens (before ++ (lead' ++ behind)).masked := by
  obtain ⟨_, _, _, hfades⟩ := hlead.exists_fades hgap
  obtain ⟨_, _, _, hfades'⟩ := hlead'.exists_fades hgap'
  rw [hfades.valueTokens hbefore, hfades'.valueTokens hbefore]

/-- Comments and annotations before an entry, with brackets and commas in them. -/
def manyAnnotations : Text :=
  "\n".toList ++ ("/*(,*/".toList ++ ('@' :: ("A.b".toList ++ ("('x)', [2])".toList ++
    ("// ;\n".toList ++ ('@' :: ("C".toList ++ ("\t".toList ++ []))))))))

theorem lead_manyAnnotations : Lead manyAnnotations := by
  have hinner : Comment "(,".toList ['*', '/'] :=
    .char (by decide) (by decide) (.char (by decide) (by decide) (.nil _))
  have harguments : IsArgumentList (Text.masked "('x)', [2])".toList) :=
    ⟨"    , [2]".toList, nested_of_openBrackets (by decide), by decide +kernel⟩
  have hA : IsAnnotationName "A.b".toList :=
    ⟨'A', ".b".toList, rfl, by decide, forall_mem_of_all (by decide)⟩
  have hC : IsAnnotationName "C".toList := ⟨'C', [], rfl, by decide, nofun⟩
  have hline : Gap "// ;\n".toList := .lineComment (show '\n' ∉ " ;".toList by decide)
  exact .gap (.blank (by decide)) (.gap (.blockComment hinner) (.called hA harguments
    (.gap hline (.named hC (.blank (by decide)) .nil))))

/-- An entry with type arguments and arguments, and the comma behind it. -/
def entryBefore : Text := "x<int>(1, ';'),".toList

theorem valueTokens_lead_manyAnnotations :
    valueTokens (Text.masked (entryBefore ++ (manyAnnotations ++ "a.of(3), b;".toList))) =
      valueTokens (Text.masked (entryBefore ++ (" ".toList ++ "a.of(3), b;".toList))) := by
  have hbefore : StartsEntry entryBefore := ⟨by decide +kernel, .inr (by decide +kernel)⟩
  have hspace : Gap " ".toList := .blank (show isBlank ' ' = true by decide)
  exact valueTokens_lead hbefore lead_manyAnnotations (.gap hspace .nil) (by decide +kernel)
    (by decide) _

/-- An annotation that an entry follows at once. -/
def deprecated : Text := '@' :: ("Deprecated".toList ++ ("('x')".toList ++ []))

/-- Behind the arguments of an annotation an entry may be lost, and behind a dollar
    sign in its name another token is read. -/
theorem valueTokens_loses_entry : Lead deprecated ∧
    valueTokens (Text.masked (deprecated ++ "a, b".toList)) = ["b".toList] ∧
      valueTokens (Text.masked "a, b".toList) = ["a".toList, "b".toList] ∧
        valueTokens (Text.masked "@a$b c".toList) = ["$b c".toList] := by
  have harguments : IsArgumentList (Text.masked "('x')".toList) :=
    ⟨"   ".toList, nested_of_openBrackets (by decide), by decide +kernel⟩
  have hname : IsAnnotationName "Deprecated".toList :=
    ⟨'D', "eprecated".toList, rfl, by decide, forall_mem_of_all (by decide)⟩
  exact ⟨.called hname harguments .nil, by decide +kernel, by decide +kernel, by decide +kernel⟩

end EnumCompanion
