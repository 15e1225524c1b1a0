import EnumCompanion.Proofs.Declaration.Brackets

/-!
# The grammar of value lists

An entry of a value list is the name of a value; type arguments, the selection
of a constructor and arguments may follow, in this order and with blanks between
all parts. Entries are separated by commas, and one comma may stand behind the
last. A body is a value list, or one that a semicolon and members follow.

* `Entry`, `ValueList`, `Body`: the texts that write given names;
* `Body.valueTokens`: reading a body gives back the names it writes;
* `Body.balanced`: a body closes the braces it opens.
-/

namespace EnumCompanion

open Text

/-! ### Grammar -/

/-- A part of an entry that may be left out and has blanks in front of it. -/
def Optional (part : Text → Prop) (text : Text) : Prop :=
  text = [] ∨ ∃ gap rest, (∀ c ∈ gap, isBlank c = true) ∧ part rest ∧ text = gap ++ rest

/-- Type arguments in their brackets. -/
def IsTypeList (text : Text) : Prop := ∃ inner, TypeArguments inner ∧ text = '<' :: (inner ++ ['>'])

/-- The selection of a constructor. -/
def IsSelection (text : Text) : Prop :=
  ∃ gap name, (∀ c ∈ gap, isBlank c = true) ∧ isValueName name = true ∧ text = '.' :: (gap ++ name)

/-- Arguments in their brackets. -/
def IsArgumentList (text : Text) : Prop := ∃ inner, Nested inner ∧ text = '(' :: (inner ++ [')'])

/-- The texts that write an entry with a name. -/
inductive Entry (name : Text) : Text → Prop where
  | intro {before types selection arguments behind : Text} (hname : isValueName name = true)
      (hbefore : ∀ c ∈ before, isBlank c = true) (htypes : Optional IsTypeList types)
      (hselection : Optional IsSelection selection) (harguments : Optional IsArgumentList arguments)
      (hbehind : ∀ c ∈ behind, isBlank c = true) :
      Entry name (before ++ (name ++ (types ++ (selection ++ (arguments ++ behind)))))

/-- The texts that write a value list with some names. -/
inductive ValueList : List Text → Text → Prop where
  | last {name entry : Text} : Entry name entry → ValueList [name] entry
  | comma {name entry behind : Text} (hbehind : ∀ c ∈ behind, isBlank c = true) :
      Entry name entry → ValueList [name] (entry ++ ',' :: behind)
  | cons {name entry : Text} {names : List Text} {list : Text} :
      Entry name entry → ValueList names list → ValueList (name :: names) (entry ++ ',' :: list)

/-- The texts that write a body with a value list of some names. -/
inductive Body (names : List Text) : Text → Prop where
  | values {list : Text} : ValueList names list → Body names list
  | members {list members : Text} :
      ValueList names list → Balanced members → Body names (list ++ ';' :: members)

/-! ### Braces -/

/-- The signs that the scan of a value list does not pass over as they are. -/
def signs : Text := ['(', ')', '[', ']', '{', '}', '<', '>', ';']

/-- Characters of a class without signs are no signs. -/
theorem notMem_signs {p : Char → Bool} (hp : ∀ c ∈ signs, p c = false) {c : Char}
    (hc : p c = true) : c ∉ signs :=
  fun h => Bool.noConfusion (hc.symm.trans (hp c h))

theorem notMem_signs_of_isBlank {c : Char} (h : isBlank c = true) : c ∉ signs :=
  notMem_signs (forall_mem_of_all (by decide)) h

theorem notMem_signs_of_isNameChar {c : Char} (h : isNameChar c = true) : c ∉ signs :=
  notMem_signs (forall_mem_of_all (by decide)) h

theorem balanced_of_notMem_braces {text : Text} (hopen : '{' ∉ text) (hclose : '}' ∉ text) :
    Balanced text := by
  induction text with
  | nil => rfl
  | cons c text ih =>
    rw [List.mem_cons, not_or] at hopen hclose
    rw [Balanced, braceDepth, if_neg (Ne.symm hopen.1), if_neg (Ne.symm hclose.1)]
    exact ih hopen.2 hclose.2

theorem balanced_of_notMem_signs {text : Text} (h : ∀ c ∈ text, c ∉ signs) : Balanced text :=
  balanced_of_notMem_braces (fun hc => h _ hc (by decide)) fun hc => h _ hc (by decide)

/-! ### What is kept of an entry -/

/-- What the top of a value list keeps of a text at its head. -/
def Keeps (text kept : Text) : Prop := ∀ rest, topLevel (text ++ rest) = kept ++ topLevel rest

theorem Keeps.append {text kept text' kept' : Text} (h : Keeps text kept) (h' : Keeps text' kept') :
    Keeps (text ++ text') (kept ++ kept') := fun rest => by
  rw [List.append_assoc, h, h', List.append_assoc]

/-- Text without signs is kept as it is at the top, and passed over elsewhere. -/
theorem topLevelFrom_append_of_notMem {text : Text} (h : ∀ c ∈ text, c ∉ signs)
    (awaited rest : Text) : topLevelFrom awaited (text ++ rest) =
      (if awaited = [] then text else []) ++ topLevelFrom awaited rest := by
  induction text with
  | nil => rw [ite_self]; rfl
  | cons c text ih =>
    have hc := h c List.mem_cons_self
    have hnone : closer? c = none := by
      simp only [closer?]
      split <;> simp_all [signs]
    have hcloser : isCloser c = false := by
      simp_all [signs, isCloser]
    have hsemicolon : c ≠ ';' := fun e => hc (e ▸ by decide)
    rw [List.cons_append, topLevelFrom, if_neg fun e => hsemicolon e.1, hnone]
    simp only [hcloser, Bool.false_eq_true, if_false, ih fun d hd => h d (List.mem_cons_of_mem _ hd)]
    split_ifs <;> rfl

theorem keeps_self {text : Text} (h : ∀ c ∈ text, c ∉ signs) : Keeps text text := fun rest =>
  topLevelFrom_append_of_notMem h [] rest

theorem IsTypeList.keeps {text : Text} (h : IsTypeList text) : Keeps text [] := by
  obtain ⟨inner, hinner, rfl⟩ := h
  intro rest
  rw [List.cons_append, List.append_assoc]
  exact topLevelFrom_angle (fun awaited rest => hinner.topLevelFrom awaited rest) (.inl rfl) rest

theorem IsArgumentList.keeps {text : Text} (h : IsArgumentList text) : Keeps text [] := by
  obtain ⟨inner, hinner, rfl⟩ := h
  intro rest
  rw [List.cons_append, List.append_assoc]
  exact hinner.topLevelFrom_group (show ('(', ')') ∈ bracketPairs by decide) [] rest

theorem Optional.keeps_gap {part : Text → Prop} (hpart : ∀ text, part text → Keeps text [])
    {text : Text} (h : Optional part text) :
    ∃ gap, (∀ c ∈ gap, isBlank c = true) ∧ Keeps text gap := by
  rcases h with rfl | ⟨gap, rest, hgap, hrest, rfl⟩
  · exact ⟨[], nofun, fun _ => rfl⟩
  · refine ⟨gap, hgap, ?_⟩
    have := (keeps_self fun c hc => notMem_signs_of_isBlank (hgap c hc)).append (hpart rest hrest)
    rwa [List.append_nil] at this

/-- The characters that the tokens of a value list are cut at. -/
def cuts : Text := [',', '@']

theorem notMem_cuts_of_isBlank {c : Char} (h : isBlank c = true) : c ∉ cuts := by
  rintro (_ | ⟨_, _ | ⟨_, ⟨⟩⟩⟩)
  exacts [absurd h (by decide), absurd h (by decide)]

theorem notMem_cuts_of_isNameChar {c : Char} (h : isNameChar c = true) : c ∉ cuts := by
  rintro (_ | ⟨_, _ | ⟨_, ⟨⟩⟩⟩)
  exacts [absurd h (by decide), absurd h (by decide)]

/-- Of the selection of a constructor the dot and the name stay. -/
theorem Optional.keeps_selection {text : Text} (h : Optional IsSelection text) :
    ∃ gap tail, (∀ c ∈ gap, isBlank c = true) ∧ (tail = [] ∨ ∃ name, tail = '.' :: name) ∧
      (∀ c ∈ tail, c ∉ cuts) ∧ Keeps text (gap ++ tail) := by
  rcases h with rfl | ⟨gap, rest, hgap, ⟨gap', name, hgap', hname, rfl⟩, rfl⟩
  · exact ⟨[], [], nofun, .inl rfl, nofun, fun _ => rfl⟩
  have hchar := isNameChar_of_isValueName hname
  refine ⟨gap, '.' :: (gap' ++ name), hgap, .inr ⟨_, rfl⟩, ?_, ?_⟩
  · simp only [List.mem_cons, List.mem_append]
    rintro c (rfl | hc | hc)
    exacts [by decide, notMem_cuts_of_isBlank (hgap' c hc), notMem_cuts_of_isNameChar (hchar c hc)]
  · refine keeps_self ?_
    simp only [List.mem_append, List.mem_cons]
    rintro c (hc | rfl | hc | hc)
    exacts [notMem_signs_of_isBlank (hgap c hc), by decide, notMem_signs_of_isBlank (hgap' c hc),
      notMem_signs_of_isNameChar (hchar c hc)]

/-! ### Tokens -/

theorem strip_blanks {text : Text} (h : ∀ c ∈ text, isBlank c = true) : strip text = [] := by
  rw [strip, List.dropWhile_eq_nil_iff.2 h]
  rfl

/-- A name is stripped of the blanks around it. -/
theorem strip_name {before name behind : Text} (hbefore : ∀ c ∈ before, isBlank c = true)
    (hname : isValueName name = true) (hbehind : ∀ c ∈ behind, isBlank c = true) :
    strip (before ++ (name ++ behind)) = name := by
  have hchar := isNameChar_of_isValueName hname
  have hhead : ∀ rest : Text, (∀ c ∈ rest, isNameChar c = true) → rest ≠ [] → ∀ more,
      (rest ++ more).head?.any isBlank = false := by
    intro rest hrest hne more
    obtain ⟨c, rest, rfl⟩ := List.exists_cons_of_ne_nil hne
    exact isBlank_of_isNameChar (hrest c List.mem_cons_self)
  have hne := ne_nil_of_isValueName hname
  rw [strip, dropWhile_append_exact hbefore (hhead name hchar hne behind), List.reverse_append,
    dropWhile_append_exact (fun c hc => hbehind c (List.mem_reverse.1 hc)), List.reverse_reverse]
  rw [← List.append_nil name.reverse]
  exact hhead name.reverse (fun c hc => hchar c (List.mem_reverse.1 hc)) (by simpa using hne) []

/-- The token of an entry is its name, whatever stands behind a dot. -/
theorem entryToken_name {before name behind tail : Text} (hbefore : ∀ c ∈ before, isBlank c = true)
    (hname : isValueName name = true) (hbehind : ∀ c ∈ behind, isBlank c = true)
    (htail : tail = [] ∨ ∃ rest, tail = '.' :: rest) :
    entryToken (before ++ (name ++ behind) ++ tail) = name := by
  have hdot : isBlank '.' = false ∧ isNameChar '.' = false := by decide
  have hrun : ∀ c ∈ before ++ (name ++ behind), (c != '.') = true := by
    simp only [List.mem_append, bne_iff_ne]
    rintro _ (hc | hc | hc) rfl
    · exact Bool.noConfusion ((hbefore _ hc).symm.trans hdot.1)
    · exact Bool.noConfusion ((isNameChar_of_isValueName hname _ hc).symm.trans hdot.2)
    · exact Bool.noConfusion ((hbehind _ hc).symm.trans hdot.1)
  have hstop : tail.head?.any (· != '.') = false := by
    rcases htail with rfl | ⟨rest, rfl⟩ <;> rfl
  rw [entryToken, takeWhile_append_exact hrun hstop, strip_name hbefore hname hbehind]

/-- An entry without a name has no token. -/
theorem entryToken_blanks {text : Text} (h : ∀ c ∈ text, isBlank c = true) :
    entryToken text = [] :=
  strip_blanks fun c hc => h c ((List.takeWhile_sublist _).subset hc)

/-- The top of a value list keeps one piece of an entry, with its name for a
    token. -/
theorem Entry.keeps {name entry : Text} (h : Entry name entry) :
    ∃ kept, Keeps entry kept ∧ entryToken kept = name ∧ ∀ c ∈ kept, c ∉ cuts := by
  obtain ⟨hname, hbefore, htypes, hselection, harguments, hbehind⟩ := h
  rename_i before types selection arguments behind
  obtain ⟨gap, hgap, ktypes⟩ := htypes.keeps_gap fun _ => IsTypeList.keeps
  obtain ⟨gap', tail, hgap', htail, hcuts, kselection⟩ := hselection.keeps_selection
  obtain ⟨gap'', hgap'', karguments⟩ := harguments.keeps_gap fun _ => IsArgumentList.keeps
  have hchar := isNameChar_of_isValueName hname
  have kbefore := keeps_self fun c hc => notMem_signs_of_isBlank (hbefore c hc)
  have kname := keeps_self fun c hc => notMem_signs_of_isNameChar (hchar c hc)
  have kbehind := keeps_self fun c hc => notMem_signs_of_isBlank (hbehind c hc)
  refine ⟨_, kbefore.append (kname.append (ktypes.append (kselection.append
    (karguments.append kbehind)))), ?_, ?_⟩
  · -- Without a constructor all blanks follow the name, with one only those before its dot do.
    rcases htail with rfl | ⟨rest, rfl⟩
    · have hblank : ∀ c ∈ gap ++ (gap' ++ (gap'' ++ behind)), isBlank c = true := by
        simp only [List.mem_append]
        rintro c (hc | hc | hc | hc)
        exacts [hgap c hc, hgap' c hc, hgap'' c hc, hbehind c hc]
      have := entryToken_name hbefore hname hblank (.inl rfl)
      simpa only [List.append_nil, List.append_assoc] using this
    · have hblank : ∀ c ∈ gap ++ gap', isBlank c = true := by
        simp only [List.mem_append]
        rintro c (hc | hc)
        exacts [hgap c hc, hgap' c hc]
      have := entryToken_name hbefore hname hblank (.inr ⟨rest ++ (gap'' ++ behind), rfl⟩)
      simpa only [List.append_assoc, List.cons_append] using this
  · simp only [List.mem_append]
    rintro c (hc | hc | hc | (hc | hc) | hc | hc)
    exacts [notMem_cuts_of_isBlank (hbefore c hc), notMem_cuts_of_isNameChar (hchar c hc),
      notMem_cuts_of_isBlank (hgap c hc), notMem_cuts_of_isBlank (hgap' c hc), hcuts c hc,
      notMem_cuts_of_isBlank (hgap'' c hc), notMem_cuts_of_isBlank (hbehind c hc)]

theorem Entry.isValueName {name entry : Text} (h : Entry name entry) : isValueName name = true := by
  obtain ⟨hname⟩ := h
  exact hname

/-! ### Value lists -/

/-- The tokens of the entries that a text without brackets separates by commas. -/
def tokensOf (kept : Text) : List Text := ((kept.splitOn ',').map entryToken).filter (· ≠ [])

theorem tokensOf_cons {kept rest : Text} (hkept : ',' ∉ kept) (hne : entryToken kept ≠ []) :
    tokensOf (kept ++ ',' :: rest) = entryToken kept :: tokensOf rest := by
  rw [tokensOf, List.splitOn_append_cons_self_of_not_mem hkept, List.map_cons,
    List.filter_cons_of_pos (by simpa using hne)]
  rfl

/-- The top of a value list holds one token for each of its names. -/
theorem ValueList.keeps {names : List Text} {list : Text} (h : ValueList names list) :
    ∃ kept, Keeps list kept ∧ tokensOf kept = names ∧ '@' ∉ kept := by
  have kcomma : Keeps [','] [','] := keeps_self (forall_mem_of_all (by decide))
  induction h with
  | @last name entry h =>
    obtain ⟨kept, hkeeps, htoken, hcuts⟩ := h.keeps
    have hcomma : ',' ∉ kept := fun hc => hcuts _ hc (by decide)
    refine ⟨kept, hkeeps, ?_, fun hc => hcuts _ hc (by decide)⟩
    simp [tokensOf, List.splitOn_eq_singleton hcomma, htoken, ne_nil_of_isValueName h.isValueName]
  | @comma name entry behind hbehind h =>
    obtain ⟨kept, hkeeps, htoken, hcuts⟩ := h.keeps
    have hcomma : ',' ∉ behind := fun hc => notMem_cuts_of_isBlank (hbehind _ hc) (by decide)
    have hbehind' := keeps_self fun c hc => notMem_signs_of_isBlank (hbehind c hc)
    refine ⟨kept ++ ',' :: behind, hkeeps.append (kcomma.append hbehind'), ?_, ?_⟩
    · have hne := ne_nil_of_isValueName h.isValueName
      rw [tokensOf_cons (fun hc => hcuts _ hc (by decide)) (htoken ▸ hne)]
      simp [tokensOf, List.splitOn_eq_singleton hcomma, entryToken_blanks hbehind, htoken]
    · simp only [List.mem_append, List.mem_cons, not_or]
      exact ⟨fun hc => hcuts _ hc (by decide), by decide,
        fun hc => notMem_cuts_of_isBlank (hbehind _ hc) (by decide)⟩
  | @cons name entry names list h _ ih =>
    obtain ⟨kept, hkeeps, htoken, hcuts⟩ := h.keeps
    obtain ⟨kept', hkeeps', htokens, hat⟩ := ih
    refine ⟨kept ++ ',' :: kept', hkeeps.append (kcomma.append hkeeps'), ?_, ?_⟩
    · have hne := ne_nil_of_isValueName h.isValueName
      rw [tokensOf_cons (fun hc => hcuts _ hc (by decide)) (htoken ▸ hne), htoken, htokens]
    · simp only [List.mem_append, List.mem_cons, not_or]
      exact ⟨fun hc => hcuts _ hc (by decide), by decide, hat⟩

/-- A text without an at sign has no annotations, whatever follows it. -/
theorem withoutAnnotations_append {text : Text} (h : '@' ∉ text) (rest : Text) :
    withoutAnnotations (text ++ rest) = text ++ withoutAnnotations rest := by
  rw [withoutAnnotations]
  induction text with
  | nil => rfl
  | cons c text ih =>
    rw [List.mem_cons, not_or] at h
    rw [List.cons_append, withoutAnnotationsFrom, Bool.false_and, if_neg Bool.false_ne_true,
      if_neg fun hc => h.1 hc.1.symm, ih h.2]
    rfl

theorem withoutAnnotations_eq_self {text : Text} (h : '@' ∉ text) :
    withoutAnnotations text = text := by
  have := withoutAnnotations_append h []
  rwa [List.append_nil, show withoutAnnotations [] = [] from rfl, List.append_nil] at this

/-! ### Bodies -/

theorem Entry.balanced {name entry : Text} (h : Entry name entry) : Balanced entry := by
  obtain ⟨hname, hbefore, htypes, hselection, harguments, hbehind⟩ := h
  have hgap : ∀ gap : Text, (∀ c ∈ gap, isBlank c = true) → Balanced gap := fun gap hgap =>
    balanced_of_notMem_signs fun c hc => notMem_signs_of_isBlank (hgap c hc)
  have hchars : ∀ name, Text.isValueName name = true → Balanced name := fun name hname =>
    balanced_of_notMem_signs fun c hc =>
      notMem_signs_of_isNameChar (isNameChar_of_isValueName hname c hc)
  have hoptional : ∀ part : Text → Prop, (∀ text, part text → Balanced text) →
      ∀ text, Optional part text → Balanced text := by
    rintro part hpart _ (rfl | ⟨gap, rest, hblank, hrest, rfl⟩)
    exacts [rfl, (hgap gap hblank).append (hpart rest hrest)]
  have htypes' : ∀ text, IsTypeList text → Balanced text := by
    rintro _ ⟨inner, hinner, rfl⟩
    exact (TypeArguments.angle hinner .nil).balanced
  have hselection' : ∀ text, IsSelection text → Balanced text := by
    rintro _ ⟨gap, name, hblank, hname, rfl⟩
    exact ((hgap gap hblank).append (hchars name hname)).cons (by decide)
  have harguments' : ∀ text, IsArgumentList text → Balanced text := by
    rintro _ ⟨inner, hinner, rfl⟩
    exact (Nested.group (show ('(', ')') ∈ bracketPairs by decide) hinner .nil).balanced
  exact (hgap _ hbefore).append ((hchars _ hname).append ((hoptional _ htypes' _ htypes).append
    ((hoptional _ hselection' _ hselection).append
      ((hoptional _ harguments' _ harguments).append (hgap _ hbehind)))))

theorem ValueList.balanced {names : List Text} {list : Text} (h : ValueList names list) :
    Balanced list := by
  induction h with
  | last h => exact h.balanced
  | comma hbehind h =>
    exact h.balanced.append ((balanced_of_notMem_signs fun c hc =>
      notMem_signs_of_isBlank (hbehind c hc)).cons (by decide))
  | cons h _ ih => exact h.balanced.append (ih.cons (by decide))

theorem ValueList.isValueName {names : List Text} {list : Text} (h : ValueList names list) :
    ∀ name ∈ names, Text.isValueName name = true := by
  induction h with
  | last h => simpa using h.isValueName
  | comma _ h => simpa using h.isValueName
  | cons h _ ih => simpa using ⟨h.isValueName, ih⟩

theorem ValueList.ne_nil {names : List Text} {list : Text} (h : ValueList names list) :
    names ≠ [] := by
  cases h <;> exact List.cons_ne_nil _ _

/-- A body starts with a value list, behind which nothing is kept. -/
theorem Body.exists_valueList {names : List Text} {body : Text} (h : Body names body) :
    ∃ list rest, ValueList names list ∧ body = list ++ rest ∧ Balanced rest ∧
      topLevel rest = [] := by
  cases h with
  | values hlist => exact ⟨_, [], hlist, (List.append_nil _).symm, rfl, rfl⟩
  | members hlist hmembers => exact ⟨_, _, hlist, rfl, hmembers.cons (by decide), rfl⟩

/-- A body closes the braces it opens. -/
theorem Body.balanced {names : List Text} {body : Text} (h : Body names body) : Balanced body := by
  obtain ⟨list, rest, hlist, rfl, hrest, -⟩ := h.exists_valueList
  exact hlist.balanced.append hrest

/-- Reading a body gives back the names it writes. -/
theorem Body.valueTokens {names : List Text} {body : Text} (h : Body names body) :
    EnumCompanion.valueTokens body = names := by
  obtain ⟨list, rest, hlist, rfl, -, hrest⟩ := h.exists_valueList
  obtain ⟨kept, hkeeps, htokens, hat⟩ := hlist.keeps
  rw [EnumCompanion.valueTokens, hkeeps, hrest, List.append_nil, withoutAnnotations_eq_self hat]
  exact htokens

theorem Body.isValueName {names : List Text} {body : Text} (h : Body names body) :
    ∀ name ∈ names, Text.isValueName name = true := by
  obtain ⟨list, rest, hlist, -⟩ := h.exists_valueList
  exact hlist.isValueName

theorem Body.ne_nil {names : List Text} {body : Text} (h : Body names body) : names ≠ [] := by
  obtain ⟨list, rest, hlist, -⟩ := h.exists_valueList
  exact hlist.ne_nil

end EnumCompanion
