import EnumCompanion.Proofs.Code.Layout
import EnumCompanion.Proofs.Code.Mask
import EnumCompanion.Proofs.Declaration.Splice

/-!
# Generated blocks are closed

A generated block holds up to the scanners that read documents, whatever the
values are called. Only the keys of a map are masked in it, its first brace is
closed by its last character, its brackets are properly nested, and no enum is
read in it. This holds for every suffix of the container that extends a name to
one, dollar signs included.

* `keyedBlock`: the block of an operation, with certain keys in a map;
* `masked_keyedBlock`: its mask is the block with blank keys;
* `parseAll_eq_nil`: no enum is read where none is mentioned;
* `Generator.block_isClosed`: all this for the block that a generator writes.
-/

namespace EnumCompanion

open Text Mask Journal

/-- Where the mask mentions no enum, none is read. -/
theorem parseAll_eq_nil {text : Text} (h : Quiet [Header.keyword] text.masked)
    (allowRepeats : Bool) : parseAll text allowRepeats = [] := by
  have hreadings : readings allowRepeats text.masked = [] := by
    have hnone : readingsFrom allowRepeats 0 none 0 (text.masked ++ []) = [] :=
      readingsFrom_of_undeclared (h.undeclared List.mem_cons_self none [])
    rwa [List.append_nil] at hnone
  have hsummary := map_summary_parseAll text allowRepeats
  rwa [hreadings, List.map_nil, List.map_eq_nil_iff] at hsummary

/-- The mask of tame texts, one behind the other. -/
theorem Tame.maskFrom_flatMap {α : Type} {items : List α} {write : α → Text}
    (h : ∀ item ∈ items, Tame [] [] (write item)) : maskFrom (.code .clear) (items.flatMap write) =
      items.flatMap fun item => maskFrom (.code .clear) (write item) := by
  induction items with
  | nil => rfl
  | cons item items ih =>
    rw [List.flatMap_cons, (h item List.mem_cons_self).maskFrom_append,
      ih fun other hother => h other (List.mem_cons_of_mem _ hother), List.flatMap_cons]

theorem Text.forall_mem_intercalate {p : Char → Prop} {separator : Text} {texts : List Text}
    (hseparator : ∀ c ∈ separator, p c) (h : ∀ text ∈ texts, ∀ c ∈ text, p c) :
    ∀ c ∈ separator.intercalate texts, p c := by
  induction texts with
  | nil => nofun
  | cons text texts ih =>
    cases texts with
    | nil =>
      rw [List.intercalate_singleton]
      exact h text List.mem_cons_self
    | cons next texts =>
      rw [List.intercalate_cons_cons, List.append_assoc, List.forall_mem_append,
        List.forall_mem_append]
      exact ⟨h text List.mem_cons_self, hseparator,
        ih fun other hother => h other (List.mem_cons_of_mem _ hother)⟩

/-! ### Blocks with keys -/

namespace Generator

/-- The block of an operation, where the map from the names of the values has
    certain keys. -/
def keyedBlock (key : Text → Text) (container : Text) (e : Enumeration) (operation : Operation) :
    Text :=
  blockText container e.name (innerText ((membersOf operation).map fun member =>
    unlines (member.codeLines key e.name e.values)))

/-- A key as it is masked. -/
def blankKey (value : Text) : Text := List.replicate (value.length + 2) ' '

/-- The values that a block shows in keys. -/
def keyedValues (e : Enumeration) (operation : Operation) : List Text :=
  if operation = .mapWithValues then e.values else []

theorem isValueName_of_mem_keyedValues {e : Enumeration} {operation : Operation} :
    ∀ value ∈ keyedValues e operation, isValueName value = true := by
  rw [keyedValues]
  split_ifs
  exacts [e.isValueName_values, nofun]

/-- The line for an entry with its line feed. -/
def entryLine (key : Text → Text) (value : Text) : Text :=
  Operation.entryText (key value) value ++ ['\n']

variable {e : Enumeration} {operation : Operation} {container : Text}

/-- The block that is generated has the values between quotes as keys. -/
theorem blockText_eq_keyedBlock (container : Text) (e : Enumeration) (operation : Operation) :
    blockText container e.name (innerText ((membersOf operation).map (memberText e))) =
      keyedBlock Operation.quotedKey container e operation := by
  rw [keyedBlock, List.map_congr_left fun member hmember =>
    memberText_eq e (ne_extension_of_mem_membersOf hmember)]

/-- The characters of code are plain. -/
theorem isPlain_of_isCodeChar {c : Char} (h : Operation.isCodeChar c = true) : IsPlain c := by
  refine ⟨?_, ?_, ?_⟩ <;> rintro rfl <;> exact absurd h (by decide)

/-- Without keys there are no quotes in a line of code. -/
theorem isPlain_of_mem_codeLines (e : Enumeration) (operation : Operation) :
    ∀ line ∈ operation.codeLines id e.name e.values, ∀ c ∈ line, IsPlain c := by
  have hvalues : ∀ value ∈ e.values, ∀ c ∈ value, isNameChar c = true :=
    fun value hvalue => isNameChar_of_isValueName (e.isValueName_values value hvalue)
  exact Operation.codeLines_forall (fun c => isPlain_of_isCodeChar)
    (isNameChar_of_isTypeName e.isTypeName_name) hvalues
    (fun value hvalue c hc => isPlain_of_isNameChar (hvalues value hvalue c hc)) operation

theorem codeLines_key {operation : Operation} (h : operation ≠ .mapWithValues)
    (key key' : Text → Text) (enumName : Text) (values : List Text) :
    operation.codeLines key enumName values = operation.codeLines key' enumName values := by
  cases operation with
  | mapWithValues => exact absurd rfl h
  | _ => rfl

/-- The lines of a map are plain, but for those of the entries. -/
theorem exists_codeLines_mapWithValues (e : Enumeration) : ∃ front last,
    (∀ line ∈ front, ∀ c ∈ line, IsPlain c) ∧ (∀ c ∈ last, IsPlain c) ∧
      ∀ key, Operation.codeLines .mapWithValues key e.name e.values =
        front ++ e.values.map (fun value => Operation.entryText (key value) value) ++ [last] := by
  obtain ⟨front, last, hlines⟩ : ∃ front last, ∀ key,
      Operation.codeLines .mapWithValues key e.name e.values =
        front ++ e.values.map (fun value => Operation.entryText (key value) value) ++ [last] :=
    ⟨_, _, fun key => rfl⟩
  have hplain := isPlain_of_mem_codeLines e .mapWithValues
  rw [hlines, List.forall_mem_append, List.forall_mem_append, List.forall_mem_singleton] at hplain
  exact ⟨front, last, hplain.1.1, hplain.2, hlines⟩

/-- How a block is opened, with the indentation of its first line. -/
def blockOpening (container enumName : Text) : Text :=
  blockHead container enumName ++ '{' :: '\n' :: memberIndent

theorem blockText_innerText (container enumName : Text) (members : List Text) :
    blockText container enumName (innerText members) = blockOpening container enumName ++
      (memberSeparator.intercalate members ++ ['\n', '}']) := by
  rw [blockText, innerText, blockOpening]
  simp only [List.append_assoc, List.cons_append, List.nil_append]

theorem isPlain_of_mem_blockOpening (hcontainer : isNameFragment container = true)
    (e : Enumeration) : ∀ c ∈ blockOpening container e.name, IsPlain c := by
  unfold blockOpening blockHead
  simp only [List.forall_mem_append]
  exact ⟨⟨forall_mem_of_all (by decide), isPlain_of_isNameFragment hcontainer,
    forall_mem_of_all (by decide),
    isPlain_of_isNameFragment (isNameFragment_of_isTypeName e.isTypeName_name),
    forall_mem_of_all (by decide)⟩, forall_mem_of_all (by decide)⟩

/-- Without quotes around its keys, a block is plain. -/
theorem isPlain_of_mem_keyedBlock (hcontainer : isNameFragment container = true)
    (e : Enumeration) (operation : Operation) :
    ∀ c ∈ keyedBlock id container e operation, IsPlain c := by
  have hmembers : ∀ member : Operation,
      ∀ c ∈ unlines (member.codeLines id e.name e.values), IsPlain c := fun member =>
    forall_mem_intercalate (forall_mem_of_all (by decide)) (isPlain_of_mem_codeLines e member)
  rw [keyedBlock, blockText_innerText, List.forall_mem_append, List.forall_mem_append]
  refine ⟨isPlain_of_mem_blockOpening hcontainer e,
    forall_mem_intercalate (forall_mem_of_all (by decide)) ?_, forall_mem_of_all (by decide)⟩
  exact List.forall_mem_map.2 fun member _ => hmembers member

theorem keyedBlock_key (h : operation ≠ .mapWithValues) (key key' : Text → Text) :
    keyedBlock key container e operation = keyedBlock key' container e operation := by
  have hmembers : ∀ member ∈ membersOf operation, member ≠ .mapWithValues := by
    intro member hmember
    rw [membersOf] at hmember
    split_ifs at hmember
    · rintro rfl
      exact absurd hmember (by decide)
    · rwa [List.mem_singleton.1 hmember]
  rw [keyedBlock, keyedBlock, List.map_congr_left fun member hmember =>
    congrArg unlines (codeLines_key (hmembers member hmember) key key' e.name e.values)]

/-- The block of a map is plain, but for the entries with its keys. -/
theorem exists_keyedBlock_mapWithValues (hcontainer : isNameFragment container = true)
    (e : Enumeration) : ∃ before behind, (∀ c ∈ before, IsPlain c) ∧
      before.getLast?.any (!isAlnum ·) = true ∧ (∀ c ∈ behind, IsPlain c) ∧
      ∀ key, keyedBlock key container e .mapWithValues =
        before ++ (e.values.flatMap (entryLine key) ++ behind) := by
  obtain ⟨front, last, hfront, hlast, hlines⟩ := exists_codeLines_mapWithValues e
  refine ⟨blockOpening container e.name ++ front.flatMap fun line => line ++ ['\n'],
    last ++ ['\n', '}'], ?_, ?_, ?_, fun key => ?_⟩
  · rw [List.forall_mem_append]
    exact ⟨isPlain_of_mem_blockOpening hcontainer e, List.forall_mem_flatMap.2 fun line hline =>
      List.forall_mem_append.2 ⟨hfront line hline, forall_mem_of_all (by decide)⟩⟩
  · rcases List.eq_nil_or_concat' front with rfl | ⟨front, line, rfl⟩
    · rw [List.flatMap_nil, List.append_nil, blockOpening,
        List.getLast?_append_of_ne_nil _ (List.cons_ne_nil _ _)]
      decide
    · rw [List.flatMap_append, List.flatMap_singleton, ← List.append_assoc, ← List.append_assoc,
        List.getLast?_concat]
      decide
  · exact List.forall_mem_append.2 ⟨hlast, forall_mem_of_all (by decide)⟩
  · have hmembers : membersOf .mapWithValues = [.mapWithValues] := rfl
    rw [keyedBlock, blockText_innerText, hmembers, List.map_singleton,
      List.intercalate_singleton, hlines, unlines_append _ (List.cons_ne_nil _ _), unlines,
      List.intercalate_singleton, List.flatMap_append, List.flatMap_map]
    simp only [List.append_assoc]
    rfl

/-- A block is plain, but for the entries with its keys. -/
theorem exists_keyedBlock_eq (hcontainer : isNameFragment container = true) (e : Enumeration)
    (operation : Operation) : ∃ before behind, (∀ c ∈ before, IsPlain c) ∧
      before.getLast?.any (!isAlnum ·) = true ∧ (∀ c ∈ behind, IsPlain c) ∧
      ∀ key, keyedBlock key container e operation =
        before ++ ((keyedValues e operation).flatMap (entryLine key) ++ behind) := by
  by_cases h : operation = .mapWithValues
  · subst h
    exact exists_keyedBlock_mapWithValues hcontainer e
  · refine ⟨keyedBlock id container e operation, [],
      isPlain_of_mem_keyedBlock hcontainer e operation, ?_,
      fun _ hmem => absurd hmem List.not_mem_nil, fun key => ?_⟩
    · rw [keyedBlock, blockText, ← List.cons_append, ← List.append_assoc, List.getLast?_concat]
      decide
    · rw [keyedValues, if_neg h, List.flatMap_nil, List.append_nil, List.append_nil,
        keyedBlock_key h key id]

/-! ### The mask of a block -/

/-- The line for an entry is tame, and its key is masked. -/
theorem tame_entryLine {value : Text} (hvalue : isValueName value = true) :
    Tame [] [] (entryLine Operation.quotedKey value) ∧
      maskFrom (.code .clear) (entryLine Operation.quotedKey value) = entryLine blankKey value := by
  have hname := isNameChar_of_isValueName hvalue
  have hne := ne_nil_of_isValueName hvalue
  have hliteral : Operation.quotedKey value = value.literal := by
    rw [literal, literalBody_of_isNameChar hname]
    rfl
  have hindent : Tame [] [] "        ".toList := tame_of_isTameText (by decide) rfl
  have hcolon : Tame [] [] ": ".toList := tame_of_isTameText (by decide) rfl
  have hkey : Tame [] [] (Operation.quotedKey value) := hliteral ▸ tame_literal hname hne []
  have hvalue : Tame [] [] (value ++ [',', '\n']) :=
    tame_name_append hname hne (by decide) (by decide) (by decide)
  have hline : ∀ key : Text → Text, entryLine key value =
      "        ".toList ++ (key value ++ (": ".toList ++ (value ++ [',', '\n']))) := by
    intro key
    unfold entryLine Operation.entryText
    simp only [List.append_assoc, List.cons_append, List.nil_append]
  have hplain : ∀ c ∈ value ++ [',', '\n'], IsPlain c := List.forall_mem_append.2
    ⟨fun c hc => isPlain_of_isNameChar (hname c hc), forall_mem_of_all (by decide)⟩
  constructor
  · rw [hline]
    exact hindent.append (hkey.append (hcolon.append hvalue))
  · have hmask : maskFrom (.code .clear) (Operation.quotedKey value) = blankKey value := by
      rw [hliteral]
      exact maskFrom_literal_eq hname hne
    rw [hline, hline, hindent.maskFrom_append, hkey.maskFrom_append, hcolon.maskFrom_append, hmask,
      maskFrom_of_plain hplain]
    rfl

/-- The mask of a block is the block with blank keys. -/
theorem masked_keyedBlock (hcontainer : isNameFragment container = true) (e : Enumeration)
    (operation : Operation) : (keyedBlock Operation.quotedKey container e operation).masked =
      keyedBlock blankKey container e operation := by
  obtain ⟨before, behind, hbefore, hlast, hbehind, hblock⟩ :=
    exists_keyedBlock_eq hcontainer e operation
  have hvalues := @isValueName_of_mem_keyedValues e operation
  have hentries : Tame [] [] ((keyedValues e operation).flatMap (entryLine Operation.quotedKey)) :=
    .flatMap fun value hvalue => (tame_entryLine (hvalues value hvalue)).1
  have hslash : before.getLast? ≠ some '/' := fun h =>
    (hbefore '/' (List.mem_of_getLast? h)).1 rfl
  rw [hblock, hblock, masked, Mask.maskFrom_append (seam_of_getLast? hslash _),
    Tame.after_eq_clear hbefore hlast, maskFrom_of_plain hbefore, hentries.maskFrom_append,
    maskFrom_of_plain hbehind,
    Tame.maskFrom_flatMap fun value hvalue => (tame_entryLine (hvalues value hvalue)).1,
    List.flatMap_congr fun value hvalue => (tame_entryLine (hvalues value hvalue)).2]

/-! ### Closed blocks -/

/-- What makes a block closed for the scanners of documents. -/
structure IsClosed (container : Text) (e : Enumeration) (operation : Operation) (block : Text) :
    Prop where
  /-- It starts with the head of an extension on the enum. -/
  head : "extension ".toList ++ container ++ " on ".toList ++ e.name ++ " \x7b".toList <+: block
  /-- It shows values in keys of a map at most. -/
  keyed : block = keyedBlock Operation.quotedKey container e operation
  /-- These keys are all that is masked. -/
  mask : block.masked = keyedBlock blankKey container e operation
  /-- Its last character closes its first brace. -/
  closing : closingBrace? block.masked (block.idxOf '{') = some (block.length - 1)
  /-- Its brackets are properly nested. -/
  nested : Nested block
  /-- So are those of its mask. -/
  nested_masked : Nested block.masked
  /-- No enum is read in it. -/
  undeclared : ∀ allowRepeats, parseAll block allowRepeats = []
  /-- No line feed stands at its end. -/
  last : block.getLast? = some '}'

/-- Keys hold no brackets. -/
theorem openBrackets_entries {key : Text → Text} {values : List Text}
    (hvalues : ∀ value ∈ values, isValueName value = true)
    (hkey : ∀ value ∈ values, ∀ awaited, openBrackets awaited (key value) = some awaited)
    (awaited : Text) : openBrackets awaited (values.flatMap (entryLine key)) = some awaited := by
  induction values with
  | nil => rfl
  | cons value values ih =>
    have hname := isNameFragment_of_isNameChar
      (isNameChar_of_isValueName (hvalues value List.mem_cons_self))
    have hindent : openBrackets awaited "        ".toList = some awaited := rfl
    have hcolon : openBrackets awaited ": ".toList = some awaited := rfl
    have hend : openBrackets awaited [','] = some awaited := rfl
    have hfeed : openBrackets awaited ['\n'] = some awaited := rfl
    have hline : openBrackets awaited (entryLine key value) = some awaited := by
      unfold entryLine Operation.entryText
      simp only [openBrackets_append, hindent, hkey value List.mem_cons_self, hcolon,
        openBrackets_of_isNameFragment hname, hend, hfeed, Option.bind_some]
    rw [List.flatMap_cons, openBrackets_append, hline]
    exact ih (fun other hother => hvalues other (List.mem_cons_of_mem _ hother))
      fun other hother => hkey other (List.mem_cons_of_mem _ hother)

/-- The brackets of a block do not depend on its keys. -/
theorem openBrackets_keyedBlock (hcontainer : isNameFragment container = true) (e : Enumeration)
    (operation : Operation) :
    openBrackets [] (keyedBlock Operation.quotedKey container e operation) =
      openBrackets [] (keyedBlock blankKey container e operation) := by
  obtain ⟨before, behind, -, -, -, hblock⟩ := exists_keyedBlock_eq hcontainer e operation
  have hvalues := @isValueName_of_mem_keyedValues e operation
  have hquoted : ∀ value ∈ keyedValues e operation, ∀ awaited,
      openBrackets awaited (Operation.quotedKey value) = some awaited := by
    intro value hvalue awaited
    have hname := isNameFragment_of_isNameChar (isNameChar_of_isValueName (hvalues value hvalue))
    have hquote : openBrackets awaited ['\''] = some awaited := rfl
    rw [Operation.quotedKey, openBrackets_append, openBrackets_append, hquote, Option.bind_some,
      openBrackets_of_isNameFragment hname, Option.bind_some, hquote]
  have hblank : ∀ value ∈ keyedValues e operation, ∀ awaited,
      openBrackets awaited (blankKey value) = some awaited :=
    fun value _ awaited => openBrackets_replicate awaited _
  rw [hblock, hblock, openBrackets_append, openBrackets_append]
  cases openBrackets [] before with
  | none => rfl
  | some awaited =>
    rw [Option.bind_some, Option.bind_some, openBrackets_append, openBrackets_append,
      openBrackets_entries hvalues hquoted, openBrackets_entries hvalues hblank]

section

variable {enumName inner : Text}

theorem head_prefix_blockText (container enumName inner : Text) :
    "extension ".toList ++ container ++ " on ".toList ++ enumName ++ " \x7b".toList <+:
      blockText container enumName inner := by
  have hopen : " \x7b".toList = [' ', '{'] := rfl
  unfold blockText blockHead
  rw [hopen]
  generalize "extension ".toList = keyword
  generalize " on ".toList = between
  exact ⟨inner ++ ['}'], by simp only [List.append_assoc, List.cons_append, List.nil_append]⟩

theorem getLast?_blockText (container enumName inner : Text) :
    (blockText container enumName inner).getLast? = some '}' := by
  rw [blockText, ← List.cons_append, ← List.append_assoc, List.getLast?_concat]

/-- The first brace of a block is closed by its last character. -/
theorem closingBrace?_blockText (hcontainer : isNameFragment container = true)
    (henum : isTypeName enumName = true) (hinner : Tame [] [] inner) :
    closingBrace? (blockText container enumName inner).masked
      ((blockText container enumName inner).idxOf '{') =
        some ((blockText container enumName inner).length - 1) := by
  have hhead : '{' ∉ blockHead container enumName := by
    have hfragment : ∀ {name : Text}, isNameFragment name = true → '{' ∉ name := by
      intro name hname hmem
      rcases isNameFragment_iff.1 hname _ hmem with hletter | hdollar
      · exact absurd hletter (by decide)
      · exact absurd hdollar (by decide)
    unfold blockHead
    simp only [List.mem_append, not_or]
    exact ⟨by decide, hfragment hcontainer, by decide,
      hfragment (isNameFragment_of_isTypeName henum), by decide⟩
  have hmask : (blockText container enumName inner).masked =
      blockText container enumName (maskFrom (.code .clear) inner) :=
    maskFrom_blockText hcontainer henum hinner
  have hplace : (blockText container enumName inner).idxOf '{' =
      (blockHead container enumName).length := by
    rw [blockText, List.idxOf_append_of_notMem hhead, List.idxOf_cons_self, Nat.add_zero]
  rw [hplace, hmask, blockText, closingBrace?_eq_some_iff]
  refine ⟨maskFrom (.code .clear) inner, [], rfl, hinner.nested.balanced, ?_⟩
  rw [blockText, List.length_append, List.length_cons, List.length_append, length_maskFrom]
  rfl

end

/-- With a suffix that extends names, every block that is generated is closed. -/
theorem block_isClosed {generator : Generator} (hregistry : generator.registry = .builtIn)
    (e : Enumeration) {operation : Operation} {suffix : Json}
    (hsuffix : generator.suffix (.exactly operation) = .ok suffix)
    (hfragment : isNameFragment suffix.display = true) : ∃ block,
      generator.containerName e (.exactly operation) = .ok (e.name ++ suffix.display) ∧
        (generator.block e (.exactly operation)).run.value = .ok block ∧
          IsClosed (e.name ++ suffix.display) e operation block := by
  have hname : generator.containerName e (.exactly operation) = .ok (e.name ++ suffix.display) := by
    rw [containerName_eq, hsuffix]
    rfl
  have hcontainer : isNameFragment (e.name ++ suffix.display) = true := by
    rw [isNameFragment, List.all_append, ← isNameFragment, ← isNameFragment, hfragment,
      isNameFragment_of_isTypeName e.isTypeName_name]
    rfl
  refine ⟨_, hname, block_eq_ok hregistry e operation hname, ?_⟩
  generalize e.name ++ suffix.display = container at hcontainer
  have hinner := tame_innerText e operation
  have hkeyed := blockText_eq_keyedBlock container e operation
  have hmask := masked_keyedBlock hcontainer e operation
  have hbrackets := openBrackets_blockText hcontainer e.isTypeName_name hinner
  rw [← hkeyed] at hmask
  have hmasked : openBrackets [] (keyedBlock blankKey container e operation) = some [] := by
    rw [← hmask]
    exact hbrackets
  exact {
    head := head_prefix_blockText _ _ _
    keyed := hkeyed
    mask := hmask
    closing := closingBrace?_blockText hcontainer e.isTypeName_name hinner
    nested := by
      rw [hkeyed]
      exact nested_of_openBrackets ((openBrackets_keyedBlock hcontainer e operation).trans hmasked)
    nested_masked := nested_of_openBrackets hbrackets
    undeclared := parseAll_eq_nil (quiet_blockText hcontainer e.isTypeName_name hinner)
    last := getLast?_blockText _ _ _ }

/-- A map for an enum whose values are keywords, with a dollar sign in the name of
    its container. -/
theorem block_isClosed_keywords :
    let generator : Generator :=
      { settings := { operationSuffixes := [("map_with_values", .string "enum$")] } }
    let e : Enumeration := ⟨"Kind".toList,
      ["enum".toList, "r".toList, "extension".toList, "enum".toList], none,
      by decide, by decide, by decide⟩
    generator.suffix (.exactly .mapWithValues) = .ok (.string "enum$") ∧
      isNameFragment "enum$".toList = true ∧ ∃ block,
        generator.containerName e (.exactly .mapWithValues) = .ok "Kindenum$".toList ∧
          (generator.block e (.exactly .mapWithValues)).run.value = .ok block ∧
            IsClosed "Kindenum$".toList e .mapWithValues block := by
  intro generator e
  have hsuffix : generator.suffix (.exactly .mapWithValues) = .ok (.string "enum$") := rfl
  exact ⟨hsuffix, by decide, block_isClosed rfl e hsuffix (by decide)⟩

end Generator

end EnumCompanion
