import EnumCompanion.Proofs.Code.Closed
import EnumCompanion.Proofs.Code.Container
import EnumCompanion.Proofs.Document.Cover

/-!
# Blocks found in themselves

A generated block is looked for by the name of its container. In the text of the
block alone it is found as a whole, from its first character to its last, if the
name ends in a character of a word. In settings without warnings a name may also
end in a dollar sign, behind which no word ends, and then it is not found.

* `Block.mention?_extension`: what the head of a block mentions;
* `findBlock?_blockText_iff`: when a block is found in itself;
* `Generator.exists_findBlock?_block`: the blocks of a generator.
-/

namespace EnumCompanion

open Text Mask

namespace Block

/-- The head of a block mentions its name, if that ends in a character of a
    word. -/
theorem mention?_extension {name : Text} (hname : name.head?.any (!isBlank ·) = true)
    (rest : Text) : mention? name none ("extension ".toList ++ (name ++ ' ' :: rest)) =
      if name.getLast?.any isWordChar then some (' ' :: rest) else none := by
  cases name with
  | nil => exact absurd hname (by decide)
  | cons c letters =>
    have hc : isBlank c = false := by simpa using hname
    have hkeyword : List.isPrefixOf? "extension".toList
        ("extension ".toList ++ (c :: letters ++ ' ' :: rest)) =
          some (' ' :: (c :: letters ++ ' ' :: rest)) := isPrefixOf?_eq_some_iff.2 rfl
    have hname : List.isPrefixOf? (c :: letters) (c :: letters ++ ' ' :: rest) =
        some (' ' :: rest) := isPrefixOf?_eq_some_iff.2 rfl
    have hother : keywordMention? (c :: letters) "class".toList
        ("extension ".toList ++ (c :: letters ++ ' ' :: rest)) = none := rfl
    have hhere : nameBehindBlanks? (c :: letters) ' ' (c :: letters ++ ' ' :: rest) =
        nameHere? (c :: letters) ' ' (c :: letters ++ ' ' :: rest) := by
      rw [List.cons_append, nameBehindBlanks?, if_neg (by simp [hc]), Option.orElse_eq_orElse,
        Option.orElse_none]
    have hblank : isBlank ' ' = true := by decide
    have hword : isWordChar ' ' = false := by decide
    rw [mention?, Option.any_none, if_neg Bool.false_ne_true, keywords, List.findSome?_cons,
      List.findSome?_cons, hother, keywordMention?, hkeyword]
    dsimp only
    rw [if_pos hblank, hhere, nameHere?, hname, Option.bind_eq_bind, Option.bind_some,
      List.getLast?_cons_cons, isBoundary, List.head?_cons, Option.any_some, hword]
    cases (c :: letters).getLast?.any isWordChar <;> rfl

/-- A place is moved to the start of the text over blanks only. -/
theorem isBlank_of_widenedStart_eq_zero {text : Text} {start : Nat}
    (h : widenedStart text start = 0) : ∀ c ∈ text.take start, isBlank c = true := by
  rw [widenedStart] at h
  split_ifs at h with hblank
  · rw [h, List.drop_zero] at hblank
    exact List.all_eq_true.1 hblank
  · rw [h, List.take_zero]
    exact List.forall_mem_nil _

end Block

/-! ### The text of a block -/

section

variable {container enumName inner : Text}

/-- A block from its name on, behind the blank that ends the name. -/
def blockRest (enumName inner : Text) : Text :=
  "on ".toList ++ (enumName ++ [' ']) ++ '{' :: (inner ++ ['}'])

theorem blockText_eq_mention (container enumName inner : Text) :
    blockText container enumName inner =
      "extension ".toList ++ (container ++ ' ' :: blockRest enumName inner) := by
  have hon : " on ".toList = ' ' :: "on ".toList := rfl
  unfold blockText blockHead blockRest
  rw [hon]
  generalize "extension ".toList = word
  generalize "on ".toList = between
  simp only [List.append_assoc, List.cons_append, List.nil_append]

/-- The head of a block is the mention of its name and a text without braces. -/
theorem exists_blockHead_eq (container : Text) (henum : isTypeName enumName = true) :
    ∃ lead header, blockHead container enumName = lead ++ header ∧
      lead = "extension ".toList ++ container ∧ '{' ∉ header := by
  refine ⟨_, " on ".toList ++ (enumName ++ [' ']), (List.append_assoc _ _ _).symm, rfl, ?_⟩
  have hname : '{' ∉ enumName := fun hmem =>
    absurd (isNameChar_of_isTypeName henum _ hmem) (by decide)
  simp only [List.mem_append, not_or]
  exact ⟨by decide, hname, by decide⟩

theorem head?_of_isNameFragment (hcontainer : isNameFragment container = true)
    (hne : container ≠ []) : container.head?.any (!isBlank ·) = true := by
  cases container with
  | nil => exact absurd rfl hne
  | cons c letters =>
    have := isBlank_of_isNameFragment hcontainer c List.mem_cons_self
    simpa using this

variable (hcontainer : isNameFragment container = true) (hne : container ≠ [])
  (henum : isTypeName enumName = true) (hinner : Tame [] [] inner)

include hcontainer hne henum hinner

/-- At the head of its own mask a block is mentioned if its name ends in a character
    of a word. -/
theorem mention?_masked_blockText :
    Block.mention? container none (blockText container enumName inner).masked =
      if container.getLast?.any isWordChar then
        some (' ' :: blockRest enumName (maskFrom (.code .clear) inner)) else none := by
  rw [masked, maskFrom_blockText hcontainer henum hinner, blockText_eq_mention]
  exact Block.mention?_extension (head?_of_isNameFragment hcontainer hne) _

/-- A block is found in itself as a whole exactly if its name ends in a character
    of a word. -/
theorem findBlock?_blockText_iff : findBlock? (blockText container enumName inner) container 0 =
      some (.ofOffsets (blockText container enumName inner) 0
        (blockText container enumName inner).length) ↔
    container.getLast?.any isWordChar = true := by
  have hmention := mention?_masked_blockText hcontainer hne henum hinner
  constructor
  · intro h
    obtain ⟨before, mention, header, body, behind, hcut, hspan⟩ := findBlock?_eq_some_iff_cut.1 h
    -- The block starts with a letter, so that no blanks are taken in before it.
    have hblank := Block.isBlank_of_widenedStart_eq_zero
      (Int.ofNat_eq_zero.1 (congrArg Span.start hspan.symm))
    obtain rfl : before = [] := by
      have hletters : "extension ".toList = 'e' :: "xtension ".toList := rfl
      rw [blockText_eq_mention, hletters] at hblank
      cases before with
      | nil => rfl
      | cons c before =>
        rw [List.length_cons, List.cons_append, List.take_succ_cons] at hblank
        exact absurd (hblank 'e' List.mem_cons_self) (by decide)
    have hfound := hcut.mention?_eq
    rw [← List.nil_append (mention ++ _), ← hcut.masked_eq, List.getLast?_nil, hmention] at hfound
    exact (Option.ite_none_right_eq_some.1 hfound).1
  · intro hword
    rw [if_pos hword] at hmention
    have hmasked : (blockText container enumName inner).masked =
        blockText container enumName (maskFrom (.code .clear) inner) :=
      maskFrom_blockText hcontainer henum hinner
    obtain ⟨lead, header, hhead, hlead, hheader⟩ := exists_blockHead_eq container henum
    have hsplit : ∀ inner, blockText container enumName inner =
        lead ++ (header ++ '{' :: (inner ++ ['}'])) := by
      intro inner
      rw [blockText, hhead, List.append_assoc]
    have hrest : ' ' :: blockRest enumName (maskFrom (.code .clear) inner) =
        header ++ '{' :: (maskFrom (.code .clear) inner ++ ['}']) := by
      rw [← List.append_cancel_left_eq lead, ← hsplit, blockText_eq_mention, hlead,
        List.append_assoc]
    rw [hrest, hmasked, hsplit] at hmention
    refine findBlock?_eq_some_iff_cut.2 ⟨[], lead, header, maskFrom (.code .clear) inner, [],
      ⟨hmasked.trans (hsplit _), Nat.le_refl 0, hmention, Block.unmentioned_nil, hheader,
        hinner.nested.balanced⟩, ?_⟩
    have hlength : (lead ++ (header ++ '{' :: (maskFrom (.code .clear) inner ++ ['}']))).length =
        (blockText container enumName inner).length := by
      rw [← hsplit, ← hmasked, length_masked]
    have hstop := Block.widenedStop_append (blockText container enumName inner) []
    rw [List.append_nil] at hstop
    have hstart : Block.widenedStart (blockText container enumName inner) 0 = 0 := by
      rw [Block.widenedStart, List.take_zero]
      rfl
    rw [hlength, List.length_nil, Nat.zero_add, hstop, hstart]
    rfl

end

/-! ### The blocks of a generator -/

namespace Generator

variable {generator : Generator} {request : Request}

/-- In settings without warnings, the block that is generated for an enum is found
    as a whole in its own text, by the name of its container, exactly if that does
    not end in a dollar sign. -/
theorem exists_findBlock?_block (hregistry : generator.registry = .builtIn)
    (hwarnings : generator.settings.warnings = .ok [])
    (hknown : ∃ spec, generator.find request = .ok spec) (e : Enumeration) :
    ∃ container block, generator.containerName e request = .ok container ∧
      (generator.block e request).run.value = .ok block ∧
        (findBlock? block container 0 = some (.ofOffsets block 0 block.length) ↔
          container.getLast? ≠ some '$') := by
  obtain ⟨container, inner, hmakes⟩ := exists_makes hregistry hknown e
  obtain ⟨suffix, hsuffix, hextends⟩ := exists_extendsName_of_warnings hregistry hwarnings hknown
  have hname := hmakes.containerName
  rw [containerName_eq, hsuffix] at hname
  obtain rfl : e.name ++ suffix.display = container := Except.ok.inj hname
  have hcontainer : isNameFragment (e.name ++ suffix.display) = true := by
    rw [isNameFragment, List.all_append, ← isNameFragment, ← isNameFragment,
      isNameFragment_of_extendsName hextends, isNameFragment_of_isTypeName e.isTypeName_name]
    rfl
  have hne : e.name ++ suffix.display ≠ [] :=
    List.append_ne_nil_of_left_ne_nil (ne_nil_of_isTypeName e.isTypeName_name) _
  refine ⟨_, _, hmakes.containerName, hmakes.block, ?_⟩
  rw [findBlock?_blockText_iff hcontainer hne e.isTypeName_name hmakes.tame]
  obtain ⟨c, hc⟩ := Option.isSome_iff_exists.1 (List.getLast?_isSome.2 hne)
  rw [hc, Option.any_some, Ne, Option.some.injEq]
  -- Among the characters of a name fragment only the dollar sign ends no word.
  rcases isNameFragment_iff.1 hcontainer c (List.mem_of_getLast? hc) with hletter | rfl
  · refine iff_of_true (isWordChar_of_isNameChar hletter) ?_
    rintro rfl
    exact absurd hletter (by decide)
  · exact iff_of_false (by decide) fun h => h rfl

/-- An enum whose name ends like a keyword. -/
def subclass : Enumeration :=
  ⟨"Subclass".toList, ["extension".toList, "class".toList], none, by decide, by decide, by decide⟩

/-- A dollar sign within the name of a container does no harm. -/
theorem exists_findBlock?_block_subclass :
    let generator : Generator := { settings := { extensionSuffix := .string "$X" } }
    generator.settings.warnings = .ok [] ∧ ∃ block,
      generator.containerName subclass (.exactly .extension) = .ok "Subclass$X".toList ∧
        (generator.block subclass (.exactly .extension)).run.value = .ok block ∧
          findBlock? block "Subclass$X".toList 0 = some (.ofOffsets block 0 block.length) := by
  intro generator
  have hwarnings : generator.settings.warnings = .ok [] := rfl
  have hname : generator.containerName subclass (.exactly .extension) = .ok "Subclass$X".toList :=
    rfl
  obtain ⟨container, block, hcontainer, hblock, hiff⟩ :=
    exists_findBlock?_block rfl hwarnings ⟨_, find_eq_ok rfl .extension⟩ subclass
  obtain rfl := Except.ok.inj (hname.symm.trans hcontainer)
  exact ⟨hwarnings, block, hname, hblock, hiff.2 (by decide)⟩

/-- A block is not found by a name that ends in a dollar sign, although settings
    with such a suffix have no warning. -/
theorem findBlock?_misses_dollar :
    let generator : Generator :=
      { settings := { operationSuffixes := [("getters", .string "X$")] } }
    generator.settings.warnings = .ok [] ∧
      ∃ container ∈ (generator.containerName subclass (.exactly .getters)).toOption,
        ∃ block ∈ (generator.block subclass (.exactly .getters)).run.value.toOption,
          findBlock? block container 0 = none :=
  ⟨rfl, by decide +kernel⟩

end Generator

end EnumCompanion
