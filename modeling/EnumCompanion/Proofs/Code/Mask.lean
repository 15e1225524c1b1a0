import EnumCompanion.Proofs.Code.Block
import EnumCompanion.Proofs.Document.Block

/-!
# Generated blocks in a mask

The mask of a generated block is a block again: that of the same name, with the
members masked. It closes the braces it opens, mentions no enum and no block but
its own, and has no blanks at its ends.

* `maskFrom_blockText`, `after_blockText`: its mask, and the mode behind it;
* `balanced_blockText`, `quiet_blockText`: its braces, and that it mentions no
  enum;
* `isBlock_blockText`, `unmentioned_blockText`: the block it is, and those that it
  does not mention.
-/

namespace EnumCompanion

open Text Mask

theorem Tame.extend {awaited awaited' text : Text} (h : Tame awaited awaited' text)
    (outer : Text) : Tame (awaited ++ outer) (awaited' ++ outer) text :=
  ⟨h.after, h.seam, h.quiet, openBrackets_extend h.brackets outer⟩

theorem Text.Quiet.mono {words words' : List Text} {text : Text} (h : Quiet words text)
    (hwords : ∀ word ∈ words', word ∈ words) : Quiet words' text := by
  rintro before rest behind htext hne ⟨hprevious, word, hmem, hintroduces⟩
  exact h before rest behind htext hne ⟨hprevious, word, hwords word hmem, hintroduces⟩

/-- A block from its name on. -/
def blockTail (container enumName inner : Text) : Text :=
  (container ++ " on ".toList) ++ ((enumName ++ [' ', '{']) ++ (inner ++ ['}']))

theorem blockText_eq (container enumName inner : Text) :
    blockText container enumName inner = "extension ".toList ++ blockTail container enumName inner := by
  unfold blockText blockHead blockTail
  generalize "extension ".toList = word
  generalize " on ".toList = between
  simp only [List.append_assoc, List.cons_append, List.nil_append]

/-- The keyword of a block is code. -/
theorem maskFrom_extension (rest : Text) : maskFrom (.code .clear) ("extension ".toList ++ rest) =
    "extension ".toList ++ maskFrom (.code .clear) rest := by
  have hplain : ∀ c ∈ "extension ".toList, IsPlain c := forall_mem_of_all (by decide)
  rw [Mask.maskFrom_append (seam_of_getLast? (by decide) rest), maskFrom_of_plain hplain]
  rfl

variable {container enumName inner : Text}

section

variable (hcontainer : isNameFragment container = true) (henum : isTypeName enumName = true)
  (hinner : Tame [] [] inner)

include hcontainer henum

/-- The name of a block and what stands before its brace are tame, and so is the
    brace. -/
theorem tame_blockParts : Tame [] [] (container ++ " on ".toList) ∧
    Tame [] ['}'] (enumName ++ [' ', '{']) := by
  constructor
  · exact tame_fragment_append hcontainer (by decide) (by decide) (by decide) (by decide)
  · exact tame_name_append (isNameChar_of_isTypeName henum) (ne_nil_of_isTypeName henum)
      (by decide) (by decide) (by decide)

include hinner

/-- From its name on a block is tame. -/
theorem tame_blockTail : Tame [] [] (blockTail container enumName inner) := by
  obtain ⟨hfirst, hsecond⟩ := tame_blockParts hcontainer henum
  exact hfirst.append (hsecond.append ((hinner.extend ['}']).append
    (tame_of_isTameText (by decide) (by decide))))

theorem maskFrom_blockTail : maskFrom (.code .clear) (blockTail container enumName inner) =
    blockTail container enumName (maskFrom (.code .clear) inner) := by
  have hnamed : ∀ {name text : Text}, isNameFragment name = true →
      (text.all fun c => decide (IsPlain c)) = true →
      maskFrom (.code .clear) (name ++ text) = name ++ text := by
    intro name text hname htext
    refine maskFrom_of_plain (fun c hc => ?_) _
    rcases List.mem_append.1 hc with hc | hc
    exacts [isPlain_of_isNameFragment hname c hc, forall_mem_of_all htext c hc]
  obtain ⟨hfirst, hsecond⟩ := tame_blockParts hcontainer henum
  rw [blockTail, hfirst.maskFrom_append, hsecond.maskFrom_append, hinner.maskFrom_append,
    hnamed hcontainer (by decide), hnamed (isNameFragment_of_isTypeName henum) (by decide)]
  rfl

/-- The mask of a block is the block with the members masked. -/
theorem maskFrom_blockText : maskFrom (.code .clear) (blockText container enumName inner) =
    blockText container enumName (maskFrom (.code .clear) inner) := by
  rw [blockText_eq, maskFrom_extension, maskFrom_blockTail hcontainer henum hinner, blockText_eq]

/-- A block starts in code and leads back to it. -/
theorem after_blockText :
    after (.code .clear) (blockText container enumName inner) = .code .clear := by
  have hplain : ∀ c ∈ "extension ".toList, IsPlain c := forall_mem_of_all (by decide)
  rw [blockText_eq, after_append (seam_of_getLast? (by decide) _), after_of_plain hplain]
  exact (tame_blockTail hcontainer henum hinner).after

/-- A block closes the braces that it opens. -/
theorem balanced_blockText :
    Balanced (maskFrom (.code .clear) (blockText container enumName inner)) := by
  have hword : braceDepth 0 "extension ".toList = some 0 := by decide
  rw [Balanced, blockText_eq, maskFrom_extension, braceDepth_append, hword]
  exact (tame_blockTail hcontainer henum hinner).nested.balanced

/-- A block closes the brackets that it opens, in turn. -/
theorem openBrackets_blockText : openBrackets []
    (maskFrom (.code .clear) (blockText container enumName inner)) = some [] := by
  have hword : openBrackets [] "extension ".toList = some [] := by decide
  rw [blockText_eq, maskFrom_extension, openBrackets_append, hword]
  exact (tame_blockTail hcontainer henum hinner).brackets

/-- No enum is mentioned in a block. -/
theorem quiet_blockText :
    Quiet [Header.keyword] (maskFrom (.code .clear) (blockText container enumName inner)) := by
  have hword : Quiet [Header.keyword] "extension ".toList := quiet_of_isQuiet (by decide)
  rw [blockText_eq, maskFrom_extension]
  exact hword.append ((tame_blockTail hcontainer henum hinner).quiet.mono (by simp [mentionWords]))

end

variable (hcontainer : isTypeName container = true) (henum : isTypeName enumName = true)
  (hinner : Tame [] [] inner)

include hcontainer henum hinner

/-- The mask of a block is that of a block of its name. -/
theorem isBlock_blockText :
    IsBlock container (maskFrom (.code .clear) (blockText container enumName inner)) := by
  refine ⟨"extension".toList, List.mem_cons_self, [' '], " on ".toList ++ (enumName ++ [' ']),
    maskFrom (.code .clear) inner, by decide, forall_mem_of_all (by decide), by rfl, ?_,
    hinner.nested.balanced, ?_⟩
  · intro hmem
    rcases List.mem_append.1 hmem with hmem | hmem
    · exact absurd hmem (by decide)
    rcases List.mem_append.1 hmem with hmem | hmem
    · exact absurd (isNameChar_of_isTypeName henum _ hmem) (by decide)
    · exact absurd hmem (by decide)
  · have hextension : "extension ".toList = "extension".toList ++ [' '] := rfl
    rw [maskFrom_blockText (isNameFragment_of_isTypeName hcontainer) henum hinner]
    unfold blockText blockHead
    rw [hextension]
    generalize "extension".toList = word
    generalize " on ".toList = between
    simp only [List.append_assoc, List.cons_append, List.nil_append]

omit henum hinner in
/-- The name of a block is the only one that its keyword mentions. -/
theorem eq_of_mention?_extension {name found behind : Text} (hname : isTypeName name = true)
    {previous : Option Char}
    (h : Block.mention? name previous
      ("extension ".toList ++ (blockTail container enumName inner ++ behind)) = some found) :
    name = container := by
  obtain ⟨keyword, gap, h⟩ := (Block.mention?_eq_some_iff hname).1 h
  have hextension : "extension ".toList = "extension".toList ++ [' '] := rfl
  have htext := h.text_eq
  rw [hextension, List.append_assoc] at htext
  obtain rfl := Block.eq_of_keywords List.mem_cons_self h.keyword_mem htext
  -- Behind the same keyword the same blanks are followed by the same name.
  have hblanks : ∀ c ∈ [' '], isBlank c = true := forall_mem_of_all (by decide)
  have hstart : ∀ {name : Text}, isTypeName name = true → ∀ rest,
      (name ++ rest : Text).head?.any isBlank = false := by
    intro name hname rest
    obtain ⟨c, letters, rfl, hc, -⟩ := isTypeName_iff.1 hname
    exact isBlank_of_isNameChar (isNameChar_of_isUpper hc)
  let rest := " on ".toList ++ ((enumName ++ [' ', '{']) ++ (inner ++ ['}'])) ++ behind
  have htail : blockTail container enumName inner ++ behind = container ++ rest := by
    unfold rest blockTail
    generalize " on ".toList = between
    simp only [List.append_assoc]
  have hdrop := congrArg (List.dropWhile isBlank) (List.append_cancel_left htext)
  rw [htail, dropWhile_append_exact hblanks (hstart hcontainer rest),
    dropWhile_append_exact h.gap_blank (hstart hname found)] at hdrop
  have htake := congrArg (List.takeWhile isWordChar) hdrop
  rw [takeWhile_append_exact (fun c hc => isWordChar_of_isNameChar
      (isNameChar_of_isTypeName hcontainer c hc)) (by rfl),
    takeWhile_append_exact (fun c hc => isWordChar_of_isNameChar
      (isNameChar_of_isTypeName hname c hc)) h.behind] at htake
  exact htake.symm

omit henum hinner in
/-- The keyword of a block mentions no other name. -/
theorem unmentioned_extension {name : Text} (hname : isTypeName name = true) (hne : name ≠ container)
    (start : Nat) (previous : Option Char) (behind : Text) :
    Block.Unmentioned name start previous "extension ".toList
      (blockTail container enumName inner ++ behind) := by
  have hletters : "extension ".toList = 'e' :: ("xtension".toList ++ [' ']) := rfl
  have hword : ∀ c ∈ "xtension".toList, isWordChar c = true :=
    forall_mem_of_all (by decide)
  rw [hletters, Block.unmentioned_cons]
  refine ⟨fun hstart => ?_, fun before rest htext hne hstart => ?_⟩
  · rw [Option.eq_none_iff_forall_ne_some]
    exact fun found hfound => hne (eq_of_mention?_extension hcontainer hname hfound)
  · -- All other places stand within the word.
    have hbefore : ∀ c ∈ before, isWordChar c = true := by
      rcases List.append_eq_append_iff.1 htext with ⟨more, rfl, hmore⟩ | ⟨more, hxtension, -⟩
      · cases more with
        | nil => exact fun c hc => hword c (by simpa using hc)
        | cons d more =>
          have := congrArg List.length hmore
          have := List.length_pos_of_ne_nil hne
          simp only [List.length_append, List.length_cons, List.length_nil] at *
          omega
      · exact fun c hc => hword c (by rw [hxtension]; exact List.mem_append_left _ hc)
    have hprevious : (before.getLast?.or (some 'e')).any isWordChar = true := by
      cases hlast : before.getLast? with
      | none => decide
      | some c => exact hbefore c (List.mem_of_getLast? hlast)
    rw [Block.mention?, if_pos hprevious]

/-- A block mentions no other block. -/
theorem unmentioned_blockText {name : Text} (hname : isTypeName name = true) (hne : name ≠ container)
    (start : Nat) (previous : Option Char) (behind : Text) :
    Block.Unmentioned name start previous
      (maskFrom (.code .clear) (blockText container enumName inner)) behind := by
  have htail := tame_blockTail (isNameFragment_of_isTypeName hcontainer) henum hinner
  rw [blockText_eq, maskFrom_extension, Block.unmentioned_append]
  refine ⟨?_, Block.unmentioned_of_quiet hname htail.quiet (fun keyword hmem => ?_) _ _ _⟩
  · rw [maskFrom_blockTail (isNameFragment_of_isTypeName hcontainer) henum hinner]
    exact unmentioned_extension hcontainer hname hne start previous behind
  · exact List.mem_cons_of_mem _ hmem

end EnumCompanion
