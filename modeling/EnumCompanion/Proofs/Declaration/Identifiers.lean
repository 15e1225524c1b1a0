import EnumCompanion.Proofs.Declaration.Part
import EnumCompanion.Proofs.Declaration.Top
import EnumCompanion.Proofs.Document.Cover

/-!
# The identifiers of an enumeration

What is read of a declaration stands in it. The values are found one behind the
other where no bracket is open, each in a part of the body that an identifier
could fill: no character that goes on with an identifier stands next to it.

Brackets leave nothing behind, though, not even the end of a word. So a part may
hold brackets between the characters of a value, which is then no word of the
body. This cannot happen where no letter follows a closing bracket. Likewise the
name may be the start of a longer identifier, which goes on with a dollar sign.

* `StandsWhole`: a word that stands at a place of a text as an identifier does;
* `Spells`, `spells_tokensOf`: the tokens of a value list stand in it;
* `Spells.of_withoutAnnotations`: they stand in it with its annotations;
* `isSpaced`: no name goes on behind a bracket of the value list;
* `IsSource`, `Spells.exists_isSource`: the parts of a body that give its values;
* `exists_isSource_of_parse`: the parts of a text that give an enumeration.
-/

namespace EnumCompanion

open Text
open Block (goesOn)

/-- A word that stands at a place of a text, with no character next to it that
    goes on with an identifier. -/
structure StandsWhole (text : Text) (place : Nat) (word : Text) : Prop where
  part : word <+: text.drop place
  before : (text.take place).getLast?.any goesOn = false
  behind : (text.drop (place + word.length)).head?.any goesOn = false

theorem standsWhole_append_iff {before word behind : Text} :
    StandsWhole (before ++ (word ++ behind)) before.length word ↔
      before.getLast?.any goesOn = false ∧ behind.head?.any goesOn = false := by
  have hdrop : (before ++ (word ++ behind)).drop (before.length + word.length) = behind := by
    rw [List.drop_length_add_append, List.drop_left]
  refine ⟨fun h => ⟨?_, ?_⟩, fun h => ⟨?_, ?_, ?_⟩⟩
  · have := h.before
    rwa [List.take_left] at this
  · have := h.behind
    rwa [hdrop] at this
  · rw [List.drop_left]
    exact List.prefix_append word behind
  · rw [List.take_left]
    exact h.1
  · rw [hdrop]
    exact h.2

/-! ### Characters -/

theorem goesOn_of_isNameChar {c : Char} (h : isNameChar c = true) : goesOn c = true := by
  rw [goesOn, isWordChar_of_isNameChar h, Bool.true_or]

theorem goesOn_of_isBlank {c : Char} (h : isBlank c = true) : goesOn c = false := by
  rw [goesOn, isWordChar_of_isBlank h, Bool.false_or, beq_eq_false_iff_ne]
  rintro rfl
  exact absurd h (by decide)

theorem goesOn_of_isBracket {c : Char} (h : isBracket c = true) : goesOn c = false := by
  have hopens : (closer? c).isSome = true → c ∈ ['(', '[', '{', '<'] := by
    simp only [closer?]
    split <;> simp
  rw [isBracket, Bool.or_eq_true] at h
  have hmem : c ∈ ['(', '[', '{', '<'] ++ [')', ']', '}', '>'] :=
    List.mem_append.2 (h.imp hopens of_decide_eq_true)
  exact forall_mem_of_all (p := (goesOn · = false)) (by decide) c hmem

theorem any_goesOn_of_isBlank {text : Text} (h : ∀ c ∈ text, isBlank c = true) :
    text.head?.any goesOn = false ∧ text.getLast?.any goesOn = false := by
  simp only [Option.any_eq_false]
  exact ⟨fun c hc => goesOn_of_isBlank (h c (List.mem_of_mem_head? hc)),
    fun c hc => goesOn_of_isBlank (h c (List.mem_of_mem_getLast? hc))⟩

/-! ### Tokens -/

/-- A text in which words stand one behind the other, each with no character next
    to it that goes on with an identifier. -/
inductive Spells : List Text → Text → Prop where
  | nil (text : Text) : Spells [] text
  | cons {gap word rest : Text} {words : List Text} (hgap : gap.getLast?.any goesOn = false)
    (hrest : rest.head?.any goesOn = false) (h : Spells words rest) :
    Spells (word :: words) (gap ++ (word ++ rest))

theorem Spells.append {words : List Text} {text : Text} (h : Spells words text) {front : Text}
    (hfront : front.getLast?.any goesOn = false) : Spells words (front ++ text) := by
  cases h with
  | nil => exact .nil _
  | @cons gap word rest words hgap hrest h =>
    rw [← List.append_assoc]
    refine .cons ?_ hrest h
    rw [List.getLast?_append]
    cases hlast : gap.getLast? with
    | none => exact hfront
    | some c => rwa [hlast] at hgap

/-- A text is what is left when it is stripped, and blanks at both ends. -/
theorem exists_eq_strip (text : Text) : ∃ before behind, text = before ++ (strip text ++ behind) ∧
    (∀ c ∈ before, isBlank c = true) ∧ ∀ c ∈ behind, isBlank c = true := by
  refine ⟨text.takeWhile isBlank, ((text.dropWhile isBlank).reverse.takeWhile isBlank).reverse, ?_,
    fun c => of_mem_takeWhile, fun c hc => of_mem_takeWhile (List.mem_reverse.1 hc)⟩
  rw [strip, ← List.reverse_append, List.takeWhile_append_dropWhile, List.reverse_reverse,
    List.takeWhile_append_dropWhile]

/-- The token of an entry stands in it. -/
theorem exists_eq_entryToken (entry : Text) : ∃ before behind,
    entry = before ++ (entryToken entry ++ behind) ∧ before.getLast?.any goesOn = false ∧
      behind.head?.any goesOn = false := by
  obtain ⟨before, behind, hentry, hbefore, hbehind⟩ := exists_eq_strip (entry.takeWhile (· != '.'))
  refine ⟨before, behind ++ entry.dropWhile (· != '.'), ?_, (any_goesOn_of_isBlank hbefore).2, ?_⟩
  · conv_lhs => rw [← List.takeWhile_append_dropWhile (p := (· != '.')) (l := entry), hentry]
    simp only [List.append_assoc, entryToken]
  · rw [List.head?_append]
    cases hhead : behind.head? with
    | some c => exact goesOn_of_isBlank (hbehind c (List.mem_of_mem_head? hhead))
    | none =>
      have := @head?_dropWhile_any (· != '.') entry
      cases hdot : (entry.dropWhile (· != '.')).head? with
      | none => rfl
      | some c =>
        rw [hdot] at this
        obtain rfl : c = '.' := by simpa using this
        rfl

/-- The tokens of entries stand in them. -/
theorem spells_entryTokens (entries : List Text) :
    Spells ((entries.map entryToken).filter (· ≠ [])) ([','].intercalate entries) := by
  induction entries with
  | nil => exact .nil _
  | cons entry entries ih =>
    -- Behind the entry stands a comma, or nothing.
    obtain ⟨rest, hjoin, hhead, hrest⟩ : ∃ rest,
        [','].intercalate (entry :: entries) = entry ++ rest ∧ rest.head?.any goesOn = false ∧
          ∀ front, Spells ((entries.map entryToken).filter (· ≠ [])) (front ++ rest) := by
      cases entries with
      | nil => exact ⟨[], by simp, rfl, fun front => .nil _⟩
      | cons next entries =>
        refine ⟨',' :: [','].intercalate (next :: entries), by simp, rfl, fun front => ?_⟩
        rw [List.append_cons]
        exact ih.append (by rw [List.getLast?_concat]; decide)
    rw [hjoin]
    by_cases htoken : entryToken entry = []
    · rw [List.map_cons, List.filter_cons_of_neg (by simpa using htoken)]
      exact hrest entry
    · obtain ⟨before, behind, hentry, hbefore, hbehind⟩ := exists_eq_entryToken entry
      rw [List.map_cons, List.filter_cons_of_pos (by simpa using htoken),
        congrArg (· ++ rest) hentry, List.append_assoc, List.append_assoc]
      refine .cons hbefore ?_ (hrest behind)
      cases behind with
      | nil => exact hhead
      | cons c behind => exact hbehind

/-- The tokens of a value list stand in it. -/
theorem spells_tokensOf (kept : Text) : Spells (tokensOf kept) kept := by
  have := spells_entryTokens (kept.splitOn ',')
  rwa [List.intercalate_splitOn] at this

/-! ### Annotations -/

/-- The words of a list of names, each with a first character. -/
def AreNames (words : List Text) : Prop :=
  ∀ word ∈ words, word ≠ [] ∧ ∀ c ∈ word, isNameChar c = true

theorem AreNames.exists_cons {word : Text} {words : List Text} (h : AreNames (word :: words)) :
    ∃ c rest, word = c :: rest ∧ isNameChar c = true ∧ (∀ d ∈ rest, isNameChar d = true) ∧
      AreNames words := by
  obtain ⟨⟨hne, hchars⟩, hwords⟩ := List.forall_mem_cons.1 h
  obtain ⟨c, rest, rfl⟩ := List.exists_cons_of_ne_nil hne
  obtain ⟨hc, hrest⟩ := List.forall_mem_cons.1 hchars
  exact ⟨c, rest, rfl, hc, hrest, hwords⟩

/-- A character of a name that is left without annotations stands in the text.
    Before it stands what stands before it without them, or an annotation that
    it does not continue. -/
theorem exists_of_withoutAnnotationsFrom {within : Bool} {text kept kept' : Text} {c : Char}
    (hc : isNameChar c = true) (h : withoutAnnotationsFrom within text = kept ++ c :: kept')
    (previous previous' : Option Char)
    (hprevious : within = false → previous'.any goesOn = true → previous.any goesOn = true) :
    ∃ before behind, text = before ++ c :: behind ∧ withoutAnnotationsFrom false behind = kept' ∧
      ((before.getLast?.or previous').any goesOn = true →
        (kept.getLast?.or previous).any goesOn = true) := by
  have hchar : isAnnotationChar c = true := by
    rw [isAnnotationChar, isWordChar_of_isNameChar hc, Bool.true_or]
  induction text generalizing within kept previous previous' with
  | nil => simp [withoutAnnotationsFrom] at h
  | cons d text ih =>
    rw [withoutAnnotationsFrom] at h
    split_ifs at h with hgoes hopens
    · -- The annotation goes on.
      obtain ⟨before, behind, rfl, hbehind, hlast⟩ :=
        ih h previous (some d) fun hfalse => absurd hfalse (by decide)
      refine ⟨d :: before, behind, rfl, hbehind, ?_⟩
      rwa [getLast?_cons_or]
    · -- An annotation starts, for which a space is left.
      cases kept with
      | nil =>
        obtain ⟨rfl, -⟩ := List.cons.inj h
        exact absurd hc (by decide)
      | cons e kept =>
        obtain ⟨before, behind, rfl, hbehind, hlast⟩ :=
          ih (List.cons.inj h).2 (some e) (some d) fun hfalse => absurd hfalse (by decide)
        refine ⟨d :: before, behind, rfl, hbehind, ?_⟩
        rwa [getLast?_cons_or, getLast?_cons_or]
    · cases kept with
      | nil =>
        obtain ⟨rfl, hrest⟩ := List.cons.inj h
        rw [hchar, Bool.and_true, Bool.not_eq_true] at hgoes
        exact ⟨[], text, rfl, hrest, hprevious hgoes⟩
      | cons e kept =>
        obtain ⟨rfl, hrest⟩ := List.cons.inj h
        obtain ⟨before, behind, rfl, hbehind, hlast⟩ :=
          ih hrest (some d) (some d) fun _ => id
        refine ⟨d :: before, behind, rfl, hbehind, ?_⟩
        rwa [getLast?_cons_or, getLast?_cons_or]

/-- A run of characters of names that is left without annotations stands in the
    text as it is. -/
theorem exists_of_withoutAnnotations_append {word text kept : Text}
    (hword : ∀ c ∈ word, isNameChar c = true) (h : withoutAnnotations text = word ++ kept) :
    ∃ rest, text = word ++ rest ∧ withoutAnnotations rest = kept := by
  induction word generalizing text with
  | nil => exact ⟨text, rfl, h⟩
  | cons c word ih =>
    obtain ⟨hc, hrun⟩ := List.forall_mem_cons.1 hword
    cases text with
    | nil => exact absurd h nofun
    | cons d text =>
      rw [withoutAnnotations, withoutAnnotationsFrom, Bool.false_and,
        if_neg Bool.false_ne_true] at h
      split_ifs at h with hopens
      · obtain ⟨rfl, -⟩ := List.cons.inj h
        exact absurd hc (by decide)
      · obtain ⟨rfl, htext⟩ := List.cons.inj h
        obtain ⟨rest, rfl, hrest⟩ := ih hrun htext
        exact ⟨rest, rfl, hrest⟩

/-- A text starts with a character that does not go on with an identifier if it
    does so without annotations. -/
theorem any_goesOn_of_withoutAnnotations {text : Text}
    (h : (withoutAnnotations text).head?.any goesOn = false) : text.head?.any goesOn = false := by
  cases text with
  | nil => rfl
  | cons c text =>
    rw [withoutAnnotations, withoutAnnotationsFrom, Bool.false_and, if_neg Bool.false_ne_true] at h
    split_ifs at h with hopens
    · rw [hopens.1]
      exact (by decide : goesOn '@' = false)
    · exact h

/-- Names that stand in a text without its annotations stand in the text. -/
theorem Spells.of_withoutAnnotations {words : List Text} (hwords : AreNames words) {text : Text}
    (h : Spells words (withoutAnnotations text)) : Spells words text := by
  generalize hkept : withoutAnnotations text = kept at h
  induction h generalizing text with
  | nil => exact .nil _
  | @cons gap word rest words hgap hrest _ ih =>
    obtain ⟨c, word, rfl, hc, hword, hwords⟩ := hwords.exists_cons
    obtain ⟨before, behind, rfl, hbehind, hlast⟩ := exists_of_withoutAnnotationsFrom hc hkept
      none none fun _ => id
    obtain ⟨rest', rfl, hrest'⟩ := exists_of_withoutAnnotations_append hword hbehind
    refine .cons ?_ (any_goesOn_of_withoutAnnotations (hrest' ▸ hrest)) (ih hwords hrest')
    rw [Option.or_none, Option.or_none] at hlast
    rw [Bool.eq_false_iff] at hgap ⊢
    exact mt hlast hgap

/-! ### Brackets -/

/-- Whether no name goes on behind a bracket that closes the last open one, or
    that matches none: behind such a bracket stands no character of a name. -/
def isSpacedFrom (awaited : Text) : Text → Bool
  | [] => true
  | c :: rest =>
    if c = ';' ∧ awaited = [] then true
    else !(isBracket c && (awaitedStep awaited c).isEmpty && rest.head?.any isNameChar) &&
      isSpacedFrom (awaitedStep awaited c) rest

/-- Whether no name goes on behind a bracket of a value list. -/
def isSpaced (body : Text) : Bool := isSpacedFrom [] body

theorem isSpacedFrom_of_append {awaited awaited' text rest : Text}
    (htext : awaitedBehind awaited text = some awaited')
    (h : isSpacedFrom awaited (text ++ rest) = true) : isSpacedFrom awaited' rest = true := by
  induction text generalizing awaited with
  | nil =>
    obtain rfl : awaited = awaited' := Option.some.inj htext
    exact h
  | cons c text ih =>
    rw [awaitedBehind_cons] at htext
    rw [List.cons_append, isSpacedFrom] at h
    split_ifs at htext h
    exact ih htext (Bool.and_eq_true_iff.1 h).2

/-- A name goes on only behind what is found before it. -/
theorem not_isBracket_of_isSpacedFrom {awaited before behind : Text} {c d : Char}
    (hbefore : awaitedBehind awaited (before ++ [c]) = some []) (hd : isNameChar d = true)
    (h : isSpacedFrom awaited (before ++ c :: d :: behind) = true) : isBracket c = false := by
  rw [awaitedBehind_append, Option.bind_eq_some_iff] at hbefore
  obtain ⟨awaited', hawaited, hc⟩ := hbefore
  rw [awaitedBehind_cons, Option.ite_none_left_eq_some] at hc
  obtain ⟨hends, hstep⟩ := hc
  have hspaced := isSpacedFrom_of_append hawaited h
  rw [isSpacedFrom, if_neg hends, Option.some.inj hstep] at hspaced
  simpa [hd] using (Bool.and_eq_true_iff.1 hspaced).1

/-- Next to a place where no bracket is open nothing goes on with an identifier if
    nothing that is found there does. -/
theorem any_goesOn_of_topLevelFrom {awaited before : Text}
    (hbefore : awaitedBehind awaited before = some [])
    (h : (topLevelFrom awaited before).getLast?.any goesOn = false) :
    before.getLast?.any goesOn = false := by
  rcases List.eq_nil_or_concat before with rfl | ⟨before, c, rfl⟩
  · rfl
  rw [List.concat_eq_append] at hbefore h ⊢
  rw [List.getLast?_concat]
  rcases isBracket_or_getLast? hbefore with hc | hc
  · exact goesOn_of_isBracket hc
  · rwa [hc] at h

theorem any_goesOn_of_topLevel {text : Text} (h : (topLevel text).head?.any goesOn = false) :
    text.head?.any goesOn = false := by
  cases text with
  | nil => rfl
  | cons c text =>
    rcases isBracket_or_head? c text with hc | rfl | hc
    · exact goesOn_of_isBracket hc
    · exact (by decide : goesOn ';' = false)
    · rwa [hc] at h

/-- A run of characters that is found first has a part of the text for itself,
    which is the run if no name goes on behind a bracket. -/
theorem exists_stretch {word text kept : Text} (h : topLevel text = word ++ kept) :
    ∃ stretch behind, text = stretch ++ behind ∧ awaitedBehind [] stretch = some [] ∧
      topLevel stretch = word ∧ topLevel behind = kept ∧
        ((∀ c ∈ word, isNameChar c = true) → isSpaced text = true → stretch = word) := by
  induction word generalizing text with
  | nil => exact ⟨[], text, rfl, rfl, rfl, h, fun _ _ => rfl⟩
  | cons c word ih =>
    obtain ⟨before, behind, rfl, hbefore, hnone, hbracket, hsemicolon, hbehind⟩ :=
      exists_of_topLevelFrom (show topLevelFrom [] text = [] ++ c :: (word ++ kept) from h)
    obtain ⟨stretch, behind, rfl, hstretch, hword, hkept, hspaced⟩ := ih hbehind
    refine ⟨before ++ c :: stretch, behind, by simp, ?_, ?_, hkept, fun hnames htext => ?_⟩
    · rw [awaitedBehind_append, hbefore, Option.bind_some,
        awaitedBehind_top_cons hbracket hsemicolon, hstretch]
    · rw [topLevel, topLevelFrom_append_of_eq_some hbefore, hnone]
      exact (topLevel_cons hbracket hsemicolon stretch).trans (congrArg (c :: ·) hword)
    · obtain ⟨hname, hnames⟩ := List.forall_mem_cons.1 hnames
      -- A character before the first one would be a bracket.
      obtain rfl : before = [] := by
        rcases List.eq_nil_or_concat before with rfl | ⟨front, d, rfl⟩
        · rfl
        rw [List.concat_eq_append] at hbefore hnone htext
        rcases isBracket_or_getLast? hbefore with hd | hd
        · rw [List.append_assoc, List.singleton_append] at htext
          rw [not_isBracket_of_isSpacedFrom hbefore hname htext] at hd
          exact Bool.noConfusion hd
        · rw [hnone] at hd
          exact absurd hd.symm (Option.some_ne_none d)
      have hrest : isSpaced (stretch ++ behind) = true :=
        isSpacedFrom_of_append (awaitedBehind_top_cons hbracket hsemicolon []) htext
      rw [hspaced hnames hrest]
      rfl

/-! ### Sources -/

/-- The parts of a body that give some values, with their places: they stand one
    behind the other as identifiers do, outside every bracket and before the
    semicolon that ends the value list. What of a part stands outside its own
    brackets is the value, and if no name goes on behind a bracket that is all of
    the part. -/
structure IsSource (body : Text) (values : List Text) (parts : List (Nat × Text)) : Prop where
  values_eq : parts.map (fun part => topLevel part.2) = values
  standsWhole : ∀ part ∈ parts, StandsWhole body part.1 part.2
  top : ∀ part ∈ parts, awaitedBehind [] (body.take part.1) = some []
  pairwise : parts.Pairwise fun part later => part.1 + part.2.length < later.1
  spaced : isSpaced body = true → parts.map Prod.snd = values

/-- One more part, before the others. -/
theorem IsSource.cons {body before part behind value : Text} {values : List Text}
    {parts : List (Nat × Text)} (h : IsSource body values parts)
    (hbody : body = before ++ (part ++ behind)) (hbefore : before.getLast?.any goesOn = false)
    (hbehind : behind.head?.any goesOn = false) (htop : awaitedBehind [] before = some [])
    (hvalue : topLevel part = value)
    (hlater : ∀ later ∈ parts, before.length + part.length < later.1)
    (hspaced : isSpaced body = true → part = value) :
    IsSource body (value :: values) ((before.length, part) :: parts) where
  values_eq := by rw [List.map_cons, h.values_eq, hvalue]
  standsWhole := by
    refine List.forall_mem_cons.2 ⟨?_, h.standsWhole⟩
    rw [hbody]
    exact standsWhole_append_iff.2 ⟨hbefore, hbehind⟩
  top := by
    refine List.forall_mem_cons.2 ⟨?_, h.top⟩
    rw [hbody, List.take_left]
    exact htop
  pairwise := List.pairwise_cons.2 ⟨hlater, h.pairwise⟩
  spaced := fun hbody => by rw [List.map_cons, h.spaced hbody, hspaced hbody]

/-- Names that stand at the top of a body have parts of it for a source. -/
theorem Spells.exists_isSource {words : List Text} {kept : Text} (h : Spells words kept)
    (hwords : AreNames words) {body front text awaited : Text} (hbody : body = front ++ text)
    (hfront : awaitedBehind [] front = some awaited) (hkept : topLevelFrom awaited text = kept)
    (hseam : front = [] ∨ text.head?.any goesOn = false) :
    ∃ parts, IsSource body words parts ∧ ∀ part ∈ parts,
      text.head?.any goesOn = false → front.length < part.1 := by
  -- By induction on the words: behind the part of the first one no bracket is open,
  -- and nothing goes on with it.
  induction h generalizing front text awaited with
  | nil => exact ⟨[], ⟨rfl, nofun, nofun, .nil, fun _ => rfl⟩, nofun⟩
  | @cons gap word rest words hgap hrest _ ih =>
    obtain ⟨c, word, rfl, hc, hword, hwords⟩ := hwords.exists_cons
    obtain ⟨before, behind, rfl, hbefore, hgap', hbracket, hsemicolon, hbehind⟩ :=
      exists_of_topLevelFrom hkept
    obtain ⟨stretch, behind, rfl, hstretch, hword', hrest', hspaced⟩ := exists_stretch hbehind
    have hhead : (before ++ c :: (stretch ++ behind)).head?.any goesOn = false → before ≠ [] := by
      rintro h rfl
      exact Bool.noConfusion ((goesOn_of_isNameChar hc).symm.trans h)
    have htop : awaitedBehind [] (front ++ before) = some [] := by
      rw [awaitedBehind_append, hfront]
      exact hbefore
    have htop' : ∀ more : Text, awaitedBehind [] (front ++ before ++ c :: more) =
        awaitedBehind [] more := fun more => by
      rw [awaitedBehind_append, htop, Option.bind_some, awaitedBehind_top_cons hbracket hsemicolon]
    have hleft : (front ++ before).getLast?.any goesOn = false := by
      have hlast := any_goesOn_of_topLevelFrom hbefore (hgap' ▸ hgap)
      rw [List.getLast?_append]
      cases hbeforeLast : before.getLast? with
      | some d => rwa [hbeforeLast] at hlast
      | none =>
        rw [hseam.resolve_right fun h => hhead h (List.getLast?_eq_none_iff.1 hbeforeLast)]
        rfl
    have hright : behind.head?.any goesOn = false := any_goesOn_of_topLevel (hrest' ▸ hrest)
    have hbody' : body = front ++ before ++ (c :: stretch ++ behind) := by
      rw [hbody, List.append_assoc]
      rfl
    obtain ⟨parts, hparts, hplaces⟩ := ih hwords
      (show body = front ++ before ++ c :: stretch ++ behind by rw [hbody', ← List.append_assoc])
      ((htop' stretch).trans hstretch) hrest' (.inr hright)
    have hlater : ∀ later ∈ parts, (front ++ before).length + (c :: stretch).length < later.1 := by
      intro later hmem
      rw [← List.length_append]
      exact hplaces later hmem hright
    refine ⟨((front ++ before).length, c :: stretch) :: parts,
      hparts.cons hbody' hleft hright htop ?_ hlater fun h => ?_, ?_⟩
    · rw [topLevel_cons hbracket hsemicolon, hword']
    · rw [hspaced hword (isSpacedFrom_of_append (htop' []) ?_)]
      rwa [← List.append_cons, ← List.cons_append, ← hbody']
    · refine List.forall_mem_cons.2 ⟨fun h => ?_, fun later hmem _ => ?_⟩
      · have := List.length_pos_of_ne_nil (hhead h)
        rw [List.length_append]
        omega
      · have := hlater later hmem
        rw [List.length_append] at this
        omega

/-- The name of a header stands behind its keyword, with no character next to it
    that goes on with an identifier unless that is a dollar sign behind it. -/
theorem Header.StandsIn.exists_name {header : Header} {masked : Text} (h : header.StandsIn masked) :
    ∃ place, header.start < place ∧ place + header.name.length ≤ header.brace ∧
      header.name <+: masked.drop place ∧ (StandsWhole masked place header.name ↔
        masked[place + header.name.length]? ≠ some '$') := by
  obtain ⟨before, text, gap, clause, rest, rfl, hstart, hheads, hbrace⟩ := h
  obtain ⟨blanks, c, rfl⟩ := (List.eq_nil_or_concat gap).resolve_left hheads.gap_ne_nil
  rw [List.concat_eq_append] at hheads
  let front := before ++ (keyword ++ (blanks ++ [c]))
  have hmasked : before ++ text = front ++ (header.name ++ (clause ++ '{' :: rest)) := by
    rw [hheads.text_eq]
    simp only [front, List.append_assoc]
  rw [hmasked] at hbrace ⊢
  have hleft : front.getLast?.any goesOn = false := by
    rw [show front = (before ++ (keyword ++ blanks)) ++ [c] by simp only [front, List.append_assoc],
      List.getLast?_concat]
    exact goesOn_of_isBlank (hheads.gap_blank c (by simp))
  have hnext : (front ++ (header.name ++ (clause ++ '{' :: rest)))[
      front.length + header.name.length]? = (clause ++ '{' :: rest).head? := by
    rw [List.getElem?_append_right (Nat.le_add_right _ _), Nat.add_sub_cancel_left,
      List.getElem?_append_right (Nat.le_refl _), Nat.sub_self, List.head?_eq_getElem?]
  refine ⟨front.length, ?_, ?_, ?_, ?_⟩
  · rw [hstart]
    simp only [front, keyword, List.length_append, List.length_cons]
    omega
  · simp only [List.length_append, List.length_cons] at hbrace ⊢
    omega
  · rw [List.drop_left]
    exact List.prefix_append _ _
  · rw [standsWhole_append_iff, hnext]
    refine ⟨fun h hdollar => ?_, fun h => ⟨hleft, ?_⟩⟩
    · rw [hdollar] at h
      exact absurd h.2 (by decide)
    · cases clause with
      | nil => exact (by decide : goesOn '{' = false)
      | cons d clause =>
        have hword : isWordChar d = false := hheads.clause.head
        rw [List.cons_append, List.head?_cons, Option.any_some, goesOn, hword, Bool.false_or,
          beq_eq_false_iff_ne]
        exact fun hd => h (congrArg some hd)

/-- Where the identifiers of an enumeration come from: its name stands behind the
    keyword of its declaration, and is all of an identifier unless a dollar sign
    follows; its values have parts of the body for a source, which are the values
    if no name goes on behind a bracket. -/
theorem exists_isSource_of_parse {text : Text} {allowRepeats : Bool} {e : Enumeration}
    (h : parse text allowRepeats = .ok e) : ∃ header close,
      firstHeader? text.masked 0 = some header ∧
      closingBrace? text.masked header.brace = some close ∧
      e.span = some (.ofOffsets text header.start (close + 1 : Nat)) ∧
      (∃ place, header.start < place ∧ place + e.name.length ≤ header.brace ∧
        e.name <+: text.masked.drop place ∧
          (StandsWhole text.masked place e.name ↔
            text.masked[place + e.name.length]? ≠ some '$')) ∧
      ∃ parts, IsSource ((text.masked.take close).drop (header.brace + 1)) e.values parts := by
  simp only [parse] at h
  cases hfirst : firstHeader? text.masked 0 with
  | none =>
    rw [hfirst] at h
    cases h
  | some header =>
    rw [hfirst] at h
    obtain ⟨close, hclose, hname, hvalues, hspan⟩ := exists_closingBrace?_of_readDeclaration h
    have hnames : AreNames e.values := fun value hmem =>
      ⟨ne_nil_of_isValueName (e.isValueName_values value hmem),
        isNameChar_of_isValueName (e.isValueName_values value hmem)⟩
    let body := (text.masked.take close).drop (header.brace + 1)
    have hspells : Spells e.values (topLevel body) := by
      refine Spells.of_withoutAnnotations hnames ?_
      rw [← hvalues]
      exact spells_tokensOf (withoutAnnotations (topLevel body))
    obtain ⟨parts, hparts, -⟩ := hspells.exists_isSource hnames
      (show body = [] ++ body from rfl) rfl rfl (.inl rfl)
    refine ⟨header, close, rfl, hclose, hspan, ?_, parts, hparts⟩
    rw [hname]
    exact (firstHeader?_eq_some_iff.1 hfirst).1.exists_name

/-- A declaration with annotations, arguments and type arguments, none of which a
    name follows at once. -/
def spacedSource : Text :=
  ("/* enum X \x7b */ enum Foo<T> with M \x7b\n" ++
    "  @A('x, y') a(1, ')'), @B(3) /* c */ b <int> . c(2);\n  const Foo(); \x7d").toList

theorem exists_isSource_of_parse_spacedSource : ∃ e, parse spacedSource false = .ok e ∧
    e.values = ["a".toList, "b".toList] ∧ ∃ header close,
      firstHeader? spacedSource.masked 0 = some header ∧
      closingBrace? spacedSource.masked header.brace = some close ∧
      (∃ place, header.start < place ∧ StandsWhole spacedSource.masked place e.name) ∧
      ∃ parts, IsSource ((spacedSource.masked.take close).drop (header.brace + 1)) e.values parts ∧
        parts.map Prod.snd = e.values := by
  have hread : (parse spacedSource false).toOption.map Enumeration.values =
      some ["a".toList, "b".toList] := by
    decide +kernel
  obtain ⟨e, he, hvalues⟩ := Option.map_eq_some_iff.1 hread
  have hparse : parse spacedSource false = .ok e :=
    eq_ok_of_readSummary (by rw [readSummary, he]; rfl)
  obtain ⟨header, close, hheader, hclose, -, ⟨place, hplace, -, -, hwhole⟩, parts, hparts⟩ :=
    exists_isSource_of_parse hparse
  have hdollar : '$' ∉ spacedSource.masked := by decide +kernel
  have hspaced : ∀ header ∈ firstHeader? spacedSource.masked 0,
      ∀ close ∈ closingBrace? spacedSource.masked header.brace,
        isSpaced ((spacedSource.masked.take close).drop (header.brace + 1)) = true := by
    decide +kernel
  exact ⟨e, hparse, hvalues, header, close, hheader, hclose,
    ⟨place, hplace, hwhole.2 fun h => hdollar (List.mem_of_getElem? h)⟩, parts, hparts,
    hparts.spaced (hspaced header hheader close hclose)⟩

/-- An entry that goes on behind its arguments. -/
def gluedSource : Text := "enum A \x7b foo(1)bar \x7d".toList

/-- A name with a dollar sign at its end. -/
def dollarSource : Text := "enum Foo$ \x7ba\x7d".toList

/-- A value may be no part of the text at all, and a name no identifier of it. -/
theorem exists_parse_not_standsWhole :
    (∃ e, parse gluedSource false = .ok e ∧ ∃ value ∈ e.values, ¬value <:+: gluedSource.masked) ∧
      ∃ e, parse dollarSource false = .ok e ∧
        ∀ place, ¬StandsWhole dollarSource.masked place e.name := by
  refine ⟨?_, ?_⟩
  · have hread : (parse gluedSource false).toOption.map Enumeration.values =
        some ["foobar".toList] := by
      decide +kernel
    obtain ⟨e, he, hvalues⟩ := Option.map_eq_some_iff.1 hread
    refine ⟨e, eq_ok_of_readSummary (by rw [readSummary, he]; rfl), "foobar".toList, ?_, ?_⟩
    · rw [hvalues]
      exact List.mem_singleton_self _
    · decide +kernel
  · have hread : (parse dollarSource false).toOption.map Enumeration.name = some "Foo".toList := by
      decide +kernel
    obtain ⟨e, he, hname⟩ := Option.map_eq_some_iff.1 hread
    refine ⟨e, eq_ok_of_readSummary (by rw [readSummary, he]; rfl), fun place h => ?_⟩
    rw [hname] at h
    have hlt : place < dollarSource.masked.length := by
      by_contra hle
      have hpart := h.part
      rw [List.drop_eq_nil_of_le (Nat.not_lt.1 hle)] at hpart
      exact absurd (List.prefix_nil.1 hpart) (by decide)
    have hnone : ∀ place < dollarSource.masked.length,
        "Foo".toList <+: dollarSource.masked.drop place →
          (dollarSource.masked.drop (place + "Foo".toList.length)).head?.any goesOn = true := by
      decide +kernel
    exact Bool.noConfusion (h.behind.symm.trans (hnone place hlt h.part))

end EnumCompanion
