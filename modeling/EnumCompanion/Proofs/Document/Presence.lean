import EnumCompanion.Proofs.Document.Effect
import EnumCompanion.Proofs.Document.Enums

/-!
# Blocks that are present

A block is *present* for an enum where what is found behind the enum is exactly
the block, as it would be generated. It stays present under every edit that
*avoids* it: that neither meets it nor puts another block of its name between
the enum and it.

* `Site.hasBlock_changed`: a block beside a site is found still;
* `Edit.Avoids`, `Site.Hosts.hasBlock_changed`: so is one that an edit avoids;
* `Generator.IsPresent`, `Generator.isPresent_changed`: the blocks that are present,
  and that are so still.
-/

namespace EnumCompanion

open Journal Text Mask Block

/-- Where a block stands, it is found there. -/
theorem Block.Stands.findBlock?_eq {text name code : Text} (hname : isTypeName name = true)
    {start : Nat} {before behind : Text} (h : Stands text name code start before behind) :
    findBlock? text name start =
      some (.ofOffsets text before.length (before.length + code.length : Nat)) := by
  obtain ⟨masked, block, maskedBehind, hfound, hmasked, hblock⟩ := h.found
  rw [(findBlock?_eq_some_iff hname).2 ⟨masked, block, maskedBehind, hfound, rfl⟩, hmasked, hblock]
  have hstart : widenedStart text before.length = before.length := by
    rw [h.text_eq, widenedStart_append, h.flush_before, List.length_nil, Nat.sub_zero]
  have hstop : widenedStop text (before.length + code.length) = before.length + code.length := by
    rw [h.text_eq, ← List.append_assoc, ← List.length_append, widenedStop_append, h.flush_behind,
      List.length_nil, Nat.add_zero]
  rw [hstart, hstop]

/-- The edit for a block that stands in a text replaces it by itself. -/
theorem Block.Stands.blockEdit_eq {text name code : Text} (hname : isTypeName name = true)
    {start : Nat} {before behind : Text} (h : Stands text name code start before behind)
    (finalLineFeed : Bool) : blockEdit text name code start finalLineFeed =
      ⟨before.length, (before.length + code.length : Nat), code⟩ := by
  rw [blockEdit, h.findBlock?_eq hname]
  rfl

theorem Block.Stands.applyEdits_eq {text name code : Text} (hname : isTypeName name = true)
    {start : Nat} {before behind : Text} (h : Stands text name code start before behind)
    (finalLineFeed : Bool) :
    applyEdits text [blockEdit text name code start finalLineFeed] = .ok text := by
  let site : Site := ⟨before, code, behind, [], []⟩
  have htext : site.text = text := h.text_eq.symm
  have hpatch : site.patch code = code := List.append_nil code
  have hedit : blockEdit text name code start finalLineFeed = site.edit code := by
    rw [h.blockEdit_eq hname, Site.edit, hpatch]
  rw [hedit]
  conv_lhs => rw [← htext]
  rw [Site.applyEdits_edit, Site.changed, hpatch]
  exact congrArg _ htext

/-- An edit for the block of a name that avoids the block that is found for
    another name from a place on: it starts behind it or ends before it, and if
    the names are one, before that place. -/
def Edit.Avoids (edit : Edit) (text name : Text) (other : Text) (start : Nat) : Prop :=
  ∀ span ∈ findBlock? text other start,
    span.stop ≤ edit.start ∨ edit.stop ≤ span.start ∧ (other = name → edit.stop < start)

instance (edit : Edit) (text name other : Text) (start : Nat) :
    Decidable (edit.Avoids text name other start) :=
  inferInstanceAs (Decidable (∀ span ∈ findBlock? text other start,
    span.stop ≤ edit.start ∨ edit.stop ≤ span.start ∧ (other = name → edit.stop < start)))

/-- The code of a block starts with a letter and ends with a brace. -/
theorem isTrimmed_blockText (container enumName inner : Text) :
    IsTrimmed (blockText container enumName inner) where
  head := by
    rw [blockText_eq]
    exact (by decide : isBlank 'e' = false)
  last := by
    rw [blockText, ← List.cons_append, ← List.append_assoc, List.getLast?_concat]
    exact (by decide : isBlank '}' = false)
  ne_nil := by
    rw [blockText_eq]
    exact List.cons_ne_nil _ _

namespace Site

variable {site : Site} {text container enumName inner name code : Text} {anchor : Nat} {edit : Edit}

section

variable (hcontainer : isTypeName container = true) (henum : isTypeName enumName = true)
  (hinner : Tame [] [] inner)

include hcontainer henum hinner

/-- A block before the site or behind it is found still, from a place that is kept
    with the text around it. From before the site it is so if what is put in has
    another name. -/
theorem hasBlock_changed (h : site.IsSound) (hname : isTypeName name = true) (hcode : IsTrimmed code)
    {start start' : Nat}
    (hkept : start ≤ site.before.length ∧ start' = start ∨
      site.before.length + site.part.length < start ∧ start' + site.part.length =
        start + (site.patch (blockText container enumName inner)).length)
    (hplace : ∀ span ∈ findBlock? site.text name start, span.stop ≤ site.before.length ∨
      (site.before.length + site.part.length : Nat) ≤ span.start ∧
        (name = container → site.before.length + site.part.length < start))
    (hpresent : HasBlock site.text name code start) :
    HasBlock (site.changed (blockText container enumName inner)) name code start' := by
  obtain ⟨before, behind, hstands⟩ := (hasBlock_iff hname hcode).1 hpresent
  have hstart : start ≤ before.length := by
    obtain ⟨masked, block, maskedBehind, hfound, hmasked, -⟩ := hstands.found
    exact hmasked ▸ hfound.start_le
  refine (hasBlock_iff hname hcode).2 ?_
  rcases hplace _ (hstands.findBlock?_eq hname) with hbefore | ⟨hbehind, hsame⟩
  · -- The block ends before the site, and so does what stands before the block.
    have hle : before.length + code.length ≤ site.before.length := Int.ofNat_le.1 hbefore
    obtain rfl : start' = start := by omega
    obtain ⟨behind', hstands'⟩ := stands_before hcontainer henum hinner hname h hcode.last
      hcode.ne_nil hstands hle
    exact ⟨before, behind', hstands'⟩
  · have hle : site.before.length + site.part.length ≤ before.length := Int.ofNat_le.1 hbehind
    have hcases : site.SameStart (blockText container enumName inner) name container start start' := by
      rcases hkept with ⟨hfirst, hunmoved⟩ | ⟨hsecond, hmoved⟩
      · refine .inl ⟨fun hname => ?_, hfirst, hunmoved⟩
        have hlt := hsame hname
        omega
      · exact .inr ⟨Nat.le_of_lt hsecond, hmoved⟩
    obtain ⟨before', hstands'⟩ := stands_behind hcontainer henum hinner hname h hcode.ne_nil
      hcases hstands hle
    exact ⟨before', behind, hstands'⟩

/-- A block that an edit avoids is found still. -/
theorem Hosts.hasBlock_changed
    (h : site.Hosts text container (blockText container enumName inner) anchor edit)
    (hname : isTypeName name = true) (hcode : IsTrimmed code) {start start' : Nat}
    (hkept : start ≤ site.before.length ∧ start' = start ∨
      site.before.length + site.part.length < start ∧ start' + site.part.length =
        start + (site.patch (blockText container enumName inner)).length)
    (havoids : edit.Avoids text container name start) (hpresent : HasBlock text name code start) :
    HasBlock (site.changed (blockText container enumName inner)) name code start' := by
  rw [← h.text_eq] at hpresent
  refine Site.hasBlock_changed hcontainer henum hinner h.isSound hname hcode hkept
    (fun span hspan => ?_) hpresent
  rw [h.text_eq] at hspan
  have hplace := havoids span hspan
  rw [h.edit_eq] at hplace
  exact hplace.imp_right (And.imp_right fun hlt hsame => Int.ofNat_lt.1 (hlt hsame))

end

end Site

namespace Generator

variable {generator : Generator} {text : Text} {e e' : Enumeration} {request request' : Request}
  {container inner : Text}

variable (generator) in
/-- Whether the block of an operation is present for an enum: what is found in
    its name behind the enum is exactly the block. -/
def IsPresent (text : Text) (e : Enumeration) (request : Request) : Prop :=
  ∃ container ∈ (generator.containerName e request).toOption,
    ∃ code ∈ (generator.block e request).run.value.toOption, HasBlock text container code (e.anchor text)

instance : Decidable (generator.IsPresent text e request) :=
  inferInstanceAs (Decidable (∃ container ∈ (generator.containerName e request).toOption,
    ∃ code ∈ (generator.block e request).run.value.toOption,
      HasBlock text container code (e.anchor text)))

variable (generator) in
/-- Whether the action of an operation for an enum avoids the block of another
    operation or enum. -/
def Avoids (text : Text) (e : Enumeration) (request : Request) (e' : Enumeration)
    (request' : Request) : Prop :=
  ∀ edit ∈ generator.actionEdit? text e request,
    ∀ container ∈ (generator.containerName e request).toOption,
      ∀ container' ∈ (generator.containerName e' request').toOption,
        edit.Avoids text container container' (e'.anchor text)

instance : Decidable (generator.Avoids text e request e' request') :=
  inferInstanceAs (Decidable (∀ edit ∈ generator.actionEdit? text e request,
    ∀ container ∈ (generator.containerName e request).toOption,
      ∀ container' ∈ (generator.containerName e' request').toOption,
        edit.Avoids text container container' (e'.anchor text)))

theorem isPresent_iff (h : generator.Makes e request container inner) :
    generator.IsPresent text e request ↔
      HasBlock text container (blockText container e.name inner) (e.anchor text) := by
  rw [IsPresent, h.containerName, h.block]
  constructor
  · rintro ⟨name, hname, code, hcode, hblock⟩
    obtain rfl := Option.some.inj hname
    obtain rfl := Option.some.inj hcode
    exact hblock
  · exact fun hblock => ⟨container, rfl, _, rfl, hblock⟩

/-- A block that the action of an operation avoids is present still. -/
theorem isPresent_changed {site : Site} {edit : Edit} (hregistry : generator.registry = .builtIn)
    (hextends : generator.Extends request) (hextends' : generator.Extends request')
    (hmakes : generator.Makes e request container inner)
    (hedit : generator.actionEdit? text e request = some edit)
    (hhosts : site.Hosts text container (blockText container e.name inner) (e.anchor text) edit)
    {e₁ e₂ : Enumeration} (hkeeps : site.Keeps (blockText container e.name inner) e₁ e₂)
    (havoids : generator.Avoids text e request e₁ request')
    (hpresent : generator.IsPresent text e₁ request') :
    generator.IsPresent (site.changed (blockText container e.name inner)) e₂ request' := by
  obtain ⟨container', inner', hmakes'⟩ := exists_makes hregistry hextends'.exists_find e₁
  have hblock := (isPresent_iff hmakes').1 hpresent
  refine (isPresent_iff (hmakes'.congr_enum hkeeps.name hkeeps.values)).2 ?_
  have hanchor := hkeeps.anchor
  rw [hhosts.text_eq] at hanchor
  rw [hkeeps.name]
  exact hhosts.hasBlock_changed (hextends.isTypeName hmakes.containerName) e.isTypeName_name
    hmakes.tame (hextends'.isTypeName hmakes'.containerName) (isTrimmed_blockText _ _ _) hanchor
    (havoids edit hedit container (by rw [hmakes.containerName]; rfl) container'
      (by rw [hmakes'.containerName]; rfl)) hblock

end Generator

end EnumCompanion
