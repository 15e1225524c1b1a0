import EnumCompanion.Proofs.Document.Action

/-!
# Effects of actions

An edit *spares* the enums of a text where it is apart from their declarations
and what it inserts is read as code. The action of an operation then puts its
block into a sound site, if the name of its container is that of a type.

* `Edit.Spares`: the edits that leave all enums as they are;
* `Site.Hosts`, `exists_site_of_blockEdit`: the site of such an edit;
* `Generator.Makes.exists_changed`: what the action of such an operation does.
-/

namespace EnumCompanion

open Journal Text Mask Block

/-! ### Sites of edits -/

/-- An edit that leaves the enums of a text as they are: it is apart from their
    declarations, and what it inserts is read as code. -/
structure Edit.Spares (edit : Edit) (text : Text) : Prop where
  apart : Apart text.masked edit.start.toNat edit.stop.toNat
  lands : edit.start = edit.stop → LandsInCode text edit.start.toNat

instance (edit : Edit) (text : Text) : Decidable (edit.Spares text) :=
  decidable_of_iff (Apart text.masked edit.start.toNat edit.stop.toNat ∧
      (edit.start = edit.stop → LandsInCode text edit.start.toNat))
    ⟨fun h => ⟨h.1, h.2⟩, fun h => ⟨h.apart, h.lands⟩⟩

/-- An edit that inserts before all mentions of a name from a place on. -/
def Edit.Precedes (edit : Edit) (text name : Text) (anchor : Nat) : Prop :=
  edit.start = edit.stop → ∀ mention ∈ first? text.masked name anchor, edit.start ≤ mention.1

instance (edit : Edit) (text name : Text) (anchor : Nat) :
    Decidable (edit.Precedes text name anchor) :=
  inferInstanceAs (Decidable (_ → _))

/-- A site of a text at which an edit puts code as the block of a name that is
    looked for from a place on. -/
structure Site.Hosts (site : Site) (text name code : Text) (start : Nat) (edit : Edit) : Prop where
  text_eq : site.text = text
  isSound : site.IsSound
  edit_eq : edit = site.edit code
  apart : Apart text.masked site.before.length (site.before.length + site.part.length)
  start_le : start ≤ site.before.length ∨ start < site.before.length + site.part.length
  /-- The block that is put in is the first of its name. -/
  unmentioned : edit.Precedes text name start →
    Unmentioned name start none site.before.masked (site.maskedPart ++ site.behind.masked)

/-- The edit of an action that spares the enums has a sound site. -/
theorem exists_site_of_blockEdit {text name : Text} (hname : isTypeName name = true) (code : Text)
    {anchor : Nat} (hanchor : anchor ≤ text.length) {finalLineFeed : Bool}
    (h : (blockEdit text name code anchor finalLineFeed).Spares text) :
    ∃ site : Site, site.Hosts text name code anchor
      (blockEdit text name code anchor finalLineFeed) := by
  cases hfind : findBlock? text name anchor with
  | some span =>
    obtain ⟨site, hreplaces⟩ := exists_site_of_findBlock hname hfind
    have hblock : blockEdit text name code anchor finalLineFeed = site.edit code := by
      rw [blockEdit, hfind]
      exact hreplaces.edit_eq code
    refine ⟨site, hreplaces.text_eq, hreplaces.isSound, hblock, ?_, .inr hreplaces.start_lt,
      fun _ => hreplaces.unmentioned⟩
    rw [hblock] at h
    exact h.apart
  | none =>
    obtain ⟨site, hfollows, hedit⟩ := exists_site_of_insertion code hanchor finalLineFeed
    have hblock : blockEdit text name code anchor finalLineFeed = site.edit code := by
      rw [blockEdit, hfind]
      exact hedit
    rw [hblock] at h ⊢
    have hempty : (site.edit code).start = (site.edit code).stop := by
      simp only [Site.edit, hfollows.part, List.length_nil, Nat.add_zero]
    have hsound := hfollows.isSound (h.lands hempty)
    refine ⟨site, hfollows.text_eq, hsound, rfl, h.apart, .inl (hfollows.place_le hanchor),
      fun hprecedes => ?_⟩
    refine unmentioned_of_le_first? fun mention hmention => ?_
    have hmasked := Site.masked_text hsound
    rw [hfollows.text_eq] at hmasked
    rw [← hmasked] at hmention
    have := hprecedes hempty mention hmention
    rw [length_masked]
    exact Int.ofNat_le.1 this

namespace Generator

variable {generator : Generator} {e : Enumeration} {request : Request} {container inner text : Text}

/-! ### The action of an operation -/

variable (generator) in
/-- The edit of the action of an operation for an enum. -/
def actionEdit? (text : Text) (e : Enumeration) (request : Request) : Option Edit :=
  (generator.action text e request).run.value.toOption.bind fun action => action.edits.head?

namespace Makes

variable (hmakes : generator.Makes e request container inner)
  (hregistry : generator.registry = .builtIn) (hextends : generator.Extends request)

include hmakes hregistry hextends

/-- The edit of an action is that of its block. -/
theorem actionEdit?_eq (text : Text) : generator.actionEdit? text e request =
    some (blockEdit text container (blockText container e.name inner) (e.anchor text)
      generator.settings.trailingNewline.isTruthy) := by
  obtain ⟨action, haction, hedits, -⟩ := hmakes.exists_action hregistry hextends.exists_find text
  rw [actionEdit?, haction, Except.toOption, Option.bind_some, hedits]
  rfl

/-- An action whose edit spares the enums puts its block into a sound site. -/
theorem exists_changed
    (hspares : ∀ edit ∈ generator.actionEdit? text e request, edit.Spares text) :
    ∃ (action : Action) (edit : Edit) (site : Site),
      (generator.action text e request).run.value = .ok action ∧
        generator.actionEdit? text e request = some edit ∧
        site.Hosts text container (blockText container e.name inner) (e.anchor text) edit ∧
        applyEdits text action.edits = .ok (site.changed (blockText container e.name inner)) := by
  obtain ⟨action, haction, hedits, -⟩ := hmakes.exists_action hregistry hextends.exists_find text
  have hedit := hmakes.actionEdit?_eq hregistry hextends text
  obtain ⟨site, hhosts⟩ := exists_site_of_blockEdit (hextends.isTypeName hmakes.containerName)
    (blockText container e.name inner) (e.anchor_le_length text) (hspares _ hedit)
  refine ⟨action, _, site, haction, hedit, hhosts, ?_⟩
  rw [hedits, hhosts.edit_eq, ← hhosts.text_eq, Site.applyEdits_edit]

end Makes

end Generator

end EnumCompanion
