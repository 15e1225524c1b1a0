import EnumCompanion.Proofs.Document.Presence

/-!
# Making code again

An action that replaces a block leaves its code in the place of the block and of
the margins beside it, where nothing else is found for the name. Made again, the
action replaces the code by itself.

* `Generator.exists_action_again`: an action that is made again where it has
  replaced a block.
-/

namespace EnumCompanion

open Journal Text Mask Block

namespace Generator

variable {generator : Generator} {e : Enumeration} {request : Request} {text : Text}

/-- An action that replaces a block is a fixed point: made again on the text that
    it leaves, it replaces its code in the same place by itself. -/
theorem exists_action_again (hregistry : generator.registry = .builtIn)
    (hextends : generator.Extends request) {allowRepeats : Bool}
    (hmem : e ∈ parseAll text allowRepeats) : ∃ action,
      (generator.action text e request).run.value = .ok action ∧
        (action.replaces = true → ∃ (start stop : Nat) (changed : Text) (again : Action),
          action.edits = [⟨start, stop, action.code⟩] ∧
            applyEdits text action.edits = .ok changed ∧
            (generator.action changed e request).run.value = .ok again ∧
            again.replaces = true ∧
            again.edits = [⟨start, (start + action.code.length : Nat), action.code⟩] ∧
            applyEdits changed again.edits = .ok changed) := by
  obtain ⟨container, inner, hmakes⟩ := exists_makes hregistry hextends.exists_find e
  have hcontainer := hextends.isTypeName hmakes.containerName
  obtain ⟨action, haction, hedits, hcode, hreplaces⟩ :=
    hmakes.exists_action hregistry hextends.exists_find text
  refine ⟨action, haction, fun hpresent => ?_⟩
  rw [hreplaces] at hpresent
  obtain ⟨span, hspan⟩ := Option.isSome_iff_exists.1 hpresent
  obtain ⟨site, hsite⟩ := exists_site_of_findBlock hcontainer hspan
  have hedit := hsite.edit_eq
  obtain ⟨begin, stop, hspans⟩ := exists_spans_of_mem_parseAll hmem
  -- The margins of the block are blank, so that the brace of the enum is before them.
  have hle : e.anchor text ≤ site.before.length :=
    hsite.start_le (by rw [hspans.getLast?_take_anchor]; decide)
  have hempty : site.lead ++ site.ending = [] := (congrArg Edit.newText (hedit [])).symm
  obtain ⟨hlead, hending⟩ := List.append_eq_nil_iff.1 hempty
  have hpatch : ∀ code, site.patch code = code := fun code => by
    rw [Site.patch, hlead, hending, List.nil_append, List.append_nil]
  have hstands := site.stands_own hcontainer e.isTypeName_name hmakes.tame hsite.isSound hle
    hsite.unmentioned
  rw [hlead, List.append_nil] at hstands
  have hanchor : e.anchor (site.changed (blockText container e.name inner)) = e.anchor text := by
    rw [hspans.anchor_eq] at hle ⊢
    rw [Enumeration.anchor, hspans.span, Option.elim_some]
    refine (place_natCast _ stop).trans (Nat.min_eq_left (hle.trans ?_))
    rw [Site.changed, List.length_append]
    exact Nat.le_add_right _ _
  obtain ⟨again, hagain, hedits', -, hreplaces'⟩ := hmakes.exists_action hregistry
    hextends.exists_find (site.changed (blockText container e.name inner))
  rw [hanchor] at hedits' hreplaces'
  refine ⟨site.before.length, site.before.length + site.part.length,
    site.changed (blockText container e.name inner), again, ?_, ?_, hagain, ?_, ?_, ?_⟩
  · rw [hedits, hcode, blockEdit, hspan]
    dsimp only
    rw [hedit, Site.edit, hpatch]
  · rw [hedits, blockEdit, hspan]
    dsimp only
    rw [hedit, ← hsite.text_eq, Site.applyEdits_edit]
  · rw [hreplaces', hstands.findBlock?_eq hcontainer]
    rfl
  · rw [hedits', hcode, hstands.blockEdit_eq hcontainer]
  · rw [hedits']
    exact hstands.applyEdits_eq hcontainer _

/-- An enum with a class in the place of its block, which is indented and shares
    its last line with other code. -/
def classAsBlock : Text :=
  "enum A \x7b a \x7d\n\n  class AGetters \x7b // \x7d\n  \x7d const b = 1;\n".toList

theorem exists_action_again_classAsBlock : ∃ e ∈ parseAll classAsBlock false, ∃ action,
    (({} : Generator).action classAsBlock e (.exactly .getters)).run.value = .ok action ∧
      action.replaces = true ∧ ∃ (start stop : Nat) (changed : Text) (again : Action),
        action.edits = [⟨start, stop, action.code⟩] ∧
          applyEdits classAsBlock action.edits = .ok changed ∧
          (({} : Generator).action changed e (.exactly .getters)).run.value = .ok again ∧
          again.replaces = true ∧
          again.edits = [⟨start, (start + action.code.length : Nat), action.code⟩] ∧
          applyEdits changed again.edits = .ok changed := by
  obtain ⟨e, hmem, hreplaces⟩ : ∃ e ∈ parseAll classAsBlock false,
      ∀ action ∈ (({} : Generator).action classAsBlock e (.exactly .getters)).run.value.toOption,
        action.replaces = true := by
    decide +kernel
  obtain ⟨action, haction, hagain⟩ :=
    exists_action_again rfl (extends_default ⟨_, find_eq_ok rfl .getters⟩) hmem
  have hpresent : action.replaces = true := hreplaces action (by rw [haction]; rfl)
  exact ⟨e, hmem, action, haction, hpresent, hagain hpresent⟩

end Generator

end EnumCompanion
