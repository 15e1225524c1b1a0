import EnumCompanion.Proofs.Document.Patch

/-!
# Actions stay behind their enum

The action of an operation that is known has one edit, which fits the text and
starts no earlier than the enum ends, however the text is laid out: a block that
is found is widened by blanks only, and the enum ends with a brace. So the action
can always be made, it leaves the enum and all that stands before it, and a run of
such operations comes to a good end on every text.

* `Action.Keeps`: what such an action does;
* `Generator.exists_action_keeps`: every action does so;
* `Generator.exists_turn_eq_ok`, `Generator.exists_foldlM_eq_ok`: neither a turn
  fails nor a run;
* `Generator.actions_stay_behind`: the actions for a text, and the runs on it.
-/

namespace EnumCompanion

open Journal Text

/-- An action with one edit, of a run of the text behind a place, and the text that
    it makes, which is the same up to the place. -/
structure Action.Keeps (action : Action) (text : Text) (place : Int) (changed : Text) : Prop where
  edits : ∃ edit, action.edits = [edit] ∧ place ≤ edit.start ∧ edit.start ≤ edit.stop ∧
    edit.stop ≤ text.length
  applied : applyEdits text action.edits = .ok changed
  before : changed.slice 0 place = text.slice 0 place

/-- A site behind a place leaves what stands before the place. -/
theorem Site.slice_changed {site : Site} {place : Nat} (h : place ≤ site.before.length)
    (code : Text) : (site.changed code).slice 0 place = site.text.slice 0 place := by
  obtain ⟨front, gap, hbefore, hlength⟩ : ∃ front gap, site.before = front ++ gap ∧
      front.length = place :=
    ⟨_, _, (List.take_append_drop place site.before).symm, List.length_take_of_le h⟩
  have hslice : ∀ rest : Text, (front ++ rest).slice 0 place = front := fun rest => by
    have := slice_append [] front rest
    rwa [List.nil_append, List.length_nil, Nat.zero_add, hlength] at this
  rw [Site.changed, Site.text, hbefore, List.append_assoc, List.append_assoc, hslice, hslice]

namespace Generator

variable {generator : Generator} {e : Enumeration} {request : Request} {text : Text}

/-! ### Actions -/

/-- The action of an operation for an enum of a text is made behind the enum. -/
theorem exists_action_keeps (hregistry : generator.registry = .builtIn)
    (hknown : ∃ spec, generator.find request = .ok spec) {allowRepeats : Bool}
    (hmem : e ∈ parseAll text allowRepeats) : ∃ span ∈ e.span, ∃ (action : Action) (changed : Text),
      (generator.action text e request).run.value = .ok action ∧
        action.Keeps text span.stop changed := by
  obtain ⟨container, inner, hmakes⟩ := exists_makes hregistry hknown e
  obtain ⟨action, haction, hedits, -⟩ := hmakes.exists_action hregistry hknown text
  obtain ⟨start, stop, hspans⟩ := exists_spans_of_mem_parseAll hmem
  -- The enum ends with its brace, over which no margin of a block reaches.
  obtain ⟨site, htakes, hedit⟩ := exists_takes_of_blockEdit text container
    (blockText container e.name inner) (e.anchor_le_length text)
    (by rw [hspans.getLast?_take_anchor]; decide) generator.settings.trailingNewline.isTruthy
  have hbehind := htakes.start_le
  rw [hspans.anchor_eq] at hbehind
  rw [hedit] at hedits
  refine ⟨_, hspans.span, action, site.changed (blockText container e.name inner), haction,
    ⟨_, hedits, ?_, ?_, ?_⟩, ?_, ?_⟩
  · exact Int.ofNat_le.2 hbehind
  · exact Int.ofNat_le.2 (Nat.le_add_right _ _)
  · rw [← htakes.text_eq]
    simp only [Site.edit, Site.text, List.length_append]
    omega
  · rw [hedits, ← htakes.text_eq]
    exact site.applyEdits_edit _
  · rw [← htakes.text_eq]
    exact Site.slice_changed hbehind _

/-! ### Runs -/

/-- A turn for an operation that is known does not fail. -/
theorem exists_turn_eq_ok (hregistry : generator.registry = .builtIn) {t : Turn}
    (hknown : ∃ spec, generator.find t.request = .ok spec) (text : Text) :
    ∃ changed, generator.turn text t = .ok changed := by
  cases henum : generator.enum? text t.name with
  | none => exact ⟨text, by rw [turn, value_applyToEnum_cons, henum]⟩
  | some e =>
    obtain ⟨span, -, action, changed, haction, hkeeps⟩ :=
      exists_action_keeps hregistry hknown (List.mem_of_find?_eq_some henum)
    exact ⟨changed, by rw [turn_of_action henum haction, hkeeps.applied]; rfl⟩

/-- Nor does a run of such turns. -/
theorem exists_foldlM_eq_ok (hregistry : generator.registry = .builtIn) {turns : List Turn}
    (hknown : ∀ t ∈ turns, ∃ spec, generator.find t.request = .ok spec) (text : Text) :
    ∃ changed, turns.foldlM generator.turn text = .ok changed := by
  induction turns generalizing text with
  | nil => exact ⟨text, rfl⟩
  | cons t turns ih =>
    rw [List.forall_mem_cons] at hknown
    obtain ⟨between, hturn⟩ := exists_turn_eq_ok hregistry hknown.1 text
    obtain ⟨changed, hrest⟩ := ih hknown.2 between
    exact ⟨changed, by rw [List.foldlM_cons, hturn, ok_bind, hrest]⟩

/-- The action of each operation that is known has one edit, which fits the text
    and starts no earlier than the enum ends, so that it can be made and leaves the
    text up to there. A run of such operations does not fail on any text, and each
    of its turns puts its code behind an enum. -/
theorem actions_stay_behind (hregistry : generator.registry = .builtIn) {requests : List Request}
    (hknown : ∀ request ∈ requests, ∃ spec, generator.find request = .ok spec) (text : Text) :
    (∀ allowRepeats, ∀ e ∈ parseAll text allowRepeats, ∀ request ∈ requests,
      ∃ span ∈ e.span, ∃ (action : Action) (changed : Text),
        (generator.action text e request).run.value = .ok action ∧
          action.Keeps text span.stop changed) ∧
      ∀ only : Option (List Text), ∃ changed,
        (generator.applyOperations text requests only).run.value = .ok changed ∧
          generator.Patches (generator.turns text requests only) text changed := by
  refine ⟨fun allowRepeats e hmem request hrequest =>
    exists_action_keeps hregistry (hknown request hrequest) hmem, fun only => ?_⟩
  obtain ⟨changed, hchanged⟩ := exists_foldlM_eq_ok hregistry
    (fun t ht => hknown _ (of_mem_turns ht).2) text
  rw [← value_applyOperations] at hchanged
  exact ⟨changed, hchanged, patches_of_applyOperations hregistry hchanged⟩

/-- An enum whose block is mentioned on its own last line, with another enum around
    the line behind. -/
def mentionedOnLine : Text := "enum A \x7ba\x7d class AX\nenum B \x7b\n b\x7d".toList

theorem actions_stay_behind_mentionedOnLine :
    (∀ e ∈ parseAll mentionedOnLine false, ∃ span ∈ e.span, ∃ (action : Action) (changed : Text),
      (({} : Generator).action mentionedOnLine e (.exactly .extension)).run.value = .ok action ∧
        action.Keeps mentionedOnLine span.stop changed) ∧
      ∃ changed, (({} : Generator).applyOperations mentionedOnLine [.exactly .extension]
        none).run.value = .ok changed ∧ ({} : Generator).Patches [⟨"A".toList, .exactly .extension⟩,
          ⟨"B".toList, .exactly .extension⟩] mentionedOnLine changed := by
  have hknown : ∀ request ∈ [Request.exactly .extension],
      ∃ spec, ({} : Generator).find request = .ok spec := by
    intro request hmem
    rw [List.mem_singleton.1 hmem]
    exact ⟨_, find_eq_ok rfl .extension⟩
  obtain ⟨hactions, hruns⟩ := actions_stay_behind rfl hknown mentionedOnLine
  have hturns : ({} : Generator).turns mentionedOnLine [.exactly .extension] none =
      [⟨"A".toList, .exactly .extension⟩, ⟨"B".toList, .exactly .extension⟩] := by
    decide +kernel
  exact ⟨fun e hmem => hactions false e hmem _ List.mem_cons_self, hturns ▸ hruns none⟩

end Generator

end EnumCompanion
