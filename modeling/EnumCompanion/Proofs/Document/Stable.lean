import EnumCompanion.Proofs.Document.Presence
import EnumCompanion.Proofs.Document.Run

/-!
# Stable runs

A turn is *settled* in a text where its block is present; it then replaces the
block by itself. A turn at a *fair* stage settles itself, and none of the turns
before it is unsettled by it, so that a run of fair stages leaves a text in which
all its turns are settled: a second run changes nothing.

* `Generator.turn_of_isSettled`: a settled turn changes nothing;
* `Generator.IsFair`: the stages at which a turn settles for good;
* `Generator.exists_turn_isSettled`: what a turn at such a stage does;
* `Generator.exists_applyOperations_stable`: a second run changes nothing.
-/

namespace EnumCompanion

open Journal Text Mask Block

namespace Generator

variable {generator : Generator} {text : Text} {t : Turn} {e : Enumeration} {request : Request}
  {container inner : Text}

/-! ### Settled turns -/

variable (generator) in
/-- Whether the block of a turn is present. -/
def IsSettled (text : Text) (t : Turn) : Prop :=
  ∃ e, generator.enum? text t.name = some e ∧ generator.IsPresent text e t.request

/-- Where its block is present, the edit of an action replaces it by itself. -/
theorem applyEdits_of_isPresent (hmakes : generator.Makes e request container inner)
    (hcontainer : isTypeName container = true) (hpresent : generator.IsPresent text e request)
    (finalLineFeed : Bool) : applyEdits text [blockEdit text container
      (blockText container e.name inner) (e.anchor text) finalLineFeed] = .ok text := by
  obtain ⟨before, behind, hstands⟩ := (hasBlock_iff hcontainer (isTrimmed_blockText _ _ _)).1
    ((isPresent_iff hmakes).1 hpresent)
  exact hstands.applyEdits_eq hcontainer finalLineFeed

theorem turn_of_isSettled (hregistry : generator.registry = .builtIn)
    (hextends : generator.Extends t.request) (h : generator.IsSettled text t) :
    generator.turn text t = .ok text := by
  obtain ⟨e, henum, hpresent⟩ := h
  obtain ⟨container, inner, hmakes⟩ := exists_makes hregistry hextends.exists_find e
  obtain ⟨action, haction, hedits, -⟩ := hmakes.exists_action hregistry hextends.exists_find text
  rw [turn_of_action henum haction, hedits, applyEdits_of_isPresent hmakes
    (hextends.isTypeName hmakes.containerName) hpresent]
  rfl

/-- A run of settled turns changes nothing. -/
theorem foldlM_turn_of_isSettled (hregistry : generator.registry = .builtIn) {turns : List Turn}
    (hextends : ∀ t ∈ turns, generator.Extends t.request)
    (h : ∀ t ∈ turns, generator.IsSettled text t) : turns.foldlM generator.turn text = .ok text := by
  induction turns with
  | nil => rfl
  | cons t turns ih =>
    rw [List.foldlM_cons, turn_of_isSettled hregistry (hextends t List.mem_cons_self)
      (h t List.mem_cons_self), ok_bind]
    exact ih (fun t ht => hextends t (List.mem_cons_of_mem _ ht))
      fun t ht => h t (List.mem_cons_of_mem _ ht)

/-! ### Fair stages -/

variable (generator) in
/-- Turns for one enum and one operation. -/
def Agree (t t' : Turn) : Prop :=
  t.name = t'.name ∧ generator.find t.request = generator.find t'.request

instance (t t' : Turn) : Decidable (generator.Agree t t') := inferInstanceAs (Decidable (_ ∧ _))

/-- A turn is settled where one that agrees with it is. -/
theorem IsSettled.congr {t' : Turn} (hregistry : generator.registry = .builtIn)
    (hextends : generator.Extends t.request) (hagree : generator.Agree t' t)
    (h : generator.IsSettled text t) : generator.IsSettled text t' := by
  obtain ⟨e, henum, hpresent⟩ := h
  obtain ⟨container, inner, hmakes⟩ := exists_makes hregistry hextends.exists_find e
  refine ⟨e, by rw [hagree.1]; exact henum, ?_⟩
  exact (isPresent_iff (hmakes.congr hagree.2.symm)).2 ((isPresent_iff hmakes).1 hpresent)

/-- A stage at which a turn settles for good: its edit spares the enums, inserts
    before other mentions of its block, and avoids the blocks of the turns
    before. -/
structure IsFair (generator : Generator) (stage : Stage) : Prop where
  spares : ∀ edit ∈ generator.edit? stage.text stage.turn, edit.Spares stage.text
  precedes : ∀ e ∈ generator.enum? stage.text stage.turn.name,
    ∀ edit ∈ generator.actionEdit? stage.text e stage.turn.request,
      ∀ container ∈ (generator.containerName e stage.turn.request).toOption,
        edit.Precedes stage.text container (e.anchor stage.text)
  avoids : ∀ other ∈ stage.done, ¬generator.Agree other stage.turn →
    ∀ e ∈ generator.enum? stage.text stage.turn.name,
      ∀ e' ∈ generator.enum? stage.text other.name,
        generator.Avoids stage.text e stage.turn.request e' other.request

instance (stage : Stage) : Decidable (generator.IsFair stage) :=
  decidable_of_iff ((∀ edit ∈ generator.edit? stage.text stage.turn, edit.Spares stage.text) ∧
      (∀ e ∈ generator.enum? stage.text stage.turn.name,
        ∀ edit ∈ generator.actionEdit? stage.text e stage.turn.request,
          ∀ container ∈ (generator.containerName e stage.turn.request).toOption,
            edit.Precedes stage.text container (e.anchor stage.text)) ∧
      ∀ other ∈ stage.done, ¬generator.Agree other stage.turn →
        ∀ e ∈ generator.enum? stage.text stage.turn.name,
          ∀ e' ∈ generator.enum? stage.text other.name,
            generator.Avoids stage.text e stage.turn.request e' other.request)
    ⟨fun h => ⟨h.1, h.2.1, h.2.2⟩, fun h => ⟨h.spares, h.precedes, h.avoids⟩⟩

/-- The block that is put into a text is present for the enum it is for. -/
theorem isPresent_own {site : Site} {edit : Edit} (hmakes : generator.Makes e request container inner)
    (hcontainer : isTypeName container = true)
    (hhosts : site.Hosts text container (blockText container e.name inner) (e.anchor text) edit)
    (hprecedes : edit.Precedes text container (e.anchor text)) {e' : Enumeration}
    (hkeeps : site.Keeps (blockText container e.name inner) e e') :
    generator.IsPresent (site.changed (blockText container e.name inner)) e' request := by
  have hanchor := hkeeps.anchor
  have hstart := hhosts.start_le
  rw [hhosts.text_eq] at hanchor
  -- The enum ends before the site, as it does not end within the part.
  obtain ⟨hle, hsame⟩ : e.anchor text ≤ site.before.length ∧
      e'.anchor (site.changed (blockText container e.name inner)) = e.anchor text := by omega
  rw [isPresent_iff (hmakes.congr_enum hkeeps.name hkeeps.values), hkeeps.name, hsame]
  exact (hasBlock_iff hcontainer (isTrimmed_blockText _ _ _)).2 ⟨_, _, Site.stands_own hcontainer
    e.isTypeName_name hmakes.tame hhosts.isSound hle (hhosts.unmentioned hprecedes)⟩

/-- A turn at a fair stage keeps what the enums declare, settles itself and
    leaves the turns before it settled. -/
theorem exists_turn_isSettled (hregistry : generator.registry = .builtIn) {stage : Stage}
    (hextends : generator.Extends stage.turn.request)
    (henum : generator.enum? stage.text stage.turn.name = some e) (hfair : generator.IsFair stage) :
    ∃ changed, generator.turn stage.text stage.turn = .ok changed ∧
      (parseAll changed generator.settings.allowRepeats.isTruthy).map Enumeration.declared =
        (parseAll stage.text generator.settings.allowRepeats.isTruthy).map Enumeration.declared ∧
      generator.IsSettled changed stage.turn ∧
      ∀ other ∈ stage.done, generator.Extends other.request →
        generator.IsSettled stage.text other → generator.IsSettled changed other := by
  obtain ⟨container, inner, hmakes⟩ := exists_makes hregistry hextends.exists_find e
  have hcontainer := hextends.isTypeName hmakes.containerName
  have hspares := hfair.spares
  rw [edit?, henum, Option.bind_some] at hspares
  obtain ⟨action, edit, site, haction, hedit, hhosts, hchanged⟩ :=
    hmakes.exists_changed hregistry hextends hspares
  have hkeeps := Site.forall₂_keeps hcontainer e.isTypeName_name hmakes.tame hhosts.isSound
    (by rw [hhosts.text_eq]; exact hhosts.apart) generator.settings.allowRepeats.isTruthy
  rw [hhosts.text_eq] at hkeeps
  have hown : generator.IsSettled (site.changed (blockText container e.name inner)) stage.turn := by
    obtain ⟨e', henum', hkept⟩ := Site.exists_find?_of_forall₂ hkeeps henum
    exact ⟨e', henum', isPresent_own hmakes hcontainer hhosts
      (hfair.precedes e henum edit hedit container (by rw [hmakes.containerName]; rfl)) hkept⟩
  refine ⟨_, ?_, Site.map_declared_of_forall₂ hkeeps, hown, fun other hother hextends' hsettled => ?_⟩
  · rw [turn_of_action henum haction, hchanged]
    rfl
  · by_cases hagree : generator.Agree other stage.turn
    · exact hown.congr hregistry hextends hagree
    · obtain ⟨e₁, henum₁, hpresent⟩ := hsettled
      obtain ⟨e₂, henum₂, hkept⟩ := Site.exists_find?_of_forall₂ hkeeps henum₁
      exact ⟨e₂, henum₂, isPresent_changed hregistry hextends hextends' hmakes hedit hhosts hkept
        (hfair.avoids other hother hagree e henum e₁ henum₁) hpresent⟩

/-! ### Runs of fair stages -/

/-- The turns of a run depend on what the enums declare. -/
theorem turns_congr {text' : Text} {requests : List Request} {only : Option (List Text)}
    (h : (parseAll text' generator.settings.allowRepeats.isTruthy).map Enumeration.declared =
      (parseAll text generator.settings.allowRepeats.isTruthy).map Enumeration.declared) :
    generator.turns text' requests only = generator.turns text requests only := by
  have hnames := congrArg (List.map Prod.fst) h
  rw [List.map_map, List.map_map] at hnames
  exact congrArg (fun names : List Text => (names.filter fun name =>
    only.all fun given => given.contains name).flatMap fun name => requests.map (Turn.mk name)) hnames

/-- In settings without warnings, a run of fair stages of known operations whose
    suffixes have no dollar sign ends well, and a second run changes nothing. -/
theorem exists_applyOperations_stable (hregistry : generator.registry = .builtIn)
    (hwarnings : generator.settings.warnings = .ok []) {requests : List Request}
    {only : Option (List Text)} (hknown : ∀ request ∈ requests, ∃ spec, generator.find request = .ok spec)
    (hdollar : ∀ request ∈ requests, ∀ suffix, generator.suffix request = .ok suffix →
      '$' ∉ suffix.display)
    (hfair : ∀ stage ∈ generator.stages [] text (generator.turns text requests only),
      generator.IsFair stage) :
    ∃ changed, (generator.applyOperations text requests only).run.value = .ok changed ∧
      (generator.applyOperations changed requests only).run.value = .ok changed := by
  have hextends : ∀ t ∈ generator.turns text requests only, generator.Extends t.request := fun t ht =>
    have hmem := (of_mem_turns ht).2
    extends_of_warnings hregistry hwarnings (hknown _ hmem) (hdollar _ hmem)
  -- At every stage the enums are those of the text, and the turns before are settled.
  let P : List Turn → Text → Prop := fun done text' =>
    (parseAll text' generator.settings.allowRepeats.isTruthy).map Enumeration.declared =
        (parseAll text generator.settings.allowRepeats.isTruthy).map Enumeration.declared ∧
      ∀ t ∈ done, generator.Extends t.request ∧ generator.IsSettled text' t
  have hstep : ∀ stage ∈ generator.stages [] text (generator.turns text requests only),
      P stage.done stage.text → ∃ changed, generator.turn stage.text stage.turn = .ok changed ∧
        P (stage.turn :: stage.done) changed := by
    intro stage hstage hP
    obtain ⟨hdeclared, hsettled⟩ := hP
    have hturn := turn_mem_of_mem_stages hstage
    obtain ⟨e, henum⟩ := exists_enum?_eq_some hdeclared (of_mem_turns hturn).1
    obtain ⟨changed, hchanged, hkept, hown, hothers⟩ :=
      exists_turn_isSettled hregistry (hextends _ hturn) henum (hfair stage hstage)
    refine ⟨changed, hchanged, hkept.trans hdeclared, fun t ht => ?_⟩
    rcases List.mem_cons.1 ht with rfl | ht
    · exact ⟨hextends _ hturn, hown⟩
    · exact ⟨(hsettled t ht).1, hothers t ht (hsettled t ht).1 (hsettled t ht).2⟩
  obtain ⟨changed, hchanged, hdeclared, hsettled⟩ :=
    exists_foldlM_turn hstep ⟨rfl, fun t ht => absurd ht List.not_mem_nil⟩
  refine ⟨changed, by rw [value_applyOperations, hchanged], ?_⟩
  rw [value_applyOperations, turns_congr hdeclared]
  exact foldlM_turn_of_isSettled hregistry hextends fun t ht =>
    (hsettled t (List.mem_append_left _ (List.mem_reverse.2 ht))).2

theorem exists_applyOperations_stable_twoEnums :
    ∃ changed, (({} : Generator).applyOperations twoEnums [.exactly .getters] none).run.value =
        .ok changed ∧
      (({} : Generator).applyOperations changed [.exactly .getters] none).run.value = .ok changed := by
  have hfind := @find_eq_ok {} rfl .getters
  have hknown : ∀ request ∈ [Request.exactly .getters],
      ∃ spec, ({} : Generator).find request = .ok spec := by
    intro request hmem
    rw [List.mem_singleton.1 hmem]
    exact ⟨_, hfind⟩
  have hdollar : ∀ request ∈ [Request.exactly .getters], ∀ suffix,
      ({} : Generator).suffix request = .ok suffix → '$' ∉ suffix.display := by
    intro request hmem suffix hsuffix
    rw [List.mem_singleton.1 hmem, Generator.suffix, hfind] at hsuffix
    obtain rfl := Except.ok.inj hsuffix
    decide
  exact exists_applyOperations_stable rfl rfl hknown hdollar (by decide +kernel)

/-- An enum with a class without a body behind it. -/
def classBehind : Text := "enum A \x7ba\x7d class AX\n".toList

/-- A mention of a block that has no braces of its own takes those of the block
    that is put in behind it, so that the second run is no repetition. -/
theorem applyOperations_unstable_classBehind :
    ∃ changed ∈ (({} : Generator).applyOperations classBehind [.exactly .extension]
        none).run.value.toOption,
      ∃ again ∈ (({} : Generator).applyOperations changed [.exactly .extension]
          none).run.value.toOption, again ≠ changed := by
  decide +kernel

end Generator

end EnumCompanion
