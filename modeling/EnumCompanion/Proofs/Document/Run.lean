import EnumCompanion.Proofs.Document.Effect
import EnumCompanion.Proofs.Document.Enums

/-!
# Runs

A *run* of operations on a document is a chain of *turns*, each of which finds
the first enum of a name in what the turns before it left and puts one operation
for it into the text. What a turn does is told by its edit; where the edit spares
the enums, it puts the block of the operation into a sound site.

* `Generator.turn`, `Generator.turns`: one turn, and those of a run;
* `Generator.value_applyOperations`: a run is the chain of its turns;
* `Generator.stages`: the texts that the turns of a run find;
* `Generator.exists_foldlM_turn`: what every turn keeps is kept by the run;
* `Generator.exists_applyOperations_eq_ok`: a run whose edits spare the enums
  keeps them, and so does `Generator.exists_applyOperations_declared` in the
  default settings.
-/

namespace EnumCompanion

open Journal Text Mask Block

/-- A turn of a run: an operation for the enum of a name. -/
structure Turn where
  /-- The name of the enum. -/
  name : Text
  /-- What is asked for. -/
  request : Request
  deriving DecidableEq

/-- A stage of a run: what the turns before it left, and the turn that is next. -/
structure Stage where
  /-- The turns before, the last one in front. -/
  done : List Turn
  /-- The text. -/
  text : Text
  /-- The turn. -/
  turn : Turn

namespace Generator

variable (generator : Generator)

/-! ### Turns -/

/-- The first enum of a name in a text. -/
def enum? (text name : Text) : Option Enumeration :=
  (parseAll text generator.settings.allowRepeats.isTruthy).find? fun e => e.name == name

/-- A text after a turn. -/
def turn (text : Text) (turn : Turn) : Except Document.Fault Text :=
  (generator.applyToEnum turn.name text [turn.request]).run.value

/-- The turns of a run: for each enum that is chosen, all operations in order. -/
def turns (text : Text) (requests : List Request) (only : Option (List Text)) : List Turn :=
  (((parseAll text generator.settings.allowRepeats.isTruthy).map Enumeration.name).filter
    fun name => only.all fun given => given.contains name).flatMap fun name => requests.map (Turn.mk name)

/-- The edit of a turn, if it has one. -/
def edit? (text : Text) (turn : Turn) : Option Edit :=
  (generator.enum? text turn.name).bind fun e => generator.actionEdit? text e turn.request

/-- The stages of a run of turns on a text, behind turns that are done. -/
def stages (done : List Turn) (text : Text) : List Turn → List Stage
  | [] => []
  | turn :: rest => ⟨done, text, turn⟩ ::
      match generator.turn text turn with
      | .ok changed => stages (turn :: done) changed rest
      | .error _ => []

variable {generator} {text : Text} {t : Turn} {e : Enumeration}

/-- An operation for an enum and those after it. -/
theorem value_applyToEnum_cons (name : Text) (request : Request) (rest : List Request) (text : Text) :
    (generator.applyToEnum name text (request :: rest)).run.value =
      match generator.enum? text name with
      | none => .ok text
      | some e =>
        (generator.action text e request).run.value.mapError Document.Fault.generator >>= fun action =>
          (applyEdits text action.edits).mapError Document.Fault.edit >>= fun changed =>
            (generator.applyToEnum name changed rest).run.value := by
  have hfind : ((parseAll text generator.settings.allowRepeats.isTruthy).find?
      fun e => e.name == name) = generator.enum? text name := rfl
  rw [applyToEnum, Logged.value_run_bind, Logged.value_run_lift, ok_bind, enumsOf,
    value_parseAllLogged, hfind]
  cases generator.enum? text name with
  | none => rfl
  | some e =>
    dsimp only
    rw [Logged.value_run_bind, Logged.value_run_adapt]
    refine bind_congr fun action => ?_
    rw [Logged.value_run_bind, Logged.value_run_bind, Logged.value_run_liftM]
    rfl

theorem turn_of_action {action : Action} (h : generator.enum? text t.name = some e)
    (haction : (generator.action text e t.request).run.value = .ok action) :
    generator.turn text t = (applyEdits text action.edits).mapError .edit := by
  rw [turn, value_applyToEnum_cons, h]
  dsimp only
  rw [haction, Except.mapError, ok_bind]
  generalize applyEdits text action.edits = outcome
  cases outcome <;> rfl

/-- A run for one enum is the chain of its turns. -/
theorem value_applyToEnum (name : Text) (requests : List Request) (text : Text) :
    (generator.applyToEnum name text requests).run.value =
      (requests.map (Turn.mk name)).foldlM generator.turn text := by
  induction requests generalizing text with
  | nil => rfl
  | cons request requests ih =>
    rw [List.map_cons, List.foldlM_cons, turn, value_applyToEnum_cons, value_applyToEnum_cons]
    cases henum : generator.enum? text name with
    | none =>
      -- Without the enum the rest of the turns find none either.
      dsimp only
      rw [ok_bind, ← ih]
      cases requests with
      | nil => rfl
      | cons request requests =>
        rw [value_applyToEnum_cons, henum]
    | some e =>
      dsimp only
      rw [bind_assoc]
      refine bind_congr fun action => ?_
      rw [bind_assoc]
      refine bind_congr fun changed => ?_
      exact ih changed

/-- A run is the chain of its turns. -/
theorem value_applyOperations (text : Text) (requests : List Request) (only : Option (List Text)) :
    (generator.applyOperations text requests only).run.value =
      (generator.turns text requests only).foldlM generator.turn text := by
  rw [applyOperations, Logged.value_run_bind, Logged.value_run_lift, ok_bind, enumsOf,
    value_parseAllLogged, turns]
  dsimp only
  generalize List.filter _ _ = names
  induction names generalizing text with
  | nil => rfl
  | cons name names ih =>
    rw [List.foldlM_cons, Logged.value_run_bind, value_applyToEnum, List.flatMap_cons,
      List.foldlM_append]
    exact bind_congr fun changed => ih changed

/-! ### Runs -/

/-- What every turn of a run keeps is kept by the run. -/
theorem exists_foldlM_turn {P : List Turn → Text → Prop} {done turns : List Turn}
    (hstep : ∀ stage ∈ generator.stages done text turns, P stage.done stage.text →
      ∃ changed, generator.turn stage.text stage.turn = .ok changed ∧
        P (stage.turn :: stage.done) changed) (h : P done text) :
    ∃ changed, turns.foldlM generator.turn text = .ok changed ∧ P (turns.reverse ++ done) changed := by
  induction turns generalizing done text with
  | nil => exact ⟨text, rfl, h⟩
  | cons turn turns ih =>
    rw [stages] at hstep
    obtain ⟨changed, hturn, hchanged⟩ := hstep ⟨done, text, turn⟩ List.mem_cons_self h
    dsimp only at hturn
    rw [hturn] at hstep
    obtain ⟨final, hfinal, hP⟩ := ih (fun stage hstage => hstep stage (List.mem_cons_of_mem _ hstage))
      hchanged
    refine ⟨final, ?_, ?_⟩
    · rw [List.foldlM_cons, hturn, ok_bind, hfinal]
    · rwa [List.reverse_cons, List.append_assoc]

theorem turn_mem_of_mem_stages {done turns : List Turn} {stage : Stage}
    (h : stage ∈ generator.stages done text turns) : stage.turn ∈ turns := by
  induction turns generalizing done text with
  | nil => exact absurd h List.not_mem_nil
  | cons turn turns ih =>
    rw [stages] at h
    rcases List.mem_cons.1 h with rfl | h
    · exact List.mem_cons_self
    · split at h
      · exact List.mem_cons_of_mem _ (ih h)
      · exact absurd h List.not_mem_nil

variable {requests : List Request} {only : Option (List Text)}

/-- A turn is for an enum of the text, and for one of the operations. -/
theorem of_mem_turns (h : t ∈ generator.turns text requests only) :
    (∃ e ∈ parseAll text generator.settings.allowRepeats.isTruthy, e.name = t.name) ∧
      t.request ∈ requests := by
  obtain ⟨name, hname, hturn⟩ := List.mem_flatMap.1 h
  obtain ⟨request, hrequest, rfl⟩ := List.mem_map.1 hturn
  obtain ⟨hmem, -⟩ := List.mem_filter.1 hname
  exact ⟨List.mem_map.1 hmem, hrequest⟩

/-- An enum of a name is found where the same enums are declared. -/
theorem exists_enum?_eq_some {text' name : Text}
    (hdeclared : (parseAll text' generator.settings.allowRepeats.isTruthy).map Enumeration.declared =
      (parseAll text generator.settings.allowRepeats.isTruthy).map Enumeration.declared)
    (h : ∃ e ∈ parseAll text generator.settings.allowRepeats.isTruthy, e.name = name) :
    ∃ e, generator.enum? text' name = some e := by
  obtain ⟨e, hmem, rfl⟩ := h
  have hmem' : e.declared ∈ (parseAll text generator.settings.allowRepeats.isTruthy).map
      Enumeration.declared := List.mem_map_of_mem hmem
  rw [← hdeclared] at hmem'
  obtain ⟨e', he', heq⟩ := List.mem_map.1 hmem'
  refine Option.isSome_iff_exists.1 (List.find?_isSome.2 ⟨e', he', ?_⟩)
  exact beq_iff_eq.2 (congrArg Prod.fst heq)

/-- A turn whose edit spares the enums keeps what they declare. -/
theorem exists_turn_map_declared_eq (hregistry : generator.registry = .builtIn)
    (hextends : generator.Extends t.request) (henum : generator.enum? text t.name = some e)
    (hspares : ∀ edit ∈ generator.edit? text t, edit.Spares text) :
    ∃ changed, generator.turn text t = .ok changed ∧
      (parseAll changed generator.settings.allowRepeats.isTruthy).map Enumeration.declared =
        (parseAll text generator.settings.allowRepeats.isTruthy).map Enumeration.declared := by
  obtain ⟨container, inner, hmakes⟩ := exists_makes hregistry hextends.exists_find e
  rw [edit?, henum, Option.bind_some] at hspares
  obtain ⟨action, edit, site, haction, -, hhosts, hchanged⟩ :=
    hmakes.exists_changed hregistry hextends hspares
  obtain rfl := hhosts.text_eq
  have hkeeps := Site.forall₂_keeps (hextends.isTypeName hmakes.containerName) e.isTypeName_name
    hmakes.tame hhosts.isSound hhosts.apart generator.settings.allowRepeats.isTruthy
  refine ⟨_, ?_, Site.map_declared_of_forall₂ hkeeps⟩
  rw [turn_of_action henum haction, hchanged]
  rfl

/-- A run whose edits spare the enums ends well, and keeps what they declare. -/
theorem exists_applyOperations_eq_ok (hregistry : generator.registry = .builtIn)
    (hextends : ∀ request ∈ requests, generator.Extends request)
    (hspares : ∀ stage ∈ generator.stages [] text (generator.turns text requests only),
      ∀ edit ∈ generator.edit? stage.text stage.turn, edit.Spares stage.text) :
    ∃ changed, (generator.applyOperations text requests only).run.value = .ok changed ∧
      (parseAll changed generator.settings.allowRepeats.isTruthy).map Enumeration.declared =
        (parseAll text generator.settings.allowRepeats.isTruthy).map Enumeration.declared := by
  rw [value_applyOperations]
  -- Every turn finds its enum, as the turns before it keep them all.
  let P : List Turn → Text → Prop := fun _ text' =>
    (parseAll text' generator.settings.allowRepeats.isTruthy).map Enumeration.declared =
      (parseAll text generator.settings.allowRepeats.isTruthy).map Enumeration.declared
  refine @exists_foldlM_turn _ _ P [] _ (fun stage hstage hdeclared => ?_) rfl
  obtain ⟨hname, hrequest⟩ := of_mem_turns (turn_mem_of_mem_stages hstage)
  obtain ⟨e, henum⟩ := exists_enum?_eq_some hdeclared hname
  obtain ⟨changed, hturn, hchanged⟩ := exists_turn_map_declared_eq hregistry (hextends _ hrequest)
    henum (hspares stage hstage)
  exact ⟨changed, hturn, hchanged.trans hdeclared⟩

/-- In the default settings, a run of known operations whose edits spare the
    enums ends well, and keeps what they declare. -/
theorem exists_applyOperations_declared
    (hknown : ∀ request ∈ requests, ∃ spec, ({} : Generator).find request = .ok spec)
    (hspares : ∀ stage ∈ ({} : Generator).stages [] text (({} : Generator).turns text requests only),
      ∀ edit ∈ ({} : Generator).edit? stage.text stage.turn, edit.Spares stage.text) :
    ∃ changed, (({} : Generator).applyOperations text requests only).run.value = .ok changed ∧
      (parseAll changed false).map Enumeration.declared =
        (parseAll text false).map Enumeration.declared :=
  exists_applyOperations_eq_ok rfl (fun request hmem => extends_default (hknown request hmem)) hspares

/-- Two enums on lines of their own. -/
def twoEnums : Text := "enum A \x7ba\x7d\nenum B \x7bb\x7d\n".toList

theorem exists_applyOperations_declared_twoEnums :
    ∃ changed, (({} : Generator).applyOperations twoEnums [.exactly .getters] none).run.value =
        .ok changed ∧
      (parseAll changed false).map Enumeration.declared =
        (parseAll twoEnums false).map Enumeration.declared := by
  have hknown : ∀ request ∈ [Request.exactly .getters],
      ∃ spec, ({} : Generator).find request = .ok spec := by
    intro request hmem
    rw [List.mem_singleton.1 hmem]
    exact ⟨_, find_eq_ok rfl .getters⟩
  exact exists_applyOperations_declared hknown (by decide +kernel)

/-- An enum that starts on the line on which another one ends. -/
def startsOnLine : Text := "enum A \x7ba\x7d enum B \x7b\n b \x7d\n".toList

/-- The edit for an enum may land in the next one, which is lost then. -/
theorem declared_lost_startsOnLine :
    (parseAll startsOnLine false).map Enumeration.name = ["A".toList, "B".toList] ∧
      ∃ changed ∈ (({} : Generator).applyOperations startsOnLine [.exactly .getters]
          none).run.value.toOption,
        (parseAll changed false).map Enumeration.name = ["A".toList] := by
  decide +kernel

end Generator

end EnumCompanion
