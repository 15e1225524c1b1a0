import EnumCompanion.Operation.Defaults
import Mathlib.Data.List.Nodup
import Mathlib.Tactic.Common

/-!
# Histories of a registry

A registry is changed by *calls*, and a call is performed in steps: names are
checked one after the other, then the spec is entered, then name after name. A
fault ends the steps, and what was done before it stays done. Since all checks
come before the first change, a call that is refused changes nothing.

What a registry is after any calls is `Registry.IsSound`: both tables have one
entry for a key, names stand for operations that are registered, and those are
found under their own name and that of their routine. One call preserves it, and
so do all calls one after the other.

* `Registry.Call.perform`: a call in steps;
* `Registry.run_register`: its steps come to what `Registry.register` says;
* `Registry.IsSound.register`, `Registry.IsSound.unregister`: what one call
  preserves;
* `Registry.afterCalls_answers`: what is true of all requests after any calls.
-/

namespace EnumCompanion

open Text

namespace Registry

variable {registry : Registry} {operation : Operation} {spec : Spec} {name : Text}

/-! ### Calls -/

/-- A call that changes a registry. -/
inductive Call where
  /-- A spec is registered. -/
  | register (spec : Spec) (aliases : List Text) (replace : Bool)
  /-- An operation is removed. -/
  | unregister (operation : Operation)

/-- Steps on a registry, of which one may fail. What was done before it stays
    done. -/
abbrev Steps := EStateM Fault Registry

/-- A name is checked: it may stand for no other operation. -/
def checkName (operation : Operation) (name : Text) : Steps Unit := do
  match (← get).owner? (key name) with
  | some owner => if owner = operation then return () else throw (.taken name owner)
  | none => return ()

/-- A spec is entered in place of the one of its operation. -/
def writeSpec (spec : Spec) : Steps Unit :=
  modify fun registry => { registry with
    specs := spec :: registry.specs.filter fun other => other.operation ≠ spec.operation }

/-- A name is entered. -/
def writeName (operation : Operation) (name : Text) : Steps Unit :=
  modify fun registry => { registry with names := assign operation registry.names (key name) }

/-- A call in steps. -/
def Call.perform : Call → Steps Unit
  | register spec aliases replace => do
    if ((← get).spec? spec.operation).isSome && !replace then return ()
    forM (namesOf spec aliases) (checkName spec.operation)
    writeSpec spec
    forM (namesOf spec aliases) (writeName spec.operation)
  | unregister operation => modify (·.unregister operation)

/-- The registry that a call leaves behind, be it met or refused. -/
def afterCall (registry : Registry) (call : Call) : Registry :=
  match call.perform.run registry with
  | .ok _ changed => changed
  | .error _ changed => changed

/-- The registry after calls. -/
def afterCalls (registry : Registry) (calls : List Call) : Registry :=
  calls.foldl afterCall registry

theorem run_checkNames (registry : Registry) (operation : Operation) (names : List Text) :
    (forM names (checkName operation)).run registry =
      match registry.conflict? operation names with
      | some (name, owner) => .error (.taken name owner) registry
      | none => .ok () registry := by
  induction names with
  | nil => rfl
  | cons name names ih =>
    have hcheck : (checkName operation name).run registry =
        match registry.owner? (key name) with
        | some owner =>
          if owner = operation then .ok () registry else .error (.taken name owner) registry
        | none => .ok () registry := by
      simp only [checkName, EStateM.run_bind, EStateM.run_get]
      cases registry.owner? (key name) with
      | none => rfl
      | some owner => by_cases howner : owner = operation <;> simp [howner]
    rw [List.forM_cons, EStateM.run_bind, hcheck, conflict?, List.findSome?_cons]
    cases registry.owner? (key name) with
    | none => exact ih
    | some owner =>
      by_cases howner : owner = operation
      · simp only [howner, if_true, Option.bind_some]
        exact ih
      · simp [howner]

theorem run_writeNames (registry : Registry) (operation : Operation) (names : List Text) :
    (forM names (writeName operation)).run registry = .ok () { registry with
      names := (names.map key).foldl (assign operation) registry.names } := by
  induction names generalizing registry with
  | nil => rfl
  | cons name names ih =>
    rw [List.forM_cons, EStateM.run_bind, writeName, EStateM.run_modify]
    exact ih _

/-- The steps of a registration come to the registry that it makes; a fault
    comes before all changes. -/
theorem run_register (registry : Registry) (spec : Spec) (aliases : List Text) (replace : Bool) :
    (Call.register spec aliases replace).perform.run registry =
      match registry.register spec aliases replace with
      | .ok changed => .ok () changed
      | .error fault => .error fault registry := by
  simp only [Call.perform, EStateM.run_bind, EStateM.run_get, Registry.register]
  by_cases hskip : ((registry.spec? spec.operation).isSome && !replace) = true
  · simp [hskip]
  · simp only [hskip, Bool.false_eq_true, if_false, EStateM.run_bind, run_checkNames]
    cases registry.conflict? spec.operation (namesOf spec aliases) with
    | some conflict => rfl
    | none => simp [writeSpec, run_writeNames]

/-! ### Entries -/

/-- The entries of a table of names behind some that are assigned to one
    operation: these, and those of other keys. -/
theorem mem_foldl_assign {keys : List Text} {names : List (Text × Operation)}
    {entry : Text × Operation} : entry ∈ keys.foldl (assign operation) names ↔
      entry.1 ∈ keys ∧ entry.2 = operation ∨ entry.1 ∉ keys ∧ entry ∈ names := by
  induction keys generalizing names with
  | nil => simp
  | cons key keys ih =>
    rw [List.foldl_cons, ih]
    have hassign : entry ∈ assign operation names key ↔
        entry = (key, operation) ∨ entry ∈ names ∧ entry.1 ≠ key := by
      simp [assign]
    rw [hassign, List.mem_cons, Prod.ext_iff]
    tauto

theorem nodup_foldl_assign (keys : List Text) {names : List (Text × Operation)}
    (h : (names.map Prod.fst).Nodup) :
    ((keys.foldl (assign operation) names).map Prod.fst).Nodup := by
  induction keys generalizing names with
  | nil => exact h
  | cons key keys ih =>
    refine ih ?_
    rw [assign, List.map_cons, List.nodup_cons]
    refine ⟨fun hmem => ?_, h.sublist (List.filter_sublist.map _)⟩
    obtain ⟨entry, hentry, hkey⟩ := List.mem_map.1 hmem
    simpa [hkey] using (List.mem_filter.1 hentry).2

/-- Where no name is refused, those that are taken stand for the operation. -/
theorem conflict?_eq_none_iff {names : List Text} : registry.conflict? operation names = none ↔
    ∀ name ∈ names, ∀ owner, registry.owner? (key name) = some owner → owner = operation := by
  rw [conflict?, List.findSome?_eq_none_iff]
  refine forall₂_congr fun name _ => ?_
  cases registry.owner? (key name) with
  | none => simp
  | some owner => simp

/-! ### What calls preserve -/

/-- What is true of a registry at any time: its tables have one entry for a key,
    a name stands for an operation that is registered, and such an operation has
    its own name and that of its routine. -/
structure IsSound (registry : Registry) : Prop where
  nodup_specs : (registry.specs.map Spec.operation).Nodup
  nodup_names : (registry.names.map Prod.fst).Nodup
  registered : ∀ entry ∈ registry.names, ∃ spec ∈ registry.specs, spec.operation = entry.2
  named : ∀ spec ∈ registry.specs, ∀ name ∈ namesOf spec [],
    (key name, spec.operation) ∈ registry.names

namespace IsSound

theorem empty : IsSound .empty := ⟨List.nodup_nil, List.nodup_nil, nofun, nofun⟩

/-- The spec of an operation is the entry for it. -/
theorem spec?_eq_some_iff (h : registry.IsSound) :
    registry.spec? operation = some spec ↔ spec ∈ registry.specs ∧ spec.operation = operation := by
  constructor
  · exact fun hspec => ⟨List.mem_of_find?_eq_some hspec, by simpa using List.find?_some hspec⟩
  · rintro ⟨hmem, rfl⟩
    obtain ⟨found, hfound⟩ : ∃ found, registry.spec? spec.operation = some found :=
      Option.isSome_iff_exists.1 (List.find?_isSome.2 ⟨spec, hmem, by simp⟩)
    have hsame : found.operation = spec.operation := by simpa using List.find?_some hfound
    rw [hfound, List.inj_on_of_nodup_map h.nodup_specs (List.mem_of_find?_eq_some hfound) hmem
      hsame]

/-- What a key stands for is the entry for it. -/
theorem owner?_eq_some_iff (h : registry.IsSound) {key : Text} :
    registry.owner? key = some operation ↔ (key, operation) ∈ registry.names := by
  rw [owner?, Option.map_eq_some_iff]
  constructor
  · rintro ⟨entry, hentry, rfl⟩
    obtain rfl : entry.1 = key := by simpa using List.find?_some hentry
    exact List.mem_of_find?_eq_some hentry
  · intro hmem
    obtain ⟨found, hfound⟩ := Option.isSome_iff_exists.1
      (List.find?_isSome (p := fun entry => entry.1 == key) |>.2 ⟨(key, operation), hmem, by simp⟩)
    have hkey : found.1 = key := by simpa using List.find?_some hfound
    refine ⟨found, hfound, ?_⟩
    rw [List.inj_on_of_nodup_map h.nodup_names (List.mem_of_find?_eq_some hfound) hmem hkey]

/-- An operation with a name is registered. -/
theorem exists_spec? (h : registry.IsSound) {key : Text}
    (howner : registry.owner? key = some operation) :
    ∃ spec, registry.spec? operation = some spec ∧ spec.operation = operation := by
  obtain ⟨spec, hmem, hoperation⟩ := h.registered _ (h.owner?_eq_some_iff.1 howner)
  exact ⟨spec, h.spec?_eq_some_iff.2 ⟨hmem, hoperation⟩, hoperation⟩

theorem unregister (h : registry.IsSound) (operation : Operation) :
    (registry.unregister operation).IsSound where
  nodup_specs := h.nodup_specs.sublist (List.filter_sublist.map _)
  nodup_names := h.nodup_names.sublist (List.filter_sublist.map _)
  registered entry hentry := by
    obtain ⟨hmem, hother⟩ := List.mem_filter.1 hentry
    obtain ⟨spec, hspec, hoperation⟩ := h.registered entry hmem
    exact ⟨spec, List.mem_filter.2 ⟨hspec, hoperation ▸ hother⟩, hoperation⟩
  named spec hspec name hname := by
    obtain ⟨hmem, hother⟩ := List.mem_filter.1 hspec
    exact List.mem_filter.2 ⟨h.named spec hmem name hname, hother⟩

/-- A spec that is entered with its names, where none of them is refused. -/
theorem enter (h : registry.IsSound) {aliases : List Text}
    (hconflict : registry.conflict? spec.operation (namesOf spec aliases) = none) :
    IsSound {
      specs := spec :: registry.specs.filter fun other => other.operation ≠ spec.operation
      names := ((namesOf spec aliases).map key).foldl (assign spec.operation) registry.names } where
  nodup_specs := by
    rw [List.map_cons, List.nodup_cons]
    refine ⟨fun hmem => ?_, h.nodup_specs.sublist (List.filter_sublist.map _)⟩
    obtain ⟨other, hother, hsame⟩ := List.mem_map.1 hmem
    simpa [hsame] using (List.mem_filter.1 hother).2
  nodup_names := nodup_foldl_assign _ h.nodup_names
  registered entry hentry := by
    -- An entry stands for the operation of the spec, or for one whose spec stays.
    by_cases hown : entry.2 = spec.operation
    · exact ⟨spec, List.mem_cons_self, hown.symm⟩
    · obtain ⟨-, hentry⟩ := (mem_foldl_assign.1 hentry).resolve_left fun hnew => hown hnew.2
      obtain ⟨other, hother, hoperation⟩ := h.registered entry hentry
      have hstays : other.operation ≠ spec.operation := hoperation ▸ hown
      exact ⟨other, List.mem_cons_of_mem _ (List.mem_filter.2 ⟨hother, by simpa using hstays⟩),
        hoperation⟩
  named other hother name hname := by
    rcases List.mem_cons.1 hother with rfl | hother
    · exact mem_foldl_assign.2
        (.inl ⟨List.mem_map_of_mem (List.mem_append_left aliases hname), rfl⟩)
    · -- The names of other operations are not assigned, for that would be a conflict.
      obtain ⟨hother, hne⟩ := List.mem_filter.1 hother
      have hentry := h.named other hother name hname
      refine mem_foldl_assign.2 (.inr ⟨fun hmem => ?_, hentry⟩)
      obtain ⟨assigned, hassigned, hkey⟩ := List.mem_map.1 hmem
      have hsame : other.operation = spec.operation := conflict?_eq_none_iff.1 hconflict assigned
        hassigned _ (hkey ▸ h.owner?_eq_some_iff.2 hentry)
      exact absurd hsame (by simpa using hne)

theorem register (h : registry.IsSound) {aliases : List Text} {replace : Bool} {changed : Registry}
    (hregister : registry.register spec aliases replace = .ok changed) : changed.IsSound := by
  rw [Registry.register] at hregister
  split_ifs at hregister
  · obtain rfl := Except.ok.inj hregister
    exact h
  · cases hconflict : registry.conflict? spec.operation (namesOf spec aliases) with
    | some conflict =>
      rw [hconflict] at hregister
      cases hregister
    | none =>
      rw [hconflict] at hregister
      obtain rfl := Except.ok.inj hregister
      exact h.enter hconflict

/-- The built-in registry is sound. -/
theorem builtIn : IsSound .builtIn := by
  have hdefault : ∀ operations : List Operation, ∀ registry : Registry, registry.IsSound →
      (operations.foldl withDefault registry).IsSound := by
    intro operations
    induction operations with
    | nil => exact fun _ h => h
    | cons operation operations ih =>
      intro registry h
      refine ih _ ?_
      rw [withDefault]
      cases hregister : registry.register operation.defaultSpec operation.defaultAliases false with
      | ok changed => exact h.register hregister
      | error fault => exact h
  exact hdefault Operation.all .empty empty

/-- One call preserves soundness. -/
theorem afterCall (h : registry.IsSound) (call : Call) : (registry.afterCall call).IsSound := by
  cases call with
  | register spec aliases replace =>
    rw [Registry.afterCall, run_register]
    cases hregister : registry.register spec aliases replace with
    | ok changed => exact h.register hregister
    | error fault => exact h
  | unregister operation => exact h.unregister operation

/-- So do all calls, one after the other. -/
theorem afterCalls (h : registry.IsSound) (calls : List Call) :
    (registry.afterCalls calls).IsSound := by
  induction calls generalizing registry with
  | nil => exact h
  | cons call calls ih => exact ih (h.afterCall call)

end IsSound

/-- The registries that calls make of the empty one and of the one that is built in,
    refused calls among them. -/
def IsReachable (registry : Registry) : Prop :=
  ∃ start calls, (start = .empty ∨ start = .builtIn) ∧ registry = afterCalls start calls

theorem IsReachable.isSound (h : registry.IsReachable) : registry.IsSound := by
  obtain ⟨start, calls, rfl | rfl, rfl⟩ := h
  exacts [IsSound.empty.afterCalls calls, IsSound.builtIn.afterCalls calls]

/-! ### Requests -/

/-- How a registry answers: every entry of its names leads to a spec, every
    operation that is registered is found by its own name and that of its routine,
    a name is supported if and only if it is resolved, what is resolved has a spec
    of that operation, and a registration that is refused or passed over leaves all
    as it is. -/
structure Answers (registry : Registry) : Prop where
  registered : ∀ entry ∈ registry.names, (registry.spec? entry.2).isSome
  found : ∀ operation spec, registry.spec? operation = some spec →
    ∀ name ∈ [operation.name, spec.routine],
      registry.resolve (.named name.toList) = .ok operation
  supports_iff : ∀ name, registry.supports name = true ↔
    ∃ operation, registry.resolve (.named name) = .ok operation
  find_of_resolve : ∀ request operation, registry.resolve request = .ok operation →
    ∃ spec, registry.find request = .ok spec ∧ spec.operation = operation
  refused : ∀ spec aliases replace fault changed,
    (Call.register spec aliases replace).perform.run registry = .error fault changed →
      changed = registry
  skipped : ∀ spec aliases, (registry.spec? spec.operation).isSome →
    (Call.register spec aliases false).perform.run registry = .ok () registry

theorem resolve_named_eq_ok_iff : registry.resolve (.named name) = .ok operation ↔
    registry.owner? (key name) = some operation := by
  rw [resolve]
  cases registry.owner? (key name) with
  | none => simp
  | some owner => simp

theorem IsSound.answers (h : registry.IsSound) : registry.Answers where
  registered entry hentry := by
    obtain ⟨spec, hspec, -⟩ := h.exists_spec? (h.owner?_eq_some_iff.2 hentry)
    exact Option.isSome_of_eq_some hspec
  found operation spec hspec name hname := by
    obtain ⟨hmem, rfl⟩ := h.spec?_eq_some_iff.1 hspec
    exact resolve_named_eq_ok_iff.2 (h.owner?_eq_some_iff.2
      (h.named spec hmem _ (List.mem_map_of_mem hname)))
  supports_iff name := by
    rw [supports, Option.isSome_iff_exists]
    exact exists_congr fun operation => resolve_named_eq_ok_iff.symm
  find_of_resolve request operation hresolve := by
    obtain ⟨spec, hspec, hoperation⟩ : ∃ spec, registry.spec? operation = some spec ∧
        spec.operation = operation := by
      cases request with
      | named name => exact h.exists_spec? (resolve_named_eq_ok_iff.1 hresolve)
      | exactly asked =>
        rw [resolve] at hresolve
        split_ifs at hresolve with hsome
        obtain rfl := Except.ok.inj hresolve
        obtain ⟨spec, hspec⟩ := Option.isSome_iff_exists.1 hsome
        exact ⟨spec, hspec, (h.spec?_eq_some_iff.1 hspec).2⟩
    refine ⟨spec, ?_, hoperation⟩
    simp only [find, hresolve, bind, Except.bind, hspec]
  refused spec aliases replace fault changed hrun := by
    rw [run_register] at hrun
    cases hregister : registry.register spec aliases replace with
    | ok _ =>
      rw [hregister] at hrun
      cases hrun
    | error _ =>
      rw [hregister] at hrun
      cases hrun
      rfl
  skipped spec aliases hsome := by
    rw [run_register, Registry.register, hsome]
    rfl

/-- After any calls, refused ones among them, a registry that was empty or built
    in answers consistently. -/
theorem afterCalls_answers {start : Registry} (hstart : start = .empty ∨ start = .builtIn)
    (calls : List Call) : (start.afterCalls calls).Answers := by
  have hsound : start.IsSound := by
    rcases hstart with rfl | rfl
    exacts [.empty, .builtIn]
  exact (hsound.afterCalls calls).answers

/-- Calls that give one operation another routine and one more name, claim that
    name for a second operation in vain, and remove a third. -/
def renamingCalls : List Call :=
  [.register { Operation.when.defaultSpec with routine := "dispatch" } ["Do it".toList] true,
    .register Operation.map.defaultSpec ["DO-IT".toList] true,
    .unregister .getters]

theorem afterCalls_answers_renaming :
    (Registry.builtIn = .empty ∨ Registry.builtIn = .builtIn) ∧
      (Registry.builtIn.afterCalls renamingCalls).Answers ∧
      (Registry.builtIn.afterCalls renamingCalls).resolve (.named "doIt()".toList) = .ok .when :=
  ⟨.inr rfl, afterCalls_answers (.inr rfl) renamingCalls, by decide +kernel⟩

end Registry

end EnumCompanion
