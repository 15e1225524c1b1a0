import EnumCompanion.Code.Generator
import EnumCompanion.Proofs.Journal
import EnumCompanion.Proofs.Operation.Replacement

/-!
# Nested calls for code

The routine for extensions calls for the code of its members, and which routine
answers such a call is up to the registry. Were it the routine for extensions
again, there would be no end to the calls. Here they are followed to a limit: a
*descent* has an outcome if no call is nested deeper, and tells which routines
were entered.

The registry keeps this from happening for as long as the name of that routine
stands for an operation that is no member of a bundle, since no other operation
can have a routine of the same name.

* `Descent`, `Generator.descend`: calls that are nested to a limit;
* `Generator.IsCyclic`: a bundle has a bundle among its members, and those before it
  are written;
* `Generator.exists_descend_eq`, `Generator.descend_of_isCyclic`: two levels of calls
  are enough, or no number of them is;
* `Generator.descend_ends`: which of these is the case for the registries that calls
  make.
-/

namespace EnumCompanion

open Journal Text

/-! ### Descents -/

/-- What is known of a computation that nests calls to a limit. -/
structure Descent (α : Type) where
  /-- What it comes to, unless a call was nested too deep. -/
  outcome : Option (Except Generator.Fault α)
  /-- The routines that were entered, in order. -/
  entered : List Operation

namespace Descent

variable {α β γ : Type}

instance : Monad Descent where
  pure value := ⟨some (.ok value), []⟩
  bind descent next := match descent.outcome with
    | some (.ok value) => ⟨(next value).outcome, descent.entered ++ (next value).entered⟩
    | some (.error fault) => ⟨some (.error fault), descent.entered⟩
    | none => ⟨none, descent.entered⟩

/-- A result that takes no calls. -/
def of (result : Except Generator.Fault α) : Descent α := ⟨some result, []⟩

/-- A routine is entered. -/
def enter (routine : Operation) : Descent Unit := ⟨some (.ok ()), [routine]⟩

/-- A call is nested too deep. -/
def tooDeep : Descent α := ⟨none, []⟩

theorem bind_ok {value : α} {entered : List Operation} {next : α → Descent β} :
    (⟨some (.ok value), entered⟩ : Descent α) >>= next =
      ⟨(next value).outcome, entered ++ (next value).entered⟩ := rfl

instance : LawfulMonad Descent :=
  LawfulMonad.mk' Descent
    (by rintro α ⟨_ | _ | _, entered⟩ <;> simp [Functor.map])
    (fun _ _ => rfl)
    (by
      rintro α β γ ⟨_ | _ | value, entered⟩ next last
      · rfl
      · rfl
      · cases h : (next value).outcome with
        | none => simp [bind, h]
        | some result => cases result <;> simp [bind, h])

end Descent

namespace Generator

variable {generator : Generator} {e : Enumeration} {request : Request}

/-- The bundle of members that are written. -/
def assemble (generator : Generator) (e : Enumeration) (members : List Text) :
    Except Fault Text := do
  generator.extensionText (← generator.containerName e (.exactly .extension)) e members

/-- The code of the operation that a request asks for, where calls for code are nested
    to a limit. A routine for extensions calls for the code of each member. -/
def descend (generator : Generator) (e : Enumeration) : Nat → Request → Descent Text
  | 0, _ => .tooDeep
  | limit + 1, request => do
    let (_, routine) ← Descent.of (generator.routine request)
    Descent.enter routine
    if routine = .extension then
      let members ← bundled.mapM fun member => generator.descend e limit (.exactly member)
      Descent.of (generator.assemble e members)
    else Descent.of (generator.member e routine)

/-! ### One call -/

/-- Whether a request is met by the routine for extensions. -/
def IsBundle (generator : Generator) (request : Request) : Prop :=
  ∃ operation, generator.routine request = .ok (operation, .extension)

/-- What a request comes to as a member of a bundle. -/
def code (generator : Generator) (e : Enumeration) (request : Request) : Except Fault Text := do
  let (_, routine) ← generator.routine request
  if routine = .extension then .error .endless else generator.member e routine

/-- A request is met by no routine, by one for a member, or by that for extensions. -/
theorem routine_cases (generator : Generator) (request : Request) :
    (∃ fault, generator.routine request = .error fault) ∨
      (∃ operation routine, generator.routine request = .ok (operation, routine) ∧
        routine ≠ .extension) ∨ generator.IsBundle request := by
  cases h : generator.routine request with
  | error fault => exact .inl ⟨fault, rfl⟩
  | ok found =>
    obtain ⟨operation, routine⟩ := found
    by_cases hroutine : routine = .extension
    · exact .inr (.inr ⟨operation, hroutine ▸ h⟩)
    · exact .inr (.inl ⟨operation, routine, rfl, hroutine⟩)

theorem value_bundleMember (member : Operation) :
    (generator.bundleMember e member).run.value = generator.code e (.exactly member) := by
  rw [bundleMember, code]
  cases generator.routine (.exactly member) with
  | error fault => rfl
  | ok found =>
    obtain ⟨operation, routine⟩ := found
    by_cases h : routine = .extension <;> simp [h]

/-- A bundle is assembled from what its members come to. -/
theorem value_generate_of_isBundle (h : generator.IsBundle request) :
    (generator.generate e request).run.value =
      (bundled.mapM fun member => generator.code e (.exactly member)) >>=
        generator.assemble e := by
  obtain ⟨operation, hroutine⟩ := h
  simp only [generate, hroutine, bundle, Logged.value_run_bind, Logged.value_run_liftM,
    Logged.value_run_lift, Logged.value_run_mapM, value_bundleMember, ok_bind, if_true]
  rfl

theorem value_generate_of_not_isBundle (h : ¬generator.IsBundle request) :
    (generator.generate e request).run.value = generator.code e request := by
  obtain ⟨fault, hroutine⟩ | ⟨operation, routine, hroutine, hne⟩ | hbundle :=
    generator.routine_cases request
  · rw [generate, code, hroutine]
    rfl
  · simp [generate, code, hroutine, hne]
  · exact absurd hbundle h

/-! ### Results -/

/-- The faults that are declared: all but that of calls without an end. -/
def Fault.IsDeclared : Fault → Prop
  | endless => False
  | _ => True

/-- A result that is a value or a declared fault. -/
def Ends {α : Type} (result : Except Fault α) : Prop := EndsWell Fault.IsDeclared (fun _ => True) result

theorem ends_iff {α : Type} {result : Except Fault α} : Ends result ↔ result ≠ .error .endless := by
  rcases result with (_ | _ | _ | _) | value <;> simp [Ends, EndsWell, Fault.IsDeclared]

theorem Ends.bind {α β : Type} {first : Except Fault α} {next : α → Except Fault β}
    (h : Ends first) (hnext : ∀ a, Ends (next a)) : Ends (first >>= next) := by
  cases first with
  | error fault => exact h
  | ok a => exact hnext a

theorem ends_mapError {ε α : Type} {f : ε → Fault} (hf : ∀ fault, (f fault).IsDeclared)
    (result : Except ε α) : Ends (result.mapError f) := by
  cases result with
  | error fault => exact hf fault
  | ok a => trivial

theorem ends_find (generator : Generator) (request : Request) : Ends (generator.find request) :=
  ends_mapError (f := .registry) (fun _ => trivial) _

theorem ends_render (generator : Generator) (operation : Operation) (context : Context) :
    Ends (generator.render operation context) :=
  (generator.ends_find _).bind fun _ =>
    (ends_mapError (f := .template) (fun _ => trivial) _).bind fun _ => trivial

theorem ends_routine (generator : Generator) (request : Request) :
    Ends (generator.routine request) := by
  refine (generator.ends_find request).bind fun spec => ?_
  split <;> trivial

theorem ends_assemble (generator : Generator) (e : Enumeration) (members : List Text) :
    Ends (generator.assemble e members) := by
  have hsuffix : Ends (generator.suffix (.exactly .extension)) := by
    refine (generator.ends_find _).bind fun spec => ?_
    dsimp only
    split_ifs <;> trivial
  have hname : Ends (generator.containerName e (.exactly .extension)) :=
    hsuffix.bind fun _ => trivial
  exact hname.bind fun _ => generator.ends_render _ _

/-- A member that is no bundle ends. -/
theorem ends_code_iff : Ends (generator.code e request) ↔ ¬generator.IsBundle request := by
  constructor
  · rintro h ⟨operation, hroutine⟩
    rw [code, hroutine] at h
    exact h
  · intro h
    obtain ⟨fault, hroutine⟩ | ⟨operation, routine, hroutine, hne⟩ | hbundle :=
      generator.routine_cases request
    · have hends := generator.ends_routine request
      rw [hroutine] at hends
      rw [code, hroutine]
      exact hends
    · rw [code, hroutine, ok_bind]
      simp only [hne, if_false]
      exact generator.ends_render _ _
    · exact absurd hbundle h

/-! ### Two levels of calls -/

/-- A request that is no bundle takes one call, and enters one routine at most. -/
theorem exists_descend_of_not_isBundle (h : ¬generator.IsBundle request) (limit : Nat) :
    ∃ entered, generator.descend e (limit + 1) request = ⟨some (generator.code e request), entered⟩ ∧
      .extension ∉ entered ∧ entered.length ≤ 1 := by
  obtain ⟨fault, hroutine⟩ | ⟨operation, routine, hroutine, hne⟩ | hbundle :=
    generator.routine_cases request
  · refine ⟨[], ?_, List.not_mem_nil, Nat.zero_le 1⟩
    rw [descend, code, hroutine]
    rfl
  · refine ⟨[routine], ?_, by simpa using hne.symm, Nat.le_refl 1⟩
    rw [descend, code, hroutine, ok_bind, Descent.of, Descent.bind_ok]
    simp only [hne, if_false]
    rfl
  · exact absurd hbundle h

/-- A bundle enters its routine, and then calls for its members. -/
theorem descend_of_isBundle (h : generator.IsBundle request) (limit : Nat) :
    generator.descend e (limit + 1) request = Descent.enter .extension >>= fun _ =>
      (bundled.mapM fun member => generator.descend e limit (.exactly member)) >>= fun members =>
        Descent.of (generator.assemble e members) := by
  obtain ⟨operation, hroutine⟩ := h
  rw [descend, hroutine]
  rfl

/-- Calls for members that end, up to the first fault. -/
theorem exists_mapM_descend {members : List Operation}
    (h : Ends (members.mapM fun member => generator.code e (.exactly member))) (limit : Nat) :
    ∃ entered, (members.mapM fun member => generator.descend e (limit + 1) (.exactly member)) =
        ⟨some (members.mapM fun member => generator.code e (.exactly member)), entered⟩ ∧
      .extension ∉ entered ∧ entered.length ≤ members.length := by
  induction members with
  | nil => exact ⟨[], rfl, List.not_mem_nil, Nat.le_refl 0⟩
  | cons member members ih =>
    simp only [List.mapM_cons] at h ⊢
    by_cases hbundle : generator.IsBundle (.exactly member)
    · -- A bundle among them would be a fault that is not declared.
      obtain ⟨operation, hroutine⟩ := hbundle
      rw [code, hroutine] at h
      exact h.elim
    obtain ⟨entered, hdescend, hnot, hlength⟩ := exists_descend_of_not_isBundle hbundle limit
    rw [hdescend]
    cases hcode : generator.code e (.exactly member) with
    | error fault => exact ⟨entered, rfl, hnot, Nat.le_trans hlength (Nat.le_add_left ..)⟩
    | ok text =>
      rw [hcode, ok_bind] at h
      have hrest : Ends (members.mapM fun member => generator.code e (.exactly member)) := by
        rw [ends_iff] at h ⊢
        rintro hendless
        rw [hendless] at h
        exact h rfl
      obtain ⟨others, hothers, hnot', hlength'⟩ := ih hrest
      rw [Descent.bind_ok, hothers, ok_bind]
      refine ⟨entered ++ others, ?_, by simp [hnot, hnot'], ?_⟩
      · cases members.mapM fun member => generator.code e (.exactly member) with
        | error fault => rfl
        | ok texts => simp [Descent.bind_ok, pure, Except.pure]
      · rw [List.length_append, List.length_cons]
        omega

/-! ### Calls without an end -/

/-- Whether a bundle comes to a member that is a bundle again: the members before it
    are written. -/
def IsCyclic (generator : Generator) (e : Enumeration) : Prop :=
  ∃ before member behind, bundled = before ++ member :: behind ∧
    (∀ earlier ∈ before, ∃ text, generator.code e (.exactly earlier) = .ok text) ∧
      generator.IsBundle (.exactly member)

theorem code_eq_endless_iff :
    generator.code e request = .error .endless ↔ generator.IsBundle request := by
  rw [← not_iff_not, ← ends_code_iff (e := e), ends_iff]

/-- The members of a bundle come to an end unless one of them is a bundle again. -/
theorem ends_members_iff :
    Ends (bundled.mapM fun member => generator.code e (.exactly member)) ↔
      ¬generator.IsCyclic e := by
  rw [ends_iff, ne_eq, mapM_eq_error_iff, IsCyclic]
  simp only [code_eq_endless_iff]

/-- A bundle among its own members is entered on each level, and there is no end to
    it. -/
theorem descend_of_isCyclic (hcyclic : generator.IsCyclic e) (h : generator.IsBundle request)
    (limit : Nat) : (generator.descend e limit request).outcome = none ∧
      (generator.descend e limit request).entered.count .extension = limit := by
  obtain ⟨before, member, behind, hmembers, hbefore, hmember⟩ := hcyclic
  induction limit generalizing request with
  | zero => exact ⟨rfl, rfl⟩
  | succ limit ih =>
    rw [descend_of_isBundle h]
    cases limit with
    | zero => exact ⟨rfl, rfl⟩
    | succ limit =>
      obtain ⟨houtcome, hcount⟩ := ih hmember
      -- The members before it are written, and then it is called for.
      obtain ⟨texts, htexts⟩ := exists_mapM_eq_ok_iff.2 hbefore
      have hends : Ends (before.mapM fun earlier => generator.code e (.exactly earlier)) := by
        rw [htexts]
        trivial
      obtain ⟨entered, hentered, hnot, -⟩ := exists_mapM_descend hends limit
      have hcall : generator.descend e (limit + 1) (.exactly member) =
          ⟨none, (generator.descend e (limit + 1) (.exactly member)).entered⟩ := by
        rw [← houtcome]
      rw [hmembers, List.mapM_append, hentered, htexts, Descent.bind_ok, List.mapM_cons, hcall]
      refine ⟨rfl, ?_⟩
      change List.count .extension ([.extension] ++ (entered ++
        (generator.descend e (limit + 1) (.exactly member)).entered)) = _
      rw [List.singleton_append, List.count_cons_self, List.count_append,
        List.count_eq_zero.2 hnot, hcount, Nat.zero_add]

/-! ### Ends -/

/-- Two levels of calls are enough, unless a bundle is among its own members. -/
theorem exists_descend_eq (h : ¬(generator.IsBundle request ∧ generator.IsCyclic e))
    (limit : Nat) : ∃ outcome entered,
      generator.descend e (limit + 2) request = ⟨some outcome, entered⟩ ∧ Ends outcome ∧
        (generator.generate e request).run.value = outcome ∧ entered.length ≤ 5 ∧
          entered.count .extension ≤ 1 := by
  by_cases hbundle : generator.IsBundle request
  · have hends := ends_members_iff.2 fun hcyclic => h ⟨hbundle, hcyclic⟩
    obtain ⟨entered, hentered, hnot, hlength⟩ := exists_mapM_descend hends limit
    have hcount : (.extension :: entered).count .extension = 1 := by
      rw [List.count_cons_self, List.count_eq_zero.2 hnot]
    refine ⟨_, .extension :: entered, ?_, hends.bind (generator.ends_assemble e),
      value_generate_of_isBundle hbundle, Nat.succ_le_succ hlength,
      Nat.le_of_eq hcount⟩
    rw [descend_of_isBundle hbundle, hentered]
    cases bundled.mapM fun member => generator.code e (.exactly member) with
    | error fault => rfl
    | ok texts =>
      rw [Descent.enter, Descent.bind_ok, Descent.bind_ok, ok_bind, Descent.of, List.append_nil,
        List.singleton_append]
  · obtain ⟨entered, hentered, hnot, hlength⟩ :=
      exists_descend_of_not_isBundle (e := e) hbundle (limit + 1)
    exact ⟨_, entered, hentered, ends_code_iff.2 hbundle, value_generate_of_not_isBundle hbundle,
      Nat.le_trans hlength (by decide), by rw [List.count_eq_zero.2 hnot]; exact Nat.zero_le 1⟩

theorem value_generate_of_isCyclic (hcyclic : generator.IsCyclic e)
    (h : generator.IsBundle request) :
    (generator.generate e request).run.value = .error .endless := by
  have hmembers : ¬Ends (bundled.mapM fun member => generator.code e (.exactly member)) :=
    fun hends => ends_members_iff.1 hends hcyclic
  rw [ends_iff, not_not] at hmembers
  rw [value_generate_of_isBundle h, hmembers]
  rfl

/-! ### Registries -/

theorem spec?_of_find {registry : Registry} {operation : Operation} {spec : Spec}
    (h : registry.find (.exactly operation) = .ok spec) : registry.spec? operation = some spec := by
  cases hspec : registry.spec? operation with
  | none =>
    rw [Registry.find, Registry.resolve, hspec] at h
    cases h
  | some found =>
    rw [Registry.find, Registry.resolve, hspec, Option.isSome_some, if_pos rfl, ok_bind, hspec] at h
    rw [Except.ok.inj h]

/-- An operation that has the routine for extensions has its name. -/
theorem owner?_of_isBundle (hsound : generator.registry.IsSound) {member : Operation}
    (h : generator.IsBundle (.exactly member)) :
    generator.registry.owner? (Registry.key Operation.extension.routine.toList) = some member := by
  obtain ⟨operation, hroutine⟩ := h
  obtain ⟨spec, hfind, hspec⟩ := exists_of_bind_eq_ok hroutine
  have hentry := spec?_of_find (mapError_eq_ok_iff.1 hfind)
  have hname : spec.routine = Operation.extension.routine := by
    cases hof : Operation.ofRoutine? spec.routine with
    | none =>
      rw [hof] at hspec
      cases hspec
    | some routine =>
      rw [hof] at hspec
      cases hspec
      have hfound : Operation.extension.routine = spec.routine := by
        simpa using List.find?_some hof
      exact hfound.symm
  rw [← hname]
  exact Registry.resolve_named_eq_ok_iff.1
    (hsound.answers.found member spec hentry spec.routine (by simp))

theorem owner?_of_isCyclic (hsound : generator.registry.IsSound) (h : generator.IsCyclic e) :
    ∃ member ∈ bundled, generator.registry.owner?
      (Registry.key Operation.extension.routine.toList) = some member := by
  obtain ⟨before, member, behind, hmembers, -, hmember⟩ := h
  exact ⟨member, hmembers ▸ by simp, owner?_of_isBundle hsound hmember⟩

/-- The built-in operation for extensions keeps the name of its routine for as long as
    it is not removed, and no other operation has that routine. -/
theorem not_isCyclic_of_builtIn {calls : List Registry.Call}
    (hregistry : generator.registry = Registry.builtIn.afterCalls calls)
    (hcalls : .unregister .extension ∉ calls) : ¬generator.IsCyclic e := by
  intro hcyclic
  have hsound := Registry.IsSound.builtIn
  obtain ⟨member, hmember, howner⟩ :=
    owner?_of_isCyclic (hregistry ▸ hsound.afterCalls calls) hcyclic
  have hbuiltIn : Registry.builtIn.owner? (Registry.key Operation.extension.routine.toList) =
      some .extension := by decide +kernel
  rw [hregistry, hsound.owner?_afterCalls hcalls hbuiltIn] at howner
  obtain rfl := Option.some.inj howner
  exact absurd hmember (by decide)

/-- In a registry that calls make, requests for code end with code or a declared fault,
    within two levels of calls, and the routine for extensions is entered once at most;
    or else a bundle is among its own members, and it is entered without end. For that
    an operation that is bundled must have the name of the routine, which none has as
    long as the built-in one for extensions is not removed. -/
theorem descend_ends (h : generator.registry.IsReachable) (e : Enumeration) (request : Request) :
    (¬(generator.IsBundle request ∧ generator.IsCyclic e) → ∀ limit, ∃ outcome entered,
      generator.descend e (limit + 2) request = ⟨some outcome, entered⟩ ∧ Ends outcome ∧
        (generator.generate e request).run.value = outcome ∧ entered.length ≤ 5 ∧
          entered.count .extension ≤ 1) ∧
    (generator.IsBundle request ∧ generator.IsCyclic e →
      (generator.generate e request).run.value = .error .endless ∧
        ∀ limit, (generator.descend e limit request).outcome = none ∧
          (generator.descend e limit request).entered.count .extension = limit) ∧
    (generator.IsCyclic e → ∃ member ∈ bundled, generator.registry.owner?
      (Registry.key Operation.extension.routine.toList) = some member) ∧
    ∀ calls, generator.registry = Registry.builtIn.afterCalls calls →
      .unregister .extension ∉ calls → ¬generator.IsCyclic e :=
  ⟨exists_descend_eq, fun ⟨hbundle, hcyclic⟩ =>
      ⟨value_generate_of_isCyclic hcyclic hbundle, descend_of_isCyclic hcyclic hbundle⟩,
    owner?_of_isCyclic h.isSound, fun _ => not_isCyclic_of_builtIn⟩

/-- An enum of two values. -/
def status : Enumeration :=
  ⟨"Status".toList, ["active".toList, "inactive".toList], none, by decide, by decide, by decide⟩

/-- Calls by which another operation gets the routine for extensions, one that is not
    bundled. -/
def bundlingCalls : List Registry.Call :=
  [.unregister .extension,
    .register { Operation.map.defaultSpec with routine := Operation.extension.routine } [] true,
    .register { Operation.extension.defaultSpec with routine := "bundle" } [] false]

theorem descend_ends_bundling :
    let generator : Generator := { registry := Registry.builtIn.afterCalls bundlingCalls }
    generator.registry.IsReachable ∧ generator.IsBundle (.exactly .map) ∧
      ¬generator.IsCyclic status ∧ ∃ text entered,
        generator.descend status 2 (.exactly .map) = ⟨some (.ok text), entered⟩ ∧
          (generator.generate status (.exactly .map)).run.value = .ok text ∧
          entered.count .extension ≤ 1 := by
  intro generator
  have hreachable : generator.registry.IsReachable := ⟨.builtIn, bundlingCalls, .inr rfl, rfl⟩
  have hbundle : generator.IsBundle (.exactly .map) := ⟨.map, by decide +kernel⟩
  obtain ⟨hends, -, howner, -⟩ := descend_ends hreachable status (.exactly .map)
  have hcyclic : ¬generator.IsCyclic status := fun hcyclic => by
    obtain ⟨member, hmember, hname⟩ := howner hcyclic
    have hmap : generator.registry.owner? (Registry.key Operation.extension.routine.toList) =
        some .map := by decide +kernel
    obtain rfl := Option.some.inj (hname.symm.trans hmap)
    exact absurd hmember (by decide)
  obtain ⟨outcome, entered, hdescend, -, hgenerate, -, hcount⟩ := hends (fun h => hcyclic h.2) 0
  have hsome : (generator.generate status (.exactly .map)).run.value.toOption.isSome = true := by
    decide +kernel
  rw [hgenerate] at hsome
  cases outcome with
  | error fault => exact Bool.noConfusion hsome
  | ok text => exact ⟨hreachable, hbundle, hcyclic, text, entered, hdescend, hgenerate, hcount⟩

/-- Calls by which a bundled operation gets the routine for extensions. -/
def cyclicCalls : List Registry.Call :=
  [.register { Operation.getters.defaultSpec with routine := Operation.extension.routine } [] false]

/-- The getters are a bundle, of which they are the first member. -/
theorem descend_endless_getters :
    let generator : Generator := { registry := Registry.empty.afterCalls cyclicCalls }
    generator.registry.IsReachable ∧
      (generator.generate status (.exactly .getters)).run.value = .error .endless ∧
        ∀ limit, (generator.descend status limit (.exactly .getters)).outcome = none ∧
          (generator.descend status limit (.exactly .getters)).entered.count .extension = limit := by
  intro generator
  have hbundle : generator.IsBundle (.exactly .getters) := ⟨.getters, by decide +kernel⟩
  have hcyclic : generator.IsCyclic status :=
    ⟨[], .getters, [.when, .maybeWhen, .whenOrNull], rfl, nofun, hbundle⟩
  exact ⟨⟨.empty, cyclicCalls, .inl rfl, rfl⟩, value_generate_of_isCyclic hcyclic hbundle,
    descend_of_isCyclic hcyclic hbundle⟩

end Generator

end EnumCompanion
