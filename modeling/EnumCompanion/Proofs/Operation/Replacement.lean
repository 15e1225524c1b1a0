import EnumCompanion.Proofs.Operation.History

/-!
# Replaced registrations

A spec may be registered in place of the one that its operation has. The names of
the new registration are entered then, but those of the old one stay: they still
stand for the operation, and no other operation can have them. To remove the
operation first and to register it anew gives them up.

* `Registry.enter`, `Registry.register_eq`: what a registration that is not passed
  over comes to;
* `Registry.IsSound.conflict?_unregister`: the names of an operation itself are never
  what a registration of it is refused for;
* `Registry.IsSound.owner?_afterCalls`: a name stays with its operation until that is
  removed;
* `Registry.keptKeys`, `Registry.register_replace`: the names that stay, and that
  nothing else differs.
-/

namespace EnumCompanion

open Text

namespace Registry

variable {registry : Registry} {operation : Operation} {spec : Spec} {aliases : List Text}

/-! ### Registrations -/

/-- A registry with a spec in place of the one of its operation, and with its names
    beside all others. -/
def enter (registry : Registry) (spec : Spec) (aliases : List Text) : Registry where
  specs := spec :: registry.specs.filter fun other => other.operation ≠ spec.operation
  names := ((namesOf spec aliases).map key).foldl (assign spec.operation) registry.names

/-- A registration is refused for a name that is taken, or it is entered, where the
    operation is not registered yet or is to be replaced. -/
theorem register_eq {replace : Bool}
    (h : registry.spec? spec.operation = none ∨ replace = true) :
    registry.register spec aliases replace =
      match registry.conflict? spec.operation (namesOf spec aliases) with
      | some (name, owner) => .error (.taken name owner)
      | none => .ok (registry.enter spec aliases) := by
  rw [register, if_neg]
  · rfl
  · rcases h with h | rfl <;> simp [*]

theorem mem_names_enter {entry : Text × Operation} :
    entry ∈ (registry.enter spec aliases).names ↔
      entry.1 ∈ (namesOf spec aliases).map key ∧ entry.2 = spec.operation ∨
        entry.1 ∉ (namesOf spec aliases).map key ∧ entry ∈ registry.names :=
  mem_foldl_assign

/-- The keys that are assigned come first, and of the others all stay. -/
theorem foldl_assign_eq (keys : List Text) (names : List (Text × Operation)) :
    keys.foldl (assign operation) names =
      keys.foldl (assign operation) [] ++ names.filter fun entry => entry.1 ∉ keys := by
  induction keys generalizing names with
  | nil => simp
  | cons key keys ih =>
    have hassign : (assign operation names key).filter (fun entry => entry.1 ∉ keys) =
        (assign operation [] key).filter (fun entry => entry.1 ∉ keys) ++
          names.filter fun entry => entry.1 ∉ key :: keys := by
      rw [assign, assign, List.filter_nil, ← List.singleton_append, List.filter_append,
        List.filter_filter]
      simp [Bool.and_comm]
    rw [List.foldl_cons, List.foldl_cons, ih, ih (assign operation [] key), hassign,
      List.append_assoc]

/-! ### Operations that are removed -/

theorem spec?_unregister : (registry.unregister operation).spec? operation = none := by
  simp [spec?, unregister]

/-- Names that stand for other operations are those of before. -/
theorem IsSound.owner?_unregister (h : registry.IsSound) (key : Text) :
    (registry.unregister operation).owner? key =
      (registry.owner? key).filter fun owner => owner ≠ operation := by
  ext owner
  rw [(h.unregister operation).owner?_eq_some_iff, Option.filter_eq_some_iff,
    h.owner?_eq_some_iff]
  simp [Registry.unregister]

/-- A registration is refused for the names of other operations alone, so that the
    operation may as well be removed before. -/
theorem IsSound.conflict?_unregister (h : registry.IsSound) (names : List Text) :
    (registry.unregister operation).conflict? operation names =
      registry.conflict? operation names := by
  rw [conflict?, conflict?]
  congr 1
  funext name
  rw [h.owner?_unregister]
  cases registry.owner? (key name) with
  | none => rfl
  | some owner => by_cases howner : owner = operation <;> simp [Option.filter_some, howner]

/-! ### Names that stay -/

/-- A name stays with its operation in a registration of any spec. -/
theorem IsSound.owner?_register (h : registry.IsSound) {replace : Bool} {changed : Registry}
    (hregister : registry.register spec aliases replace = .ok changed) {key : Text}
    (howner : registry.owner? key = some operation) : changed.owner? key = some operation := by
  by_cases hskip : registry.spec? spec.operation = none ∨ replace = true
  · have hsound := h.register hregister
    rw [register_eq hskip] at hregister
    cases hconflict : registry.conflict? spec.operation (namesOf spec aliases) with
    | some conflict =>
      rw [hconflict] at hregister
      cases hregister
    | none =>
      rw [hconflict] at hregister
      obtain rfl := Except.ok.inj hregister
      refine hsound.owner?_eq_some_iff.2 (mem_names_enter.2 ?_)
      -- A name of the spec that is taken stands for its operation already.
      by_cases hkey : key ∈ (namesOf spec aliases).map Registry.key
      · obtain ⟨name, hname, rfl⟩ := List.mem_map.1 hkey
        exact .inl ⟨hkey, conflict?_eq_none_iff.1 hconflict name hname operation howner⟩
      · exact .inr ⟨hkey, h.owner?_eq_some_iff.1 howner⟩
  · rw [not_or, Bool.not_eq_true] at hskip
    have hsome : (registry.spec? spec.operation).isSome = true := Option.isSome_iff_ne_none.2 hskip.1
    rw [Registry.register, hsome, hskip.2] at hregister
    obtain rfl := Except.ok.inj hregister
    exact howner

/-- Only the removal of its operation takes a name away. -/
theorem IsSound.owner?_afterCall (h : registry.IsSound) {call : Call}
    (hcall : call ≠ .unregister operation) {key : Text}
    (howner : registry.owner? key = some operation) :
    (registry.afterCall call).owner? key = some operation := by
  cases call with
  | register spec aliases replace =>
    rw [Registry.afterCall, run_register]
    cases hregister : registry.register spec aliases replace with
    | ok changed => exact h.owner?_register hregister howner
    | error fault => exact howner
  | unregister other =>
    have hother : operation ≠ other := fun heq => hcall (by rw [heq])
    change (registry.unregister other).owner? key = some operation
    rw [h.owner?_unregister, howner, Option.filter_some, if_pos (by simpa using hother)]

/-- So it is after any calls. -/
theorem IsSound.owner?_afterCalls (h : registry.IsSound) {calls : List Call}
    (hcalls : .unregister operation ∉ calls) {key : Text}
    (howner : registry.owner? key = some operation) :
    (registry.afterCalls calls).owner? key = some operation := by
  induction calls generalizing registry with
  | nil => exact howner
  | cons call calls ih =>
    rw [List.mem_cons, not_or] at hcalls
    exact ih (h.afterCall call) hcalls.2 (h.owner?_afterCall (Ne.symm hcalls.1) howner)

/-! ### Replacement -/

/-- The keys of an operation that a registration of it in place of another leaves as
    they are: those that are none of its names. -/
def keptKeys (registry : Registry) (spec : Spec) (aliases : List Text) : List Text :=
  (registry.names.filter fun entry =>
    entry.2 = spec.operation && !((namesOf spec aliases).map key).contains entry.1).map Prod.fst

theorem mem_keptKeys {kept : Text} : kept ∈ registry.keptKeys spec aliases ↔
    kept ∉ (namesOf spec aliases).map key ∧ (kept, spec.operation) ∈ registry.names := by
  simp [keptKeys, and_comm]

/-- Whether the spec is entered at once or the operation is removed before, the
    entries differ by the keys that are kept. -/
theorem mem_names_enter_unregister {entry : Text × Operation} :
    entry ∈ ((registry.unregister spec.operation).enter spec aliases).names ↔
      entry ∈ (registry.enter spec aliases).names ∧
        ¬(entry.1 ∈ registry.keptKeys spec aliases ∧ entry.2 = spec.operation) := by
  have hremoved : entry ∈ (registry.unregister spec.operation).names ↔
      entry ∈ registry.names ∧ entry.2 ≠ spec.operation := by
    simp [unregister]
  rw [mem_names_enter, mem_names_enter, hremoved, mem_keptKeys]
  by_cases hown : entry.2 = spec.operation
  · obtain ⟨name, owner⟩ := entry
    subst hown
    tauto
  · tauto

theorem specs_enter_unregister (registry : Registry) (spec : Spec) (aliases : List Text) :
    ((registry.unregister spec.operation).enter spec aliases).specs =
      (registry.enter spec aliases).specs := by
  simp [enter, unregister, List.filter_filter]

/-- Both ways come to one registry if no key is kept. -/
theorem enter_unregister_eq_iff :
    registry.enter spec aliases = (registry.unregister spec.operation).enter spec aliases ↔
      registry.keptKeys spec aliases = [] := by
  constructor
  · intro heq
    refine List.eq_nil_iff_forall_not_mem.2 fun kept hkept => ?_
    have hentry : (kept, spec.operation) ∈ (registry.enter spec aliases).names :=
      mem_names_enter.2 (.inr (mem_keptKeys.1 hkept))
    rw [heq] at hentry
    exact (mem_names_enter_unregister.1 hentry).2 ⟨hkept, rfl⟩
  · intro hnone
    have hothers : registry.names.filter (fun entry => entry.1 ∉ (namesOf spec aliases).map key) =
        (registry.unregister spec.operation).names.filter fun entry =>
          entry.1 ∉ (namesOf spec aliases).map key := by
      rw [unregister, List.filter_filter]
      refine List.filter_congr ?_
      rintro ⟨name, owner⟩ hentry
      by_cases hkey : name ∈ (namesOf spec aliases).map key
      · simp [hkey]
      · have hother : owner ≠ spec.operation := by
          rintro rfl
          exact List.not_mem_nil (hnone ▸ mem_keptKeys.2 ⟨hkey, hentry⟩)
        simp [hkey, hother]
    have hspecs := (specs_enter_unregister registry spec aliases).symm
    have hnames : (registry.enter spec aliases).names =
        ((registry.unregister spec.operation).enter spec aliases).names := by
      rw [enter, enter, foldl_assign_eq, foldl_assign_eq _ (registry.unregister _).names, hothers]
    exact congrArg₂ Registry.mk hspecs hnames

section

variable (h : registry.IsSound)
  (hconflict : registry.conflict? spec.operation (namesOf spec aliases) = none)

include h hconflict

/-- What a key stands for where the operation is removed before. -/
theorem IsSound.owner?_enter_unregister_eq_some_iff {key : Text} {owner : Operation} :
    ((registry.unregister spec.operation).enter spec aliases).owner? key = some owner ↔
      (registry.enter spec aliases).owner? key = some owner ∧
        ¬(key ∈ registry.keptKeys spec aliases ∧ owner = spec.operation) := by
  have hanew : ((registry.unregister spec.operation).enter spec aliases).IsSound :=
    (h.unregister spec.operation).enter (h.conflict?_unregister _ ▸ hconflict)
  have hentered : (registry.enter spec aliases).IsSound := h.enter hconflict
  rw [hanew.owner?_eq_some_iff, hentered.owner?_eq_some_iff, mem_names_enter_unregister]

/-- A key that is kept stands for the operation, and for nothing where that is removed
    before. -/
theorem IsSound.owner?_of_mem_keptKeys {kept : Text}
    (hkept : kept ∈ registry.keptKeys spec aliases) :
    (registry.enter spec aliases).owner? kept = some spec.operation ∧
      ((registry.unregister spec.operation).enter spec aliases).owner? kept = none := by
  have hentered : (registry.enter spec aliases).IsSound := h.enter hconflict
  have howner := hentered.owner?_eq_some_iff.2 (mem_names_enter.2 (.inr (mem_keptKeys.1 hkept)))
  refine ⟨howner, Option.eq_none_iff_forall_not_mem.2 fun owner hmem => ?_⟩
  obtain ⟨hsame, hnot⟩ := (owner?_enter_unregister_eq_some_iff h hconflict).1 hmem
  rw [howner] at hsame
  exact hnot ⟨hkept, (Option.some.inj hsame).symm⟩

/-- Every other key stands for the same. -/
theorem IsSound.owner?_of_notMem_keptKeys {key : Text}
    (hkey : key ∉ registry.keptKeys spec aliases) :
    (registry.enter spec aliases).owner? key =
      ((registry.unregister spec.operation).enter spec aliases).owner? key := by
  ext owner
  rw [owner?_enter_unregister_eq_some_iff h hconflict, and_iff_left fun hboth => hkey hboth.1]

end

/-- In a registry that calls make, a registration in place of another is refused
    exactly if, with the same fault, it is where the operation is removed before. If
    it is not, both have the same specs, and all names stand for the same but the keys
    that are kept: they still stand for the operation, and for nothing where it is
    removed before. Both are one registry exactly if no key is kept. -/
theorem register_replace (h : registry.IsReachable) (spec : Spec) (aliases : List Text) :
    (∀ fault, registry.register spec aliases true = .error fault ↔
      (registry.unregister spec.operation).register spec aliases false = .error fault) ∧
    ∀ replaced, registry.register spec aliases true = .ok replaced →
      ∃ anew, (registry.unregister spec.operation).register spec aliases false = .ok anew ∧
        replaced.specs = anew.specs ∧
        (∀ key, replaced.owner? key =
          if key ∈ registry.keptKeys spec aliases then some spec.operation else anew.owner? key) ∧
        (∀ key ∈ registry.keptKeys spec aliases, anew.owner? key = none) ∧
        (replaced = anew ↔ registry.keptKeys spec aliases = []) := by
  have hsound := h.isSound
  rw [register_eq (.inr rfl), register_eq (.inl spec?_unregister), hsound.conflict?_unregister]
  cases hconflict : registry.conflict? spec.operation (namesOf spec aliases) with
  | some conflict => exact ⟨fun _ => Iff.rfl, nofun⟩
  | none =>
    refine ⟨fun _ => iff_of_false nofun nofun, ?_⟩
    rintro _ ⟨⟩
    refine ⟨_, rfl, (specs_enter_unregister ..).symm, fun key => ?_,
      fun key hkey => (hsound.owner?_of_mem_keptKeys hconflict hkey).2, enter_unregister_eq_iff⟩
    split_ifs with hkey
    · exact (hsound.owner?_of_mem_keptKeys hconflict hkey).1
    · exact hsound.owner?_of_notMem_keptKeys hconflict hkey

/-- A registration of the operation for dispatch under another routine and another
    name, beside the built-in ones. -/
def dispatchCalls : List Call :=
  [.register { Operation.when.defaultSpec with routine := "dispatch" } ["Do it".toList] true]

/-- It is replaced by the built-in one, which has another routine and none of these
    names. -/
theorem register_replace_dispatch :
    (Registry.builtIn.afterCalls dispatchCalls).IsReachable ∧
      ((Registry.builtIn.afterCalls dispatchCalls).keptKeys Operation.when.defaultSpec [] =
        ["doit".toList, "dispatch".toList]) ∧
      ∃ replaced anew,
        (Registry.builtIn.afterCalls dispatchCalls).register Operation.when.defaultSpec [] true =
          .ok replaced ∧
        ((Registry.builtIn.afterCalls dispatchCalls).unregister .when).register
          Operation.when.defaultSpec [] false = .ok anew ∧
        replaced.specs = anew.specs ∧ replaced.owner? "dispatch".toList = some .when ∧
        anew.owner? "dispatch".toList = none ∧ replaced ≠ anew := by
  have hreachable : (Registry.builtIn.afterCalls dispatchCalls).IsReachable :=
    ⟨.builtIn, dispatchCalls, .inr rfl, rfl⟩
  have hkept : (Registry.builtIn.afterCalls dispatchCalls).keptKeys Operation.when.defaultSpec [] =
      ["doit".toList, "dispatch".toList] := by decide +kernel
  have hsome : ((Registry.builtIn.afterCalls dispatchCalls).register Operation.when.defaultSpec []
      true).toOption.isSome = true := by decide +kernel
  cases hreplaced : (Registry.builtIn.afterCalls dispatchCalls).register
      Operation.when.defaultSpec [] true with
  | error fault =>
    rw [hreplaced] at hsome
    exact Bool.noConfusion hsome
  | ok replaced =>
    obtain ⟨anew, hanew, hspecs, howner, hnone, hiff⟩ :=
      (register_replace hreachable Operation.when.defaultSpec []).2 replaced hreplaced
    rw [hkept] at howner hnone hiff
    exact ⟨hreachable, hkept, replaced, anew, rfl, hanew, hspecs, howner _,
      hnone _ (by decide), fun heq => absurd (hiff.1 heq) (by decide)⟩

/-- A registration in place of the built-in one of the getters, without its names:
    "is" still stands for them, and another operation is refused that name. -/
theorem register_keeps_name :
    ((Registry.builtIn.register Operation.getters.defaultSpec [] true).toOption.map
        fun replaced => (replaced.owner? "is".toList,
          (replaced.register Operation.when.defaultSpec ["is".toList] true).toOption.isSome)) =
      some (some .getters, false) ∧
    (((Registry.builtIn.unregister .getters).register Operation.getters.defaultSpec []
        false).toOption.map
        fun anew => (anew.owner? "is".toList,
          (anew.register Operation.when.defaultSpec ["is".toList] true).toOption.isSome)) =
      some (none, true) := by
  decide +kernel

end Registry

end EnumCompanion
