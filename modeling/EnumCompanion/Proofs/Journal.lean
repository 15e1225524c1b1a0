import EnumCompanion.Journal

/-!
# Values without records

The value of a computation is that of the same computation without a journal:
what may fail does so as before, and reports have no value.

* `Logged.value_run_liftM`, `Logged.value_map`: values without a journal;
* `exists_of_bind_eq_ok`, `exists_mapM_eq_ok_iff`: computations that end with a value;
* `EndsWell`: computations that end with a wanted value or a declared fault.
-/

namespace EnumCompanion

open Journal

variable {ε α β : Type}

namespace Logged

theorem ext {logged other : Logged α} (hvalue : logged.value = other.value)
    (hrecords : logged.records = other.records) : logged = other := by
  cases logged
  cases other
  congr

instance : LawfulMonad Logged :=
  LawfulMonad.mk' Logged (fun _ => ext rfl (List.append_nil _)) (fun _ _ => ext rfl rfl)
    fun _ _ _ => ext rfl (List.append_assoc _ _ _)

@[simp] theorem value_run_liftM (result : Except ε α) :
    (liftM result : ExceptT ε Logged α).run.value = result := by
  cases result <;> rfl

@[simp] theorem value_run_lift (logged : Logged α) :
    (liftM logged : ExceptT ε Logged α).run.value = .ok logged.value := rfl

@[simp] theorem value_run_adapt {ε' : Type} (f : ε → ε') (computation : ExceptT ε Logged α) :
    (computation.adapt f).run.value = computation.run.value.mapError f := rfl

@[simp] theorem value_map (f : α → β) (logged : Logged α) :
    (f <$> logged).value = f logged.value := rfl

@[simp] theorem value_run_pure (a : α) : (pure a : ExceptT ε Logged α).run.value = .ok a := rfl

/-- What is done for each of a list without a journal. -/
theorem value_run_mapM (f : α → ExceptT ε Logged β) (list : List α) :
    (list.mapM f).run.value = list.mapM fun a => (f a).run.value := by
  induction list with
  | nil => rfl
  | cons a rest ih => simp only [List.mapM_cons, value_run_bind, ih, value_run_pure]; rfl

end Logged

@[simp] theorem ok_bind (a : α) (next : α → Except ε β) : Except.ok a >>= next = next a := rfl

theorem error_ne_ok {fault : ε} {a : α} : Except.error fault ≠ Except.ok a := by
  intro h
  cases h

theorem not_exists_error_eq_ok {fault : ε} : ¬∃ a : α, Except.error fault = Except.ok a :=
  fun ⟨_, h⟩ => error_ne_ok h

theorem not_exists_ok_eq_error {a : α} : ¬∃ fault : ε, Except.ok a = Except.error fault :=
  fun ⟨_, h⟩ => error_ne_ok h.symm

theorem mapError_eq_ok_iff {ε' : Type} {f : ε → ε'} {result : Except ε α} {a : α} :
    result.mapError f = .ok a ↔ result = .ok a := by
  cases result with
  | error fault => exact iff_of_false error_ne_ok error_ne_ok
  | ok b => exact ⟨fun h => congrArg Except.ok (Except.ok.inj h),
      fun h => congrArg Except.ok (Except.ok.inj h)⟩

/-- What ends well starts well. -/
theorem exists_of_bind_eq_ok {first : Except ε α} {next : α → Except ε β} {b : β}
    (h : first >>= next = .ok b) : ∃ a, first = .ok a ∧ next a = .ok b := by
  cases first with
  | error fault => cases h
  | ok a => exact ⟨a, rfl, h⟩

/-! ### How computations end -/

theorem exists_bind_eq_ok_iff {first : Except ε α} {next : α → Except ε β} :
    (∃ b, first >>= next = .ok b) ↔ ∃ a, first = .ok a ∧ ∃ b, next a = .ok b := by
  constructor
  · rintro ⟨b, h⟩
    obtain ⟨a, ha, hb⟩ := exists_of_bind_eq_ok h
    exact ⟨a, ha, b, hb⟩
  · rintro ⟨a, rfl, h⟩
    exact h

theorem exists_map_eq_ok_iff {f : α → β} {result : Except ε α} :
    (∃ b, result.map f = .ok b) ↔ ∃ a, result = .ok a := by
  cases result with
  | error fault => exact iff_of_false not_exists_error_eq_ok not_exists_error_eq_ok
  | ok a => exact iff_of_true ⟨f a, rfl⟩ ⟨a, rfl⟩

/-- What is done for each of a list ends well if it does for all. -/
theorem exists_mapM_eq_ok_iff {f : α → Except ε β} {list : List α} :
    (∃ result, list.mapM f = .ok result) ↔ ∀ a ∈ list, ∃ b, f a = .ok b := by
  induction list with
  | nil => exact iff_of_true ⟨[], rfl⟩ nofun
  | cons a rest ih =>
    rw [List.mapM_cons, exists_bind_eq_ok_iff, List.forall_mem_cons, ← ih]
    constructor
    · rintro ⟨b, hb, h⟩
      obtain ⟨result, hresult, -⟩ := exists_bind_eq_ok_iff.1 h
      exact ⟨⟨b, hb⟩, result, hresult⟩
    · rintro ⟨⟨b, hb⟩, result, hresult⟩
      exact ⟨b, hb, exists_bind_eq_ok_iff.2 ⟨result, hresult, _, rfl⟩⟩

/-- What is done for each of a list fails where it fails first. -/
theorem mapM_eq_error_iff {f : α → Except ε β} {list : List α} {fault : ε} :
    list.mapM f = .error fault ↔ ∃ before a behind, list = before ++ a :: behind ∧
      (∀ earlier ∈ before, ∃ b, f earlier = .ok b) ∧ f a = .error fault := by
  induction list with
  | nil => exact iff_of_false error_ne_ok.symm fun ⟨_, _, _, h, _⟩ => by simp at h
  | cons a rest ih =>
    rw [List.mapM_cons]
    cases ha : f a with
    | error fault' =>
      constructor
      · rintro ⟨⟩
        exact ⟨[], a, rest, rfl, nofun, ha⟩
      · rintro ⟨_ | ⟨first, before⟩, b, behind, hlist, hbefore, hb⟩
        · obtain ⟨rfl, rfl⟩ := List.cons.inj hlist
          obtain rfl := Except.error.inj (ha.symm.trans hb)
          rfl
        · obtain ⟨rfl, rfl⟩ := List.cons.inj hlist
          obtain ⟨c, hc⟩ := hbefore _ List.mem_cons_self
          exact absurd (ha.symm.trans hc) error_ne_ok
    | ok b =>
      have hrest : (do let results ← rest.mapM f; pure (b :: results)) = Except.error fault ↔
          rest.mapM f = .error fault := by
        cases rest.mapM f with
        | error fault' => exact Iff.rfl
        | ok results => exact iff_of_false error_ne_ok.symm error_ne_ok.symm
      rw [ok_bind, hrest, ih]
      constructor
      · rintro ⟨before, c, behind, rfl, hbefore, hc⟩
        exact ⟨a :: before, c, behind, rfl, List.forall_mem_cons.2 ⟨⟨b, ha⟩, hbefore⟩, hc⟩
      · rintro ⟨_ | ⟨first, before⟩, c, behind, hlist, hbefore, hc⟩
        · obtain ⟨rfl, rfl⟩ := List.cons.inj hlist
          exact absurd (hc.symm.trans ha) error_ne_ok
        · obtain ⟨rfl, rfl⟩ := List.cons.inj hlist
          exact ⟨before, c, behind, rfl, fun earlier h => hbefore _ (List.mem_cons_of_mem _ h), hc⟩

/-- A computation ends well if its value is a wanted one or its fault is one of
    those that are declared. -/
def EndsWell (declared : ε → Prop) (wanted : α → Prop) : Except ε α → Prop
  | .ok a => wanted a
  | .error fault => declared fault

/-- One computation after another ends well if the first ends well with a value with
    which the second does. -/
theorem endsWell_bind_iff {declared : ε → Prop} {wanted : β → Prop} {first : Except ε α}
    {next : α → Except ε β} :
    EndsWell declared wanted (first >>= next) ↔
      EndsWell declared (fun a => EndsWell declared wanted (next a)) first := by
  cases first <;> exact Iff.rfl

theorem endsWell_map_iff {declared : ε → Prop} {wanted : β → Prop} {f : α → β}
    {result : Except ε α} :
    EndsWell declared wanted (result.map f) ↔ EndsWell declared (fun a => wanted (f a)) result := by
  cases result <;> exact Iff.rfl

/-- How a computation ends depends on its faults and on its value. -/
theorem endsWell_iff {declared : ε → Prop} {wanted : α → Prop} {result : Except ε α} :
    EndsWell declared wanted result ↔
      EndsWell declared (fun _ => True) result ∧ ∀ a, result = .ok a → wanted a := by
  cases result with
  | error fault => exact (and_iff_left nofun).symm
  | ok a => exact ⟨fun h => ⟨trivial, fun b hb => Except.ok.inj hb ▸ h⟩, fun h => h.2 a rfl⟩

end EnumCompanion
