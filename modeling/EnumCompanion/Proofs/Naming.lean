import EnumCompanion.Naming
import EnumCompanion.Proofs.Code.Layout
import Mathlib.Data.List.DropRight
import Mathlib.Data.List.Nodup
import Mathlib.Data.List.Perm.Subperm

/-!
# Clashes of names

The names that generated code declares are those of its getters and of the
parameters of its methods. They clash where a value is repeated, where two values
differ only in the case of their first letter, and where a value is called like
the fallback of a method. These are the warnings on an enumeration, beside those
on reserved words: there are none exactly where the names that the code shows
are pairwise distinct and no value is reserved.

* `List.pairwise_idxOf_eraseDups`: what is left without repetitions is in the
  order of first occurrence;
* `Naming.getterName_eq_iff`: the values that share a getter;
* `Naming.mem_collisions_iff`, `Naming.length_of_mem_collisions`: groups of values
  with one getter, always pairs;
* `Generator.gettersOf_member`, `Generator.parametersOf_member`: the names that the
  code shows;
* `Enumeration.nameChecks`: the checks are sound and complete for clashes.
-/

/-! ### Lists without repetitions -/

theorem List.pairwise_idxOf_eraseDups {α : Type*} [BEq α] [LawfulBEq α] (list : List α) :
    list.eraseDups.Pairwise (list.idxOf · < list.idxOf ·) := by
  induction list using List.reverseRecOn with
  | nil => exact List.Pairwise.nil
  | append_singleton list a ih =>
    have hkept : list.eraseDups.Pairwise fun b c =>
        (list ++ [a]).idxOf b < (list ++ [a]).idxOf c :=
      ih.imp_of_mem fun hb hc hlt => by
        rwa [List.idxOf_append_of_mem (List.mem_eraseDups.1 hb),
          List.idxOf_append_of_mem (List.mem_eraseDups.1 hc)]
    rw [List.eraseDups_append]
    by_cases ha : a ∈ list
    · rw [show [a].removeAll list = [] by simpa [List.removeAll] using ha]
      simpa using hkept
    · rw [show [a].removeAll list = [a] by simpa [List.removeAll] using ha]
      refine List.pairwise_append.2 ⟨hkept, List.pairwise_singleton _ _, fun b hb c hc => ?_⟩
      have hb := List.mem_eraseDups.1 hb
      obtain rfl : c = a := by simpa using hc
      rw [List.idxOf_append_of_mem hb, List.idxOf_append_of_notMem ha]
      exact Nat.lt_add_right _ (List.idxOf_lt_length_iff.2 hb)

theorem List.nodup_eraseDups {α : Type*} [BEq α] [LawfulBEq α] (list : List α) :
    list.eraseDups.Nodup :=
  (pairwise_idxOf_eraseDups list).imp fun hlt heq => absurd (heq ▸ hlt) (Nat.lt_irrefl _)

namespace EnumCompanion

open Text

/-! ### Repeated values -/

namespace Enumeration

variable (e : Enumeration)

theorem mem_repeated_iff {value : Text} : value ∈ e.repeated ↔ 2 ≤ e.values.count value := by
  rw [repeated, List.mem_filter, List.mem_eraseDups, decide_eq_true_eq]
  exact and_iff_right_of_imp fun h => List.count_pos_iff.1 (by omega)

theorem pairwise_repeated : e.repeated.Pairwise (e.values.idxOf · < e.values.idxOf ·) :=
  (List.pairwise_idxOf_eraseDups e.values).filter _

theorem repeated_eq_nil_iff : e.repeated = [] ↔ e.values.Nodup := by
  rw [List.eq_nil_iff_forall_not_mem, List.nodup_iff_count_le_one]
  refine forall_congr' fun value => ?_
  rw [mem_repeated_iff]
  omega

end Enumeration

/-! ### Getters -/

namespace Naming

theorem toUpper_of_not_isLower {c : Char} (h : c.isLower = false) : c.toUpper = c := by
  refine dif_neg fun ⟨hle, hge⟩ => ?_
  have hlower : (decide ('a'.val ≤ c.val) && decide (c.val ≤ 'z'.val)) = true := by
    rw [decide_eq_true hle, decide_eq_true hge, Bool.and_self]
  exact Bool.noConfusion (hlower.symm.trans h)

/-- The small letters and their capitals. -/
theorem toUpper_of_isLower {c : Char} (h : c.isLower = true) :
    c.toUpper.isLower = false ∧ c.toUpper.toLower = c :=
  of_isLower (p := fun c => c.toUpper.isLower = false ∧ c.toUpper.toLower = c) (by decide) h

theorem capitalized_cons (c : Char) (rest : Text) : capitalized (c :: rest) = c.toUpper :: rest := by
  rw [capitalized]
  split_ifs with h
  · rfl
  · rw [toUpper_of_not_isLower (by simpa using h)]

/-- Two names differ only in that one starts with a small ASCII letter and the
    other with the capital of it. -/
def DifferInCase (name other : Text) : Prop :=
  ∃ c rest, c.isLower = true ∧
    (name = c :: rest ∧ other = c.toUpper :: rest ∨ other = c :: rest ∧ name = c.toUpper :: rest)

/-- Names differ in their case only if they are distinct with one getter. -/
theorem getterName_eq_iff {value other : Text} (hne : value ≠ other) :
    getterName value = getterName other ↔ DifferInCase value other := by
  rw [getterName, getterName, List.append_cancel_left_eq]
  constructor
  · intro h
    cases value with
    | nil =>
      cases other with
      | nil => exact absurd rfl hne
      | cons d other => exact absurd h (by rw [capitalized_cons]; exact nofun)
    | cons c value =>
      cases other with
      | nil => exact absurd h (by rw [capitalized_cons]; exact nofun)
      | cons d other =>
        rw [capitalized_cons, capitalized_cons, List.cons.injEq] at h
        obtain ⟨hcapital, rfl⟩ := h
        cases hc : c.isLower with
        | true =>
          cases hd : d.isLower with
          | true =>
            rw [← (toUpper_of_isLower hc).2, ← (toUpper_of_isLower hd).2, hcapital] at hne
            exact absurd rfl hne
          | false =>
            rw [toUpper_of_not_isLower hd] at hcapital
            exact ⟨c, value, hc, .inl ⟨rfl, by rw [hcapital]⟩⟩
        | false =>
          rw [toUpper_of_not_isLower hc] at hcapital
          cases hd : d.isLower with
          | true => exact ⟨d, value, hd, .inr ⟨rfl, by rw [hcapital]⟩⟩
          | false =>
            rw [toUpper_of_not_isLower hd] at hcapital
            exact absurd (by rw [hcapital]) hne
  · have hsame : ∀ {c : Char} (rest : Text), c.isLower = true →
        capitalized (c :: rest) = capitalized (c.toUpper :: rest) := fun rest hc => by
      rw [capitalized_cons, capitalized_cons,
        toUpper_of_not_isLower (toUpper_of_isLower hc).1]
    rintro ⟨c, rest, hc, ⟨rfl, rfl⟩ | ⟨rfl, rfl⟩⟩
    exacts [hsame rest hc, (hsame rest hc).symm]

variable {values group : List Text} {getter value other : Text}

theorem mem_sharers_iff : value ∈ sharers values getter ↔
    value ∈ values ∧ getterName value = getter := by
  rw [sharers, List.mem_filter, List.mem_eraseDups, decide_eq_true_eq]

theorem nodup_sharers (values : List Text) (getter : Text) : (sharers values getter).Nodup :=
  (List.nodup_eraseDups values).filter _

/-- The groups of values that share a getter. -/
theorem mem_collisions_iff : (getter, group) ∈ collisions values ↔
    group = sharers values getter ∧ 1 < group.length := by
  rw [collisions, List.mem_filter, List.mem_map, decide_eq_true_eq]
  refine and_congr_left fun hlength => ?_
  constructor
  · rintro ⟨found, -, heq⟩
    obtain ⟨rfl, rfl⟩ := Prod.mk.inj heq
    rfl
  · rintro rfl
    obtain ⟨value, hvalue⟩ := List.exists_mem_of_length_pos (Nat.zero_lt_of_lt hlength)
    obtain ⟨hmem, rfl⟩ := mem_sharers_iff.1 hvalue
    exact ⟨_, List.mem_eraseDups.2 (List.mem_map_of_mem hmem), rfl⟩

/-- Distinct values stand in one group if, and only if, they share a getter. -/
theorem exists_mem_collisions_iff (hvalue : value ∈ values) (hother : other ∈ values)
    (hne : value ≠ other) :
    (∃ group ∈ collisions values, value ∈ group.2 ∧ other ∈ group.2) ↔
      getterName value = getterName other := by
  constructor
  · rintro ⟨⟨getter, group⟩, hgroup, hmem, hmem'⟩
    obtain ⟨rfl, -⟩ := mem_collisions_iff.1 hgroup
    rw [(mem_sharers_iff.1 hmem).2, (mem_sharers_iff.1 hmem').2]
  · intro heq
    have hmem : value ∈ sharers values (getterName value) := mem_sharers_iff.2 ⟨hvalue, rfl⟩
    have hmem' : other ∈ sharers values (getterName value) := mem_sharers_iff.2 ⟨hother, heq.symm⟩
    refine ⟨(_, _), mem_collisions_iff.2 ⟨rfl, ?_⟩, hmem, hmem'⟩
    rcases hgroup : sharers values (getterName value) with _ | ⟨first, _ | ⟨second, group⟩⟩
    · exact absurd (hgroup ▸ hmem) List.not_mem_nil
    · rw [hgroup, List.mem_singleton] at hmem hmem'
      exact absurd (hmem.trans hmem'.symm) hne
    · rw [List.length_cons, List.length_cons]
      omega

/-- The other text that may have the getter of one that starts with a capital. -/
def uncapitalized : Text → Text
  | [] => []
  | c :: rest => c.toLower :: rest

/-- A text has its getter with one other text at most. -/
theorem mem_of_getterName_eq (value : Text) :
    value ∈ [capitalized value, uncapitalized (capitalized value)] := by
  cases value with
  | nil => exact List.mem_cons_self
  | cons c value =>
    rw [capitalized_cons, uncapitalized, List.mem_cons, List.mem_singleton]
    cases hc : c.isLower with
    | true => exact .inr (by rw [(toUpper_of_isLower hc).2])
    | false => exact .inl (by rw [toUpper_of_not_isLower hc])

/-- Every group is a pair. -/
theorem length_of_mem_collisions (h : (getter, group) ∈ collisions values) : group.length = 2 := by
  obtain ⟨rfl, hlength⟩ := mem_collisions_iff.1 h
  obtain ⟨first, hfirst⟩ := List.exists_mem_of_length_pos (Nat.zero_lt_of_lt hlength)
  obtain ⟨-, rfl⟩ := mem_sharers_iff.1 hfirst
  have hsub : sharers values (getterName first) ⊆
      [capitalized first, uncapitalized (capitalized first)] := by
    intro value hvalue
    have hsame : capitalized value = capitalized first :=
      List.append_cancel_left (mem_sharers_iff.1 hvalue).2
    exact hsame ▸ mem_of_getterName_eq value
  have hle := (List.subperm_of_subset (nodup_sharers _ _) hsub).length_le
  exact Nat.le_antisymm hle hlength

/-- No getter is shared where distinct values have distinct getters. -/
theorem collisions_eq_nil_iff : collisions values = [] ↔
    ∀ value ∈ values, ∀ other ∈ values, getterName value = getterName other → value = other := by
  rw [List.eq_nil_iff_forall_not_mem]
  constructor
  · intro h value hvalue other hother heq
    by_contra hne
    obtain ⟨group, hgroup, -⟩ := (exists_mem_collisions_iff hvalue hother hne).2 heq
    exact h group hgroup
  · rintro h ⟨getter, group⟩ hgroup
    have hpair := length_of_mem_collisions hgroup
    obtain ⟨first, second, rfl⟩ := List.length_eq_two.1 hpair
    obtain ⟨hsharers, -⟩ := mem_collisions_iff.1 hgroup
    have hnodup := nodup_sharers values getter
    have hmem : ∀ value ∈ [first, second], value ∈ values ∧ getterName value = getter :=
      fun value hvalue => mem_sharers_iff.1 (hsharers ▸ hvalue)
    obtain ⟨hfirst, hgetter⟩ := hmem first (by simp)
    obtain ⟨hsecond, hgetter'⟩ := hmem second (by simp)
    rw [← hsharers, h first hfirst second hsecond (hgetter.trans hgetter'.symm)] at hnodup
    exact absurd hnodup (by simp)

end Naming

/-! ### The names that code declares -/

namespace Generator

/-- The name of the getter that a line declares. -/
def getterOf? (line : Text) : Option Text :=
  (List.isPrefixOf? "bool get ".toList (line.dropWhile (· == ' '))).map (·.takeWhile isNameChar)

/-- The names of the getters that code declares, line by line. -/
def gettersOf (code : Text) : List Text := code.lines.filterMap getterOf?

/-- The name of the parameter that a line declares, before its comma. -/
def parameterOf (line : Text) : Text := line.dropLast.rtakeWhile isNameChar

/-- The names of the parameters of a method: behind its signature, they stand at
    the end of lines with a comma. -/
def parametersOf (code : Text) : List Text :=
  (code.lines.tail.takeWhile (·.getLast? == some ',')).map parameterOf

theorem getterOf?_getterText (enumName : Text) {value : Text}
    (hvalue : ∀ c ∈ value, isNameChar c = true) :
    getterOf? (Operation.getterText enumName value) = some (Naming.getterName value) ∧
      getterOf? (memberIndent ++ Operation.getterText enumName value) =
        some (Naming.getterName value) := by
  obtain ⟨behind, hspace, htext⟩ : ∃ behind : Text, behind.head?.any isNameChar = false ∧
      Operation.getterText enumName value =
        "bool get ".toList ++ (Naming.getterName value ++ behind) := by
    have harrow : " => this == ".toList.head? = some ' ' := rfl
    unfold Operation.getterText
    generalize "bool get ".toList = opening
    generalize " => this == ".toList = arrow at harrow
    refine ⟨arrow ++ enumName ++ ['.'] ++ value ++ [';'], ?_, by simp only [List.append_assoc]⟩
    simp only [List.head?_append, harrow, Option.some_or]
    decide
  have hname : (Naming.getterName value ++ behind).takeWhile isNameChar = Naming.getterName value :=
    takeWhile_append_exact (Template.isNameChar_getterName hvalue) hspace
  have hfound : List.isPrefixOf? "bool get ".toList (Operation.getterText enumName value) =
      some (Naming.getterName value ++ behind) := isPrefixOf?_eq_some_iff.2 htext.symm
  have hletter : (Operation.getterText enumName value).dropWhile (· == ' ') =
      Operation.getterText enumName value := by rw [htext]; rfl
  have hindent : (memberIndent ++ Operation.getterText enumName value).dropWhile (· == ' ') =
      (Operation.getterText enumName value).dropWhile (· == ' ') :=
    List.dropWhile_append_of_pos (forall_mem_of_all (by decide))
  rw [getterOf?, getterOf?, hindent, hletter, hfound, Option.map_some, hname]
  exact ⟨rfl, rfl⟩

/-- The code of the getters declares those of the values. -/
theorem gettersOf_memberText (e : Enumeration) :
    gettersOf (memberText e .getters) = e.values.map Naming.getterName := by
  have hvalues : ∀ value ∈ e.values, ∀ c ∈ value, isNameChar c = true := fun value hvalue =>
    isNameChar_of_isValueName (e.isValueName_values value hvalue)
  rw [gettersOf, lines_memberText e (by decide)]
  cases hlist : e.values with
  | nil => exact absurd hlist e.values_ne_nil
  | cons first values =>
    rw [hlist, List.forall_mem_cons] at hvalues
    rw [Operation.codeLines, List.map_cons]
    dsimp only
    rw [List.filterMap_cons, (getterOf?_getterText e.name hvalues.1).1, List.filterMap_map,
      List.filterMap_map, List.map_cons, ← List.filterMap_eq_map]
    exact congrArg _ (List.filterMap_congr fun value hvalue =>
      (getterOf?_getterText e.name (hvalues.2 value hvalue)).2)

theorem parameterOf_parameterText (type : String) {value : Text}
    (hvalue : ∀ c ∈ value, isNameChar c = true) :
    parameterOf (Operation.parameterText type value) = value := by
  rw [parameterOf, Operation.parameterText, List.dropLast_concat, List.rtakeWhile,
    List.reverse_append, List.reverse_append, takeWhile_append_exact,
    List.reverse_reverse]
  · exact fun c hc => hvalue c (List.mem_reverse.1 hc)
  · rfl

/-- The code with a fallback declares a parameter for each value and the fallback. -/
theorem parametersOf_memberText (e : Enumeration) :
    parametersOf (memberText e .maybeWhen) = e.values ++ [Naming.fallbackParameter] := by
  let fallback : Text := "    required T Function() orElse,".toList
  have hlines : ∃ rest, (memberText e .maybeWhen).lines.tail =
      (e.values.map (Operation.parameterText "T Function()?") ++ [fallback]) ++
        "  \x7d) =>".toList :: rest := by
    rw [lines_memberText e (by decide), Operation.codeLines, Operation.dispatchLines,
      Operation.methodLines]
    exact ⟨_, by simp only [List.append_assoc, List.cons_append, List.nil_append, List.tail_cons];
                 rfl⟩
  obtain ⟨rest, hlines⟩ := hlines
  have hparameters : ∀ line ∈ e.values.map (Operation.parameterText "T Function()?") ++ [fallback],
      (line.getLast? == some ',') = true := by
    rw [List.forall_mem_append, List.forall_mem_map, List.forall_mem_singleton]
    refine ⟨fun value _ => ?_, by decide⟩
    rw [Operation.parameterText, List.getLast?_concat]
    decide
  have hnames : ∀ value ∈ e.values,
      parameterOf (Operation.parameterText "T Function()?" value) = value := fun value hvalue =>
    parameterOf_parameterText _ (isNameChar_of_isValueName (e.isValueName_values value hvalue))
  rw [parametersOf, hlines, List.takeWhile_append_of_pos hparameters,
    List.takeWhile_cons_of_neg (by decide), List.append_nil, List.map_append, List.map_map,
    List.map_congr_left (f := parameterOf ∘ Operation.parameterText "T Function()?") hnames,
    List.map_id']
  rfl

end Generator

/-! ### Warnings -/

namespace Enumeration

/-- There are warnings unless the getters of the values and their names beside
    the fallback are pairwise distinct, and no value is reserved. -/
theorem warnings_eq_nil_iff (e : Enumeration) : e.warnings = [] ↔
    (e.values.map Naming.getterName).Nodup ∧ (e.values ++ [Naming.fallbackParameter]).Nodup ∧
      ∀ value ∈ e.values, value ∉ Naming.reservedWords := by
  have hvalue : ∀ value, e.valueWarnings value = [] ↔
      value ∉ Naming.reservedWords ∧ value ≠ Naming.fallbackParameter := fun value => by
    rw [valueWarnings, List.append_eq_nil_iff]
    split_ifs <;> simp_all
  have hparameters : (e.values ++ [Naming.fallbackParameter]).Nodup ↔
      e.values.Nodup ∧ ∀ value ∈ e.values, value ≠ Naming.fallbackParameter := by
    simp only [List.nodup_append, List.forall_mem_singleton, List.nodup_singleton, true_and]
  rw [warnings, List.append_eq_nil_iff, List.append_eq_nil_iff, List.map_eq_nil_iff,
    List.map_eq_nil_iff, List.flatMap_eq_nil_iff, repeated_eq_nil_iff,
    Naming.collisions_eq_nil_iff, hparameters]
  simp only [hvalue]
  constructor
  · rintro ⟨⟨hnodup, hgetters⟩, hnames⟩
    exact ⟨(List.nodup_map_iff_inj_on hnodup).2 hgetters, ⟨hnodup, fun value hmem =>
      (hnames value hmem).2⟩, fun value hmem => (hnames value hmem).1⟩
  · rintro ⟨hgetters, ⟨hnodup, hfallback⟩, hreserved⟩
    exact ⟨⟨hnodup, (List.nodup_map_iff_inj_on hnodup).1 hgetters⟩, fun value hmem =>
      ⟨hreserved value hmem, hfallback value hmem⟩⟩

/-- The checks of names are sound and complete. The repeated values are those
    that occur twice or more, in the order of first occurrence. Distinct values
    stand in one group exactly where they have the same getter, that is, where
    they differ only in the case of their first letter, and every group is a pair.
    There are no warnings exactly where the names that the code declares, of
    getters and of parameters, are pairwise distinct and no value is reserved. -/
theorem nameChecks (settings : Settings) (e : Enumeration) :
    let generator : Generator := { settings }
    ((∀ value, value ∈ e.repeated ↔ 2 ≤ e.values.count value) ∧
      e.repeated.Pairwise (e.values.idxOf · < e.values.idxOf ·) ∧
      (e.repeated ≠ [] ↔ e.hasRepeats = true)) ∧
    ((∀ value ∈ e.values, ∀ other ∈ e.values, value ≠ other →
        ((∃ group ∈ Naming.collisions e.values, value ∈ group.2 ∧ other ∈ group.2) ↔
          Naming.getterName value = Naming.getterName other) ∧
        (Naming.getterName value = Naming.getterName other ↔ Naming.DifferInCase value other)) ∧
      ∀ group ∈ Naming.collisions e.values, group.2.Nodup ∧ group.2.length = 2 ∧
        ∀ value ∈ group.2, value ∈ e.values ∧ Naming.getterName value = group.1) ∧
    ∃ getters maybeWhen, generator.member e .getters = .ok getters ∧
      generator.member e .maybeWhen = .ok maybeWhen ∧
      Generator.gettersOf getters = e.values.map Naming.getterName ∧
      Generator.parametersOf maybeWhen = e.values ++ [Naming.fallbackParameter] ∧
      (e.warnings = [] ↔ (Generator.gettersOf getters).Nodup ∧
        (Generator.parametersOf maybeWhen).Nodup ∧
          ∀ value ∈ e.values, value ∉ Naming.reservedWords) := by
  intro generator
  refine ⟨⟨fun value => e.mem_repeated_iff, e.pairwise_repeated, ?_⟩, ⟨?_, ?_⟩, ?_⟩
  · rw [ne_eq, repeated_eq_nil_iff, hasRepeats_iff]
  · intro value hvalue other hother hne
    exact ⟨Naming.exists_mem_collisions_iff hvalue hother hne, Naming.getterName_eq_iff hne⟩
  · rintro ⟨getter, group⟩ hgroup
    have hlength := Naming.length_of_mem_collisions hgroup
    obtain ⟨rfl, -⟩ := Naming.mem_collisions_iff.1 hgroup
    exact ⟨Naming.nodup_sharers _ _, hlength, fun value => Naming.mem_sharers_iff.1⟩
  · refine ⟨_, _, Generator.member_eq_ok rfl e (by decide), Generator.member_eq_ok rfl e (by decide),
      Generator.gettersOf_memberText e, Generator.parametersOf_memberText e, ?_⟩
    rw [Generator.gettersOf_memberText, Generator.parametersOf_memberText]
    exact e.warnings_eq_nil_iff

end Enumeration

end EnumCompanion
