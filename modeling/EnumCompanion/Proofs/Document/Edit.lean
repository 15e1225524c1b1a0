import EnumCompanion.Document.Edit
import Mathlib

/-!
# Edits made at once

Edits can be made at once if each is one of a run of the text and no two of them
overlap. Then their runs cut the text into pieces: what stands between the runs
stays, and each run gives way to the new text of its edit. The same comes out
when the edits are made in place one after another, the last one first, so that
no offset moves before it is used.

* `Edit.Fits`, `Edit.Overlaps`: what each edit must be, and what no two may do;
* `Edit.Arranges`: edits in the order of their places;
* `firstFault?_ordered_eq_none_iff`: edits without a fault;
* `Weaves`, `weaves_iff`: a text cut into pieces by its edits;
* `Weaves.foldr_splice`: edits made in place, the last one first;
* `applyEdits_simultaneous`: what becomes of a text.
-/

namespace EnumCompanion

namespace Edit

/-! ### Places -/

/-- The ends of the run that is replaced. -/
def place (edit : Edit) : Int × Int := (edit.start, edit.stop)

/-- An edit of a run of a text. -/
def Fits (edit : Edit) (text : Text) : Prop :=
  0 ≤ edit.start ∧ edit.start ≤ edit.stop ∧ edit.stop ≤ text.length

/-- Two edits neither of which ends at or before the start of the other. -/
def Overlaps (a b : Edit) : Prop := b.start < a.stop ∧ a.start < b.stop

theorem not_overlaps_comm {a b : Edit} (h : ¬a.Overlaps b) : ¬b.Overlaps a :=
  fun hover => h ⟨hover.2, hover.1⟩

theorem le_iff {a b : Edit} :
    a.le b = true ↔ a.start < b.start ∨ a.start = b.start ∧ a.stop ≤ b.stop := by
  simp [le]

theorem le_trans (a b c : Edit) (hab : a.le b = true) (hbc : b.le c = true) : a.le c = true := by
  rw [le_iff] at *
  omega

theorem le_total (a b : Edit) : (a.le b || b.le a) = true := by
  rw [Bool.or_eq_true, le_iff, le_iff]
  omega

theorem place_eq_of_le {a b : Edit} (hab : a.le b = true) (hba : b.le a = true) :
    a.place = b.place := by
  rw [le_iff] at hab hba
  exact Prod.ext (by simp only [place]; omega) (by simp only [place]; omega)

theorem le_of_place_eq {a b : Edit} (h : a.place = b.place) : a.le b = true := by
  obtain ⟨hstart, hstop⟩ := Prod.mk.inj h
  exact le_iff.2 (.inr ⟨hstart, Int.le_of_eq hstop⟩)

/-! ### Order -/

/-- Edits in the order of their places, where those at one place stay in the order
    in which they are given. -/
structure Arranges (arranged edits : List Edit) : Prop where
  perm : arranged.Perm edits
  sorted : arranged.Pairwise fun a b => a.le b = true
  stable : ∀ place, arranged.filter (·.place = place) = edits.filter (·.place = place)

theorem arranges_ordered (edits : List Edit) : Arranges (ordered edits) edits where
  perm := List.mergeSort_perm edits le
  sorted := List.pairwise_mergeSort le_trans le_total edits
  stable place := by
    -- The edits at the place are a sorted part of both lists, and all of them.
    have hsorted : (edits.filter (·.place = place)).Pairwise fun a b => a.le b = true :=
      List.pairwise_of_forall_mem_list fun a ha b hb => le_of_place_eq
        ((of_decide_eq_true (List.mem_filter.1 ha).2).trans
          (of_decide_eq_true (List.mem_filter.1 hb).2).symm)
    have hsub := (List.sublist_mergeSort le_trans le_total hsorted List.filter_sublist).filter
      fun edit : Edit => edit.place = place
    rw [List.filter_filter] at hsub
    simp only [Bool.and_self] at hsub
    exact (hsub.eq_of_length
      ((List.mergeSort_perm edits le).filter _).length_eq.symm).symm

/-- Edits at different places have one order, however they are given. -/
theorem ordered_eq_of_perm {edits edits' : List Edit} (hperm : edits'.Perm edits)
    (hplaces : (edits.map place).Nodup) : ordered edits' = ordered edits := by
  have harranged := arranges_ordered edits
  have harranged' := arranges_ordered edits'
  refine ((harranged'.perm.trans hperm).trans harranged.perm.symm).eq_of_pairwise
    (fun a b ha hb hab hba => ?_) harranged'.sorted harranged.sorted
  exact List.inj_on_of_nodup_map hplaces (hperm.mem_iff.1 (harranged'.perm.mem_iff.1 ha))
    (harranged.perm.mem_iff.1 hb) (place_eq_of_le hab hba)

/-! ### Faults -/

/-- There is no fault exactly where each edit has its run within the text, behind
    those of all edits before it. -/
theorem firstFault?_eq_none_iff {length : Nat} {previous : Int} {edits : List Edit} :
    firstFault? length previous edits = none ↔
      (∀ edit ∈ edits, previous ≤ edit.start ∧ edit.start ≤ edit.stop ∧ edit.stop ≤ length) ∧
        edits.Pairwise fun a b => a.stop ≤ b.start := by
  induction edits generalizing previous with
  | nil => exact iff_of_true rfl ⟨List.forall_mem_nil _, .nil⟩
  | cons edit edits ih =>
    rw [firstFault?, List.forall_mem_cons, List.pairwise_cons]
    split_ifs with hfault
    · refine iff_of_false nofun fun h => ?_
      obtain ⟨hstart, hstop, hend⟩ := h.1.1
      omega
    · rw [ih]
      constructor
      · rintro ⟨hrest, hpairs⟩
        refine ⟨⟨by omega, fun other hother => ?_⟩, fun other hother => (hrest other hother).1, hpairs⟩
        have := hrest other hother
        omega
      · rintro ⟨⟨-, hrest⟩, hbehind, hpairs⟩
        exact ⟨fun other hother => ⟨hbehind other hother, (hrest other hother).2⟩, hpairs⟩

/-- Edits have no fault exactly if each is one of a run of the text and no two
    overlap. -/
theorem firstFault?_ordered_eq_none_iff {text : Text} {edits : List Edit} :
    firstFault? text.length 0 (ordered edits) = none ↔
      (∀ edit ∈ edits, edit.Fits text) ∧ edits.Pairwise fun a b => ¬a.Overlaps b := by
  have harranged := arranges_ordered edits
  rw [firstFault?_eq_none_iff]
  have hmem : (∀ edit ∈ ordered edits, 0 ≤ edit.start ∧ edit.start ≤ edit.stop ∧
      edit.stop ≤ text.length) ↔ ∀ edit ∈ edits, edit.Fits text :=
    forall_congr' fun edit => by rw [harranged.perm.mem_iff]; rfl
  rw [hmem, ← harranged.perm.pairwise_iff not_overlaps_comm]
  refine and_congr_right fun hfits => ?_
  have hfits' : ∀ edit ∈ ordered edits, edit.Fits text := fun edit hedit =>
    hfits edit (harranged.perm.mem_iff.1 hedit)
  constructor
  · exact List.Pairwise.imp fun hbehind hover => absurd hover.1 (Int.not_lt.2 hbehind)
  · intro hapart
    refine (harranged.sorted.and hapart).imp_of_mem fun {a b} ha hb h => ?_
    obtain ⟨hle, hover⟩ := h
    -- The later one cannot end before the earlier one but where both are empty.
    have hfit := hfits' a ha
    have hfit' := hfits' b hb
    rw [le_iff] at hle
    simp only [Overlaps, Fits] at hover hfit hfit'
    omega

end Edit

/-! ### Pieces -/

/-- A text from a place on, and what becomes of it when edits behind the place are
    made at once: the gaps before their runs and behind the last one stay, and each
    run gives way to a new text. -/
inductive Weaves : Nat → List Edit → Text → Text → Prop where
  | rest (place : Nat) (text : Text) : Weaves place [] text text
  | run {place : Nat} {gap run text changed : Text} {edit : Edit} {edits : List Edit}
      (hstart : edit.start = (place + gap.length : Nat))
      (hstop : edit.stop = (place + gap.length + run.length : Nat))
      (h : Weaves (place + gap.length + run.length) edits text changed) :
      Weaves place (edit :: edits) (gap ++ (run ++ text)) (gap ++ (edit.newText ++ changed))

/-- Edits without a fault cut a text into pieces in one way. -/
theorem weaves_iff {place : Nat} {edits : List Edit} {text changed : Text} :
    Weaves place edits text changed ↔
      Edit.firstFault? (place + text.length) place edits = none ∧
        changed = weave place text edits := by
  constructor
  · intro h
    induction h with
    | rest => exact ⟨rfl, rfl⟩
    | @run place gap run text changed edit edits hstart hstop _ ih =>
      obtain ⟨hfault, rfl⟩ := ih
      simp only [List.length_append]
      refine ⟨?_, ?_⟩
      · rw [Edit.firstFault?, if_neg (by omega), hstop, ← hfault]
        congr 1
        omega
      · rw [weave, hstart, hstop, Int.toNat_natCast, Int.toNat_natCast, Nat.add_sub_cancel_left,
          Nat.add_assoc place, Nat.add_sub_cancel_left, List.take_left, ← List.drop_drop,
          List.drop_left, List.drop_left, List.append_assoc]
  · rintro ⟨hfault, rfl⟩
    induction edits generalizing place text with
    | nil => exact .rest place text
    | cons edit edits ih =>
      rw [Edit.firstFault?] at hfault
      split_ifs at hfault with hbad
      -- The gap and the run are the next pieces of the text.
      obtain ⟨start, hstart⟩ : ∃ start : Nat, edit.start = (place + start : Nat) :=
        ⟨edit.start.toNat - place, by omega⟩
      obtain ⟨count, hstop⟩ : ∃ count : Nat, edit.stop = (place + start + count : Nat) :=
        ⟨edit.stop.toNat - (place + start), by omega⟩
      obtain ⟨gap, rest, rfl, rfl⟩ : ∃ gap rest, text = gap ++ rest ∧ gap.length = start :=
        ⟨text.take start, text.drop start, (List.take_append_drop _ _).symm,
          List.length_take_of_le (by omega)⟩
      rw [List.length_append] at hbad hfault
      obtain ⟨run, text, rfl, rfl⟩ : ∃ run text, rest = run ++ text ∧ run.length = count :=
        ⟨rest.take count, rest.drop count, (List.take_append_drop _ _).symm,
          List.length_take_of_le (by omega)⟩
      rw [weave, hstart, hstop, Int.toNat_natCast, Int.toNat_natCast, Nat.add_sub_cancel_left,
        Nat.add_assoc place, Nat.add_sub_cancel_left, List.take_left, ← List.drop_drop,
        List.drop_left, List.drop_left, List.append_assoc]
      refine .run hstart hstop ?_
      rw [← Nat.add_assoc]
      refine ih ?_
      rw [hstop] at hfault
      rw [← hfault, List.length_append]
      congr 1
      omega

/-- A text with the run of one edit replaced in place. -/
def Edit.splice (edit : Edit) (text : Text) : Text :=
  text.take edit.start.toNat ++ edit.newText ++ text.drop edit.stop.toNat

/-- Edits that are made in place, the last one first, change the text as when they
    are made at once. -/
theorem Weaves.foldr_splice {place : Nat} {edits : List Edit} {text changed : Text}
    (h : Weaves place edits text changed) {before : Text} (hbefore : before.length = place) :
    edits.foldr Edit.splice (before ++ text) = before ++ changed := by
  induction h generalizing before with
  | rest => rfl
  | @run place gap run text changed edit edits hstart hstop _ ih =>
    -- Those behind leave all that stands before the end of the run.
    have hfront := @ih (before ++ (gap ++ run)) (by simp only [List.length_append]; omega)
    simp only [List.append_assoc] at hfront
    rw [List.foldr_cons, hfront, Edit.splice, hstart, hstop, Int.toNat_natCast, Int.toNat_natCast,
      ← hbefore, Nat.add_assoc, List.take_length_add_append, List.take_left,
      List.drop_length_add_append, ← List.drop_drop, List.drop_left, List.drop_left]
    simp only [List.append_assoc]

/-- By how much an edit makes a text longer. -/
def Edit.growth (edit : Edit) : Int := edit.newText.length - (edit.stop - edit.start)

theorem Weaves.length_eq {place : Nat} {edits : List Edit} {text changed : Text}
    (h : Weaves place edits text changed) :
    (changed.length : Int) = text.length + (edits.map Edit.growth).sum := by
  induction h with
  | rest => simp
  | run hstart hstop _ ih =>
    simp only [List.length_append, List.map_cons, List.sum_cons, Edit.growth, hstart, hstop]
    push_cast
    omega

/-! ### Texts -/

/-- Edits are made at once. They are refused exactly if one of them is not one of a
    run of the text or two overlap. Else the text is cut into pieces by them in the
    order of their places, and is the same as when they are made in place from the
    last one on. Edits at different places may be given in any order. -/
theorem applyEdits_simultaneous (text : Text) (edits : List Edit) :
    ((∃ fault, applyEdits text edits = .error fault) ↔
        (∃ edit ∈ edits, ¬edit.Fits text) ∨ ¬edits.Pairwise fun a b => ¬a.Overlaps b) ∧
      Edit.Arranges (Edit.ordered edits) edits ∧
      (∀ changed, applyEdits text edits = .ok changed →
        Weaves 0 (Edit.ordered edits) text changed ∧
          changed = (Edit.ordered edits).foldr Edit.splice text ∧
            (changed.length : Int) = text.length + (edits.map Edit.growth).sum) ∧
      ∀ edits' : List Edit, edits'.Perm edits → (edits.map Edit.place).Nodup →
        applyEdits text edits' = applyEdits text edits := by
  have harranged := Edit.arranges_ordered edits
  refine ⟨?_, harranged, fun changed hchanged => ?_, fun edits' hperm hplaces => ?_⟩
  · have hfault : (∃ fault, applyEdits text edits = .error fault) ↔
        ¬Edit.firstFault? text.length 0 (Edit.ordered edits) = none := by
      rw [applyEdits]
      cases Edit.firstFault? text.length 0 (Edit.ordered edits) with
      | none => exact iff_of_false nofun fun h => h rfl
      | some edit => exact iff_of_true ⟨_, rfl⟩ (Option.some_ne_none edit)
    rw [hfault, Edit.firstFault?_ordered_eq_none_iff, not_and_or]
    simp only [not_forall, exists_prop]
  · obtain ⟨hfault, rfl⟩ : Edit.firstFault? text.length 0 (Edit.ordered edits) = none ∧
        changed = weave 0 text (Edit.ordered edits) := by
      rw [applyEdits] at hchanged
      cases hfault : Edit.firstFault? text.length 0 (Edit.ordered edits) with
      | none =>
        rw [hfault] at hchanged
        exact ⟨rfl, (Except.ok.inj hchanged).symm⟩
      | some edit =>
        rw [hfault] at hchanged
        cases hchanged
    have hweaves : Weaves 0 (Edit.ordered edits) text (weave 0 text (Edit.ordered edits)) :=
      weaves_iff.2 ⟨by rw [Nat.zero_add]; exact hfault, rfl⟩
    refine ⟨hweaves, (@Weaves.foldr_splice _ _ _ _ hweaves [] rfl).symm, ?_⟩
    rw [hweaves.length_eq, (harranged.perm.map _).sum_eq]
  · rw [applyEdits, applyEdits, Edit.ordered_eq_of_perm hperm hplaces]

/-- Edits that meet at their ends, given out of order. -/
def meetingEdits : List Edit :=
  [⟨4, 6, "XY".toList⟩, ⟨2, 2, "+".toList⟩, ⟨2, 4, []⟩, ⟨0, 2, "_".toList⟩]

theorem applyEdits_simultaneous_meetingEdits :
    applyEdits "abcdef".toList meetingEdits = .ok "_+XY".toList ∧
      Weaves 0 (Edit.ordered meetingEdits) "abcdef".toList "_+XY".toList ∧
      applyEdits "abcdef".toList meetingEdits.reverse = .ok "_+XY".toList := by
  have hchanged : applyEdits "abcdef".toList meetingEdits = .ok "_+XY".toList := by
    cbv
  obtain ⟨-, -, hweaves, hperm⟩ := applyEdits_simultaneous "abcdef".toList meetingEdits
  refine ⟨hchanged, (hweaves _ hchanged).1, ?_⟩
  rw [hperm _ (List.reverse_perm _) (by decide), hchanged]

end EnumCompanion
