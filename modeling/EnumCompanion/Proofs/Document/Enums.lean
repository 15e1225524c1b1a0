import Mathlib.Data.List.Forall2
import EnumCompanion.Proofs.Declaration.Extent
import EnumCompanion.Proofs.Document.Action

/-!
# Enums beside a site

Code that is put in apart from all declarations leaves the enums of a text as
they are: each keeps its name and its values, and its place before the site or
behind it.

* `Enumeration.Spans.anchor_eq`: the end of an enum;
* `Site.Keeps`, `Site.forall₂_keeps`: the enums of a text before and after;
* `Enumeration.Moves`, `Site.Matches.moves`: the same with their spans;
* `Enumeration.declared`, `Site.map_declared_of_forall₂`: they declare what they did;
* `Site.exists_find?_of_forall₂`: the first enum of a name stays the first.
-/

namespace EnumCompanion

open Text Mask Block

/-- The place from which the block of an enum is looked for is the end of its
    declaration, or that of the text. -/
theorem Enumeration.anchor_of_summary {text : Text} {e : Enumeration} {reading : Reading}
    (h : e.summary = reading.summary text) (hstop : reading.stop ≤ text.length) :
    e.name = reading.name ∧ e.values = reading.values ∧ e.anchor text = reading.stop := by
  simp only [summary, Reading.summary, Prod.mk.injEq] at h
  refine ⟨h.1, h.2.1, ?_⟩
  rw [anchor, h.2.2, Option.elim_some, place]
  dsimp only [Span.ofOffsets]
  omega

namespace Enumeration.Spans

variable {e : Enumeration} {text : Text} {allowRepeats : Bool} {start stop : Nat}

/-- The place from which the block of an enum is looked for is its end. -/
theorem anchor_eq (h : e.Spans text allowRepeats start stop) : e.anchor text = stop := by
  rw [anchor, h.span, Option.elim_some]
  exact (place_natCast text stop).trans (Nat.min_eq_left h.stop_le)

/-- An enum ends with its brace. -/
theorem getLast?_take_anchor (h : e.Spans text allowRepeats start stop) :
    (text.take (e.anchor text)).getLast? = some '}' := by
  have hlast := h.last
  rw [slice_natCast, List.getLast?_drop] at hlast
  rw [h.anchor_eq]
  split_ifs at hlast
  exact hlast

end Enumeration.Spans

/-- What an enum declares. -/
def Enumeration.declared (e : Enumeration) : Text × List Text := (e.name, e.values)

/-- Two lists are related where they are the images of one list. -/
theorem forall₂_of_map_eq {α β γ δ ε : Type} {R : α → β → Prop} {f : α → δ} {f' : β → ε} {g : γ → δ}
    {g' : γ → ε} {l : List α} {l' : List β} {origin : List γ} (h : l.map f = origin.map g)
    (h' : l'.map f' = origin.map g')
    (hR : ∀ c ∈ origin, ∀ a b, f a = g c → f' b = g' c → R a b) : List.Forall₂ R l l' := by
  induction origin generalizing l l' with
  | nil =>
    rw [List.map_eq_nil_iff.1 h, List.map_eq_nil_iff.1 h']
    exact .nil
  | cons c origin ih =>
    obtain ⟨a, l, rfl, hhead, htail⟩ := List.map_eq_cons_iff.1 h
    obtain ⟨b, l', rfl, hhead', htail'⟩ := List.map_eq_cons_iff.1 h'
    exact .cons (hR c List.mem_cons_self a b hhead hhead')
      (ih htail htail' fun d hd => hR d (List.mem_cons_of_mem _ hd))

/-- An enum of a text as it is read with code put in: with its name and its
    values, before the site or moved with the text behind it. -/
structure Site.Keeps (site : Site) (code : Text) (e e' : Enumeration) : Prop where
  name : e'.name = e.name
  values : e'.values = e.values
  anchor : e.anchor site.text ≤ site.before.length ∧
      e'.anchor (site.changed code) = e.anchor site.text ∨
    site.before.length + site.part.length < e.anchor site.text ∧
      e'.anchor (site.changed code) + site.part.length =
        e.anchor site.text + (site.patch code).length

/-- An enum of a text as it is read with a part of the text, between two places,
    exchanged for another one: with the same span if it is before the part, and
    with one moved by a distance if it is behind it. -/
structure Enumeration.Moves (changed : Text) (start stop : Nat) (distance : Int)
    (e e' : Enumeration) : Prop where
  declared : e'.declared = e.declared
  span : ∃ span ∈ e.span, span.stop ≤ start ∧ e'.span = some span ∨
    stop ≤ span.start ∧ e'.span = some (span.shifted distance changed)

namespace Site

variable {site : Site} {container enumName inner : Text}

/-- An enum of a text and the same one with code put in, by what is read of them
    in the text before the site or in the text behind it. -/
inductive Matches (site : Site) (code : Text) (e e' : Enumeration) : Prop where
  | before (reading : Reading) (lt : reading.start < reading.stop)
      (le : reading.stop ≤ site.before.length) (summary : e.summary = reading.summary site.text)
      (summary' : e'.summary = reading.summary (site.changed code))
  | behind (reading : Reading) (lt : reading.start < reading.stop)
      (le : reading.stop ≤ site.behind.length)
      (summary : e.summary = (reading.moved (site.before.length + site.part.length)).summary site.text)
      (summary' : e'.summary =
        (reading.moved (site.before.length + (site.patch code).length)).summary (site.changed code))

theorem length_text : site.text.length =
    site.before.length + site.part.length + site.behind.length := by
  rw [text, List.length_append, List.length_append, Nat.add_assoc]

theorem length_changed (code : Text) : (site.changed code).length =
    site.before.length + (site.patch code).length + site.behind.length := by
  rw [changed, List.length_append, List.length_append, Nat.add_assoc]

/-- Where all declarations are read as before, the enums match. -/
theorem Retains.forall₂_matches {code : Text} {allowRepeats : Bool}
    (h : site.Retains code allowRepeats) :
    List.Forall₂ (site.Matches code) (parseAll site.text allowRepeats)
      (parseAll (site.changed code) allowRepeats) := by
  have hsummary := map_summary_parseAll site.text allowRepeats
  have hsummary' := map_summary_parseAll (site.changed code) allowRepeats
  rw [h.text, List.map_append, List.map_map] at hsummary
  rw [h.changed, List.map_append, List.map_map] at hsummary'
  obtain ⟨first, second, hparse, hfirst, hsecond⟩ := List.map_eq_append_iff.1 hsummary
  obtain ⟨first', second', hparse', hfirst', hsecond'⟩ := List.map_eq_append_iff.1 hsummary'
  rw [hparse, hparse']
  refine List.rel_append (forall₂_of_map_eq hfirst hfirst' ?_)
    (forall₂_of_map_eq hsecond hsecond' ?_)
  · intro reading hmem e e' he he'
    obtain ⟨-, hlt, hle⟩ := stop_le_of_mem_readingsFrom hmem
    rw [length_masked, Nat.zero_add] at hle
    exact .before reading hlt hle he he'
  · intro reading hmem e e' he he'
    obtain ⟨-, hlt, hle⟩ := stop_le_of_mem_readingsFrom hmem
    rw [length_masked, Nat.zero_add] at hle
    exact .behind reading hlt hle he he'

/-- Enums that match are kept. -/
theorem Matches.keeps {code : Text} {e e' : Enumeration} (h : site.Matches code e e') :
    site.Keeps code e e' := by
  have hlength := site.length_text
  have hlength' := site.length_changed code
  cases h with
  | before reading hlt hle he he' =>
    obtain ⟨hname, hvalues, hanchor⟩ := Enumeration.anchor_of_summary he (by omega)
    obtain ⟨hname', hvalues', hanchor'⟩ := Enumeration.anchor_of_summary he' (by omega)
    exact ⟨hname'.trans hname.symm, hvalues'.trans hvalues.symm, .inl (by omega)⟩
  | behind reading hlt hle he he' =>
    obtain ⟨hname, hvalues, hanchor⟩ := @Enumeration.anchor_of_summary _ _ (reading.moved _) he
      (by simp only [Reading.moved]; omega)
    obtain ⟨hname', hvalues', hanchor'⟩ := @Enumeration.anchor_of_summary _ _ (reading.moved _) he'
      (by simp only [Reading.moved]; omega)
    simp only [Reading.moved] at hanchor hanchor'
    exact ⟨hname'.trans hname.symm, hvalues'.trans hvalues.symm, .inr (by omega)⟩

/-- Enums that match have the same span, or one moved with the text behind the
    site. -/
theorem Matches.moves {code : Text} {e e' : Enumeration} (h : site.Matches code e e') :
    e.Moves (site.changed code) site.before.length (site.before.length + site.part.length)
      ((site.patch code).length - site.part.length) e' := by
  cases h with
  | before reading hlt hle he he' =>
    simp only [Enumeration.summary, Reading.summary, Prod.mk.injEq] at he he'
    obtain ⟨hname, hvalues, hspan⟩ := he
    obtain ⟨hname', hvalues', hspan'⟩ := he'
    refine ⟨?_, _, hspan, .inl ⟨Int.ofNat_le.2 hle, ?_⟩⟩
    · rw [Enumeration.declared, Enumeration.declared, hname, hvalues, hname', hvalues']
    · rw [hspan', changed, text, Span.ofOffsets_append (by omega) hle,
        Span.ofOffsets_append (by omega) hle]
  | behind reading hlt hle he he' =>
    simp only [Enumeration.summary, Reading.summary, Reading.moved, Prod.mk.injEq] at he he'
    obtain ⟨hname, hvalues, hspan⟩ := he
    obtain ⟨hname', hvalues', hspan'⟩ := he'
    refine ⟨?_, _, hspan, .inr ⟨?_, ?_⟩⟩
    · rw [Enumeration.declared, Enumeration.declared, hname, hvalues, hname', hvalues']
    · exact Int.ofNat_le.2 (Nat.le_add_right _ _)
    · rw [hspan', Span.shifted]
      congr 2 <;> simp only [Span.ofOffsets] <;> omega

/-- Where code is put in apart from all declarations, every enum is kept. -/
theorem forall₂_keeps (hcontainer : isTypeName container = true)
    (henum : isTypeName enumName = true) (hinner : Tame [] [] inner) (h : site.IsSound)
    (hapart : Apart site.text.masked site.before.length (site.before.length + site.part.length))
    (allowRepeats : Bool) :
    List.Forall₂ (site.Keeps (blockText container enumName inner)) (parseAll site.text allowRepeats)
      (parseAll (site.changed (blockText container enumName inner)) allowRepeats) :=
  (readings_changed hcontainer henum hinner h hapart allowRepeats).forall₂_matches.imp
    fun _ _ hmatches => hmatches.keeps

/-- Enums that are kept declare what they did. -/
theorem map_declared_of_forall₂ {code : Text} {enums enums' : List Enumeration}
    (h : List.Forall₂ (site.Keeps code) enums enums') :
    enums'.map Enumeration.declared = enums.map Enumeration.declared := by
  induction h with
  | nil => rfl
  | cons hkeeps _ ih =>
    rw [List.map_cons, List.map_cons, ih, Enumeration.declared, Enumeration.declared, hkeeps.name,
      hkeeps.values]

/-- The first enum of a name is kept as the first of its name. -/
theorem exists_find?_of_forall₂ {code name : Text} {enums enums' : List Enumeration}
    (h : List.Forall₂ (site.Keeps code) enums enums') {e : Enumeration}
    (he : (enums.find? fun e => e.name == name) = some e) :
    ∃ e', (enums'.find? fun e => e.name == name) = some e' ∧ site.Keeps code e e' := by
  induction h with
  | nil => exact absurd he.symm (Option.some_ne_none _)
  | @cons first first' _ _ hkeeps _ ih =>
    rw [List.find?_cons] at he
    rw [List.find?_cons, hkeeps.name]
    cases hname : first.name == name with
    | true =>
      rw [hname] at he
      rw [← Option.some.inj he]
      exact ⟨first', rfl, hkeeps⟩
    | false =>
      rw [hname] at he
      exact ih he

end Site

end EnumCompanion
