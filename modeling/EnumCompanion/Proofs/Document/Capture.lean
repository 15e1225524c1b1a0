import EnumCompanion.Document.Capture
import EnumCompanion.Proofs.Declaration.Extent

/-!
# What is captured of a document

The lines that are captured of a document, and the rest of it that is read when
they are too few, are parts of its text. What is read of a part has in the whole
text the extent that it has there, moved by what stands before the part.

* `exists_capture_eq`: what is captured stands in the text;
* `Enumeration.Spans.shifted`: extents in a text around a part of it;
* `exists_spans`: what is read of a text in any way has exact extent.
-/

namespace EnumCompanion

open Text

variable {text : Text} {allowRepeats : Bool} {e : Enumeration}

/-- In a text around it, what is read has the extent moved by what comes before. -/
theorem Enumeration.Spans.shifted {before part behind : Text} {start stop : Nat}
    (h : e.Spans part allowRepeats start stop) :
    (e.shifted before.length (before ++ (part ++ behind))).Spans (before ++ (part ++ behind))
      allowRepeats (before.length + start) (before.length + stop) := by
  have hslice : (before ++ (part ++ behind)).slice (before.length + start : Nat)
      (before.length + stop : Nat) = part.slice start stop := by
    rw [slice_natCast, slice_natCast, List.take_length_add_append, List.drop_length_add_append,
      List.take_append_of_le_length h.stop_le]
  refine ⟨?_, by have := h.start_lt; omega, ?_, hslice ▸ h.head, hslice ▸ h.last, ?_,
    Enumeration.ofNames_eq_ok _⟩
  · rw [Enumeration.shifted, h.span, Option.map_some, Span.shifted]
    simp only [Span.ofOffsets, Int.natCast_add, Int.add_comm]
  · have := h.stop_le
    rw [List.length_append, List.length_append]
    omega
  · rw [hslice]
    exact h.parse

/-- What is captured from a line on stands in the text, from the place where it
    starts. -/
theorem exists_capture_eq {line : Int} {captured : Text} {start : Nat}
    (h : capture? text line = some (captured, start)) :
    ∃ before behind, text = before ++ (captured ++ behind) ∧ before.length = start := by
  rw [capture?] at h
  split_ifs at h
  split at h
  · next content hcontent =>
    split_ifs at h
    obtain ⟨rfl, rfl⟩ := Prod.mk.inj (Option.some.inj h)
    obtain ⟨hlt, -⟩ := List.getElem?_eq_some_iff.1 hcontent
    have hne : text.lines.drop line.toNat ≠ [] := by
      rw [ne_eq, List.drop_eq_nil_iff]
      omega
    obtain ⟨behind, hbehind⟩ := unlines_take_prefix (text.lines.drop line.toNat)
      (captureLength 0 false (text.masked.lines.drop line.toNat))
    refine ⟨_, behind, ?_, rfl⟩
    rw [hbehind, ← unlines_append _ hne, List.take_append_drop, unlines_lines]
  · exact absurd h (Option.some_ne_none _).symm

/-- What is read first has exact extent. -/
theorem exists_spans_of_parse (h : parse text allowRepeats = .ok e) :
    ∃ start stop : Nat, e.Spans text allowRepeats start stop :=
  exists_spans_of_mem_parseAll (List.mem_of_mem_head? (head?_parseAll h))

/-- What is read from a line on is read first of what is captured, or else of the
    rest of the text. -/
theorem parse_of_readCapture {line : Int} {captured : Text} {start : Nat}
    (h : (readCapture text line captured start allowRepeats).value = .ok e) :
    parse captured allowRepeats = .ok e ∨ parse (text.drop start) allowRepeats = .ok e := by
  rw [readCapture, Logged.value_bind, value_parseLogged] at h
  cases hparse : parse captured allowRepeats with
  | ok other =>
    rw [hparse] at h
    exact .inl h
  | error failure =>
    rw [hparse] at h
    dsimp only at h
    split_ifs at h
    exact .inr h

/-- What is read on a line has exact extent. -/
theorem exists_spans_of_enumAtLine {line : Int}
    (h : (enumAtLine text line allowRepeats).value = .ok e) :
    ∃ start stop : Nat, e.Spans text allowRepeats start stop := by
  rw [enumAtLine] at h
  cases hcapture : capture? text line with
  | none =>
    rw [hcapture] at h
    cases h
  | some capture =>
    obtain ⟨captured, start⟩ := capture
    rw [hcapture] at h
    obtain ⟨before, behind, htext, rfl⟩ := exists_capture_eq hcapture
    dsimp only at h
    rw [Logged.value_bind, Logged.value_pure] at h
    cases hread : (readCapture text line captured before.length allowRepeats).value with
    | error failure =>
      rw [hread] at h
      cases h
    | ok other =>
      rw [hread] at h
      obtain rfl := Except.ok.inj h
      rcases parse_of_readCapture hread with hparse | hparse
      · obtain ⟨start, stop, hspans⟩ := exists_spans_of_parse hparse
        subst htext
        exact ⟨_, _, hspans.shifted⟩
      · -- Nothing stands behind the rest of the text.
        obtain ⟨start, stop, hspans⟩ := exists_spans_of_parse hparse
        rw [htext, List.drop_left] at hspans
        have hshifted := @Enumeration.Spans.shifted allowRepeats other before (captured ++ behind) []
          start stop hspans
        rw [List.append_nil, ← htext] at hshifted
        exact ⟨_, _, hshifted⟩

/-- What is read of a text has exact extent, whether it is read first, among all
    others or on a line. -/
theorem exists_spans (h : parse text allowRepeats = .ok e ∨ e ∈ parseAll text allowRepeats ∨
      ∃ line, (enumAtLine text line allowRepeats).value = .ok e) :
    ∃ start stop : Nat, e.Spans text allowRepeats start stop := by
  rcases h with hparse | hmem | ⟨line, hline⟩
  · exact exists_spans_of_parse hparse
  · exact exists_spans_of_mem_parseAll hmem
  · exact exists_spans_of_enumAtLine hline

/-- An enum behind a class, with a brace in a comment. -/
def shadeOnLine : Text := "class C \x7b\x7d\nenum Shade \x7b\n  dark, // \x7d\n  light\n\x7d\n".toList

theorem exists_spans_shadeOnLine : ∃ e, (enumAtLine shadeOnLine 1 false).value = .ok e ∧
    ∃ start stop : Nat, e.Spans shadeOnLine false start stop := by
  have hok : (enumAtLine shadeOnLine 1 false).value.toOption.isSome = true := by decide +kernel
  cases hread : (enumAtLine shadeOnLine 1 false).value with
  | error failure =>
    rw [hread] at hok
    exact Bool.noConfusion hok
  | ok e => exact ⟨e, rfl, exists_spans (.inr (.inr ⟨1, hread⟩))⟩

end EnumCompanion
