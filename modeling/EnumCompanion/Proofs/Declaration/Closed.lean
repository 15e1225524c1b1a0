import EnumCompanion.Proofs.Declaration.Part

/-!
# Text behind a declaration

A declaration that is closed ends with a brace that shows. So neither the mask of
the text up to there nor what is read of it depends on the text behind, whatever
comments and literals that opens, whatever words it goes on with, and whatever
else it declares. This holds as well where the declaration is closed and cannot
be read.

* `Mask.exists_closed_of_masked`: the text up to a brace that shows;
* `EndsWithDeclaration.parse_append`: what is read of a text that its declaration ends;
* `parse_append_eq`: what is read of a text whose declaration is closed.
-/

namespace EnumCompanion

open Text Mask

namespace Mask

/-- A text that ends with a closing brace that shows. -/
def IsClosed (part : Text) : Prop := part.masked.getLast? = some '}'

/-- Behind such a text another one is masked as by itself. -/
theorem IsClosed.masked_append {part : Text} (h : IsClosed part) (behind : Text) :
    (part ++ behind).masked = part.masked ++ behind.masked := by
  obtain ⟨hafter, hlast⟩ := after_of_getLast?_eq (by decide) (by decide) (by decide) h
  rw [masked, maskFrom_append (seam_of_getLast? (by rw [hlast]; decide) behind), hafter]
  rfl

/-- The text up to a closing brace that shows. -/
theorem exists_closed_of_masked {text masked more : Text} (h : text.masked = masked ++ '}' :: more) :
    ∃ part behind, text = part ++ behind ∧ part.masked = masked ++ ['}'] ∧ IsClosed part := by
  have hlength := congrArg List.length h
  rw [length_masked, List.length_append, List.length_cons] at hlength
  obtain ⟨before, rest, rfl, hbefore⟩ :=
    exists_append_of_le (show masked.length ≤ text.length by omega)
  -- The brace stands in the text, where no comment goes over it.
  obtain ⟨behind, rfl⟩ :=
    exists_cons_of_maskFrom_append h hbefore.symm (by decide) (by decide)
  have hsplit : before ++ '}' :: behind = (before ++ ['}']) ++ behind := by
    rw [List.append_assoc, List.singleton_append]
  have hlast : (before ++ ['}']).getLast? ≠ some '/' := by
    rw [List.getLast?_concat]
    decide
  rw [hsplit, Text.masked, maskFrom_append (seam_of_getLast? hlast behind),
    show masked ++ '}' :: more = (masked ++ ['}']) ++ more by simp] at h
  have hmasked : (before ++ ['}']).masked = masked ++ ['}'] :=
    (List.append_inj h (by simp [hbefore])).1
  exact ⟨before ++ ['}'], behind, hsplit, hmasked, by rw [IsClosed, hmasked, List.getLast?_concat]⟩

end Mask

variable {part text : Text} {allowRepeats : Bool} {header : Header} {close : Nat}

/-- What is read behind a header depends only on the text up to its closing brace. -/
theorem readDeclaration_append (hstart : header.start ≤ part.length)
    (hclose : closingBrace? part.masked header.brace = some close) (behind masked : Text) :
    readDeclaration (part ++ behind) (part.masked ++ masked) allowRepeats header =
      readDeclaration part part.masked allowRepeats header := by
  obtain ⟨hclose', hlt⟩ := closingBrace?_append_of_eq_some hclose masked
  have hfails : ∀ failure,
      readDeclaration (part ++ behind) (part.masked ++ masked) allowRepeats header =
          .error failure ↔
        readDeclaration part part.masked allowRepeats header = .error failure := fun failure => by
    rw [readDeclaration_eq_error_iff hclose, readDeclaration_eq_error_iff hclose',
      List.take_append_of_le_length (Nat.le_of_lt hlt)]
  cases hread : readDeclaration part part.masked allowRepeats header with
  | error failure => exact (hfails failure).2 hread
  | ok e =>
    have hsummary : readSummary (readDeclaration (part ++ behind) (part.masked ++ masked)
        allowRepeats header) = _ := summary_readDeclaration_append hstart hclose
    rw [hread] at hsummary
    exact eq_ok_of_readSummary hsummary

/-- A text that its first declaration ends: the brace of its first header is
    closed by its last character. -/
structure EndsWithDeclaration (part : Text) (header : Header) (close : Nat) : Prop where
  closes : IsClosed part
  first : firstHeader? part.masked 0 = some header
  close : closingBrace? part.masked header.brace = some close

/-- What is read of such a text is read whatever follows it. -/
theorem EndsWithDeclaration.parse_append (h : EndsWithDeclaration part header close) (behind : Text) :
    parse (part ++ behind) allowRepeats = parse part allowRepeats := by
  have hstands := (firstHeader?_eq_some_iff.1 h.first).1
  have hfirst : firstHeader? (part.masked ++ behind.masked) 0 = some header := by
    have hfirst := h.first
    rw [firstHeader?_of_append part.masked behind.masked] at hfirst
    exact (Option.filter_eq_some_iff.1 hfirst).1
  have hstart : header.start ≤ part.length := by
    rw [← length_masked]
    exact Nat.le_of_lt hstands.start_lt.2
  simp only [parse, h.closes.masked_append, hfirst, h.first]
  exact readDeclaration_append hstart h.close behind behind.masked

/-- A text whose first declaration is closed starts with one that it ends. -/
theorem exists_endsWithDeclaration (hfirst : firstHeader? text.masked 0 = some header)
    (hclose : closingBrace? text.masked header.brace = some close) :
    ∃ part behind, text = part ++ behind ∧ EndsWithDeclaration part header close := by
  have hstands := (firstHeader?_eq_some_iff.1 hfirst).1
  obtain ⟨hlt, hbrace⟩ := List.getElem?_eq_some_iff.1 hstands.getElem?_brace
  obtain ⟨before, rest, hsplit, hbefore⟩ : ∃ before rest,
      text.masked = before ++ '{' :: rest ∧ before.length = header.brace := by
    refine ⟨text.masked.take header.brace, text.masked.drop (header.brace + 1), ?_,
      List.length_take_of_le (Nat.le_of_lt hlt)⟩
    rw [← hbrace, ← List.drop_eq_getElem_cons hlt, List.take_append_drop]
  rw [hsplit, ← hbefore] at hclose
  obtain ⟨body, rest, rfl, hbody, rfl⟩ := closingBrace?_eq_some_iff.1 hclose
  -- The declaration is closed by a brace that shows.
  obtain ⟨part, behind, rfl, hpart, hcloses⟩ := exists_closed_of_masked
    (show text.masked = (before ++ '{' :: body) ++ '}' :: rest by rw [hsplit]; simp)
  have hlength : header.brace < part.masked.length := by
    rw [hpart, ← hbefore]
    simp only [List.length_append, List.length_cons]
    omega
  refine ⟨part, behind, rfl, hcloses, ?_, ?_⟩
  · rw [firstHeader?_of_append part.masked behind.masked, ← hcloses.masked_append, hfirst,
      Option.filter_some, decide_eq_true hlength, if_pos rfl]
  · rw [hpart, ← hbefore]
    rw [List.append_assoc, List.cons_append]
    exact closingBrace?_eq_some_iff.2 ⟨body, [], rfl, hbody, rfl⟩

/-- What is read first of a text with a closed declaration, be it an enumeration
    or a failure, is read of the text whatever follows it. -/
theorem parse_append_eq (h : ∀ failure, parse text allowRepeats = .error failure →
      failure.kind ∈ ["NoValues", "InvalidValue", "DuplicateValues"]) (behind : Text) :
    parse (text ++ behind) allowRepeats = parse text allowRepeats := by
  -- Of a text without a closed declaration, failures of other kinds are read.
  obtain ⟨header, close, hfirst, hclose⟩ : ∃ header close,
      firstHeader? text.masked 0 = some header ∧
        closingBrace? text.masked header.brace = some close := by
    cases hfirst : firstHeader? text.masked 0 with
    | none =>
      have hkind := h .noHeader (by simp only [parse, hfirst])
      exact absurd hkind (by decide)
    | some header =>
      cases hclose : closingBrace? text.masked header.brace with
      | none =>
        have hread : parse text allowRepeats = .error (.unclosed header.name header.start) := by
          simp only [parse, hfirst]
          rw [readDeclaration, hclose]
        exact absurd (h _ hread) (by rw [Failure.kind]; decide)
      | some close => exact ⟨header, close, rfl, hclose⟩
  obtain ⟨part, rest, rfl, hends⟩ := exists_endsWithDeclaration hfirst hclose
  rw [List.append_assoc, hends.parse_append, hends.parse_append]

/-- A declaration with a repeated value, and the start of a word behind it. -/
def repeatingSource : Text := " enum A \x7b b, c, b \x7d enum".toList

/-- What follows it goes on with the word, declares more, and opens a literal and
    a comment: it is refused for the same reason, with the same value and at the
    same place. -/
theorem parse_append_eq_repeatingSource :
    let behind : Text := "B \x7bx\x7d ' /* \x7d \"".toList
    (∀ failure, parse repeatingSource false = .error failure →
        failure.kind ∈ ["NoValues", "InvalidValue", "DuplicateValues"]) ∧
      parse (repeatingSource ++ behind) false =
        .error (.repeatedValues "A".toList ["b".toList] 1) := by
  intro behind
  have hcheck : (match parse repeatingSource false with
      | .error failure => failure == .repeatedValues "A".toList ["b".toList] 1
      | .ok _ => false) = true := by
    decide +kernel
  have hread : parse repeatingSource false = .error (.repeatedValues "A".toList ["b".toList] 1) := by
    split at hcheck
    · next failure hfailure => rw [hfailure, eq_of_beq hcheck]
    · cases hcheck
  have hkind : ∀ failure, parse repeatingSource false = .error failure →
      failure.kind ∈ ["NoValues", "InvalidValue", "DuplicateValues"] := by
    rintro failure hfailure
    obtain rfl := Except.error.inj (hread.symm.trans hfailure)
    rw [Failure.kind]
    decide
  exact ⟨hkind, (parse_append_eq hkind behind).trans hread⟩

end EnumCompanion
