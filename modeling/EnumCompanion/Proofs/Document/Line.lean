import EnumCompanion.Proofs.Declaration.Part
import EnumCompanion.Proofs.Document.Capture
import EnumCompanion.Proofs.Document.Reach

/-!
# The enum on a line

From a line on that starts in code, the first header of the document is read, if
its brace is captured: what is captured has the headers of the document, and a
declaration that is longer is read in the rest of it.

* `readSummary_readCapture`: what is read of captured lines;
* `readSummary_enumAtLine`: what is read from a line on;
* `enumAtLine_declared`: it stands in the code of the document, and on the line
  if any header does;
* `enumAtLine_eq_ok_iff`: when the first one that stands on the line is found.
-/

namespace EnumCompanion

open Text Mask

/-! ### What is read -/

variable {text captured behind : Text} {allowRepeats : Bool} {e : Enumeration}

theorem value_readCapture (text : Text) (line : Int) (captured : Text) (start : Nat)
    (allowRepeats : Bool) : (readCapture text line captured start allowRepeats).value =
      match parse captured allowRepeats with
      | .ok e => .ok e
      | .error failure =>
        if failure.isUnclosed then parse (text.drop start) allowRepeats else .error failure := by
  rw [readCapture, Logged.value_bind, value_parseLogged]
  cases parse captured allowRepeats with
  | ok e => rfl
  | error failure =>
    dsimp only
    split_ifs <;> rfl

/-- Reading goes on to the rest of a document only where a brace is not closed. -/
theorem isUnclosed_of_readDeclaration {text masked : Text} {header : Header} {close : Nat}
    {failure : Failure} (hclose : closingBrace? masked header.brace = some close)
    (h : readDeclaration text masked allowRepeats header = .error failure) :
    failure.isUnclosed = false := by
  rw [readDeclaration_eq_error_iff hclose, Header.fault?] at h
  split at h
  · obtain rfl := Option.some.inj h
    rfl
  · split at h
    · obtain rfl := Option.some.inj h
      rfl
    · obtain ⟨-, h⟩ := Option.ite_none_right_eq_some.1 h
      obtain rfl := Option.some.inj h
      rfl

/-- Of what is captured the first header is read that ends in it, as it is read
    in the rest of the document. -/
theorem readSummary_readCapture {line : Int} {start : Nat}
    (hdrop : text.drop start = captured ++ behind)
    (hbehind : FollowsLine behind) :
    readSummary (readCapture text line captured start allowRepeats).value =
      ((firstHeader? (captured ++ behind).masked 0).filter fun header =>
        header.brace < captured.length).bind fun header =>
          readSummary (readDeclaration (captured ++ behind) (captured ++ behind).masked allowRepeats
            header) := by
  have hmasked := hbehind.masked_append captured
  have hfirst := firstHeader?_of_append captured.masked
    (maskFrom (after (.code .clear) captured) behind)
  rw [← hmasked, length_masked] at hfirst
  rw [value_readCapture, ← hfirst, hdrop]
  cases hheader : firstHeader? captured.masked 0 with
  | none =>
    rw [parse, hheader]
    rfl
  | some header =>
    have hparse : parse captured allowRepeats =
        readDeclaration captured captured.masked allowRepeats header := by rw [parse, hheader]
    rw [hheader] at hfirst
    obtain ⟨hwhole, -⟩ := Option.filter_eq_some_iff.1 hfirst.symm
    have hparse' : parse (captured ++ behind) allowRepeats =
        readDeclaration (captured ++ behind) (captured ++ behind).masked allowRepeats header := by
      rw [parse, hwhole]
    rw [hparse, hparse', Option.bind_some]
    cases hclose : closingBrace? captured.masked header.brace with
    | none =>
      have hread : readDeclaration captured captured.masked allowRepeats header =
          .error (.unclosed header.name header.start) := by
        unfold readDeclaration
        rw [hclose]
      rw [hread]
      rfl
    | some close =>
      have hle : header.start ≤ captured.length := by
        have := (firstHeader?_eq_some_iff.1 hheader).1.start_lt
        rw [length_masked] at this
        omega
      rw [hmasked, summary_readDeclaration_append hle hclose]
      cases hread : readDeclaration captured captured.masked allowRepeats header with
      | ok e => rfl
      | error failure =>
        dsimp only
        rw [isUnclosed_of_readDeclaration hclose hread]
        rfl

/-! ### The declaration on a line -/

theorem value_enumAtLine {line : Int} {capture : Text × Nat}
    (h : capture? text line = some capture) : (enumAtLine text line allowRepeats).value =
      (readCapture text line capture.1 capture.2 allowRepeats).value.map
        (·.shifted capture.2 text) := by
  rw [enumAtLine, h]
  rfl

/-- From a line on that starts in code, the first header of the document is read
    if its brace is captured, as it is read in the document. -/
theorem readSummary_enumAtLine {line : Int} (hcode : StartsInCode text line.toNat)
    (hcapture : capture? text line ≠ none) :
    readSummary (enumAtLine text line allowRepeats).value =
      ((firstHeader? text.masked (startOfLine text line.toNat)).filter fun header =>
        CaptureReaches text.masked (startOfLine text line.toNat) header.brace).bind fun header =>
          readSummary (readDeclaration text text.masked allowRepeats header) := by
  obtain ⟨capture, hcapture⟩ := Option.ne_none_iff_exists'.1 hcapture
  obtain ⟨before, captured, behind, rfl, rfl, hcaptures⟩ := exists_captures hcode hcapture
  have hword : before.masked.getLast?.any isWordChar = false := by
    rcases hcaptures.endsLine.masked with hnil | hlast
    · rw [hnil]
      rfl
    · rw [hlast]
      rfl
  rw [value_enumAtLine hcapture, readSummary_map_shifted,
    readSummary_readCapture List.drop_left hcaptures.followsLine, hcaptures.startOfLine_eq,
    hcaptures.masked_eq, firstHeader?_append hword]
  cases hfirst : firstHeader? (captured ++ behind).masked 0 with
  | none => rfl
  | some header =>
    have hstands := (firstHeader?_eq_some_iff.1 hfirst).1
    have hreaches : CaptureReaches (before.masked ++ (captured ++ behind).masked)
        before.masked.length (header.moved before.masked.length).brace ↔
          header.brace < captured.length :=
      hcaptures.captureReaches_iff (by decide) (hstands.moved_behind hword).getElem?_brace
    rw [Option.map_some, Option.filter_some, Option.filter_some]
    by_cases hlt : header.brace < captured.length
    · rw [if_pos (decide_eq_true hlt), if_pos (decide_eq_true (hreaches.2 hlt)), Option.bind_some,
        Option.bind_some, ← readSummary_map_shifted, length_masked,
        ← summary_readDeclaration_moved (length_masked before)]
    · rw [if_neg (by simpa using hlt), if_neg (by simpa using mt hreaches.1 hlt)]
      rfl

/-- The first header from the start of a line on stands on it if any does. -/
theorem line_of_firstHeader? {line : Nat} {header other : Header}
    (h : firstHeader? text.masked (startOfLine text line) = some header)
    (hother : other.StandsIn text.masked)
    (hline : (Position.ofOffset text other.start).line = line) :
    (Position.ofOffset text header.start).line = line := by
  obtain ⟨-, hle, hfirst⟩ := firstHeader?_eq_some_iff.1 h
  have hcount : line ≤ text.count '\n' := hline ▸ Position.line_le_count text other.start
  have hupto : (Position.ofOffset text header.start).line ≤ line :=
    hline ▸ Position.line_le text (hfirst other hother ((le_line_iff hcount).1 hline.ge))
  exact Nat.le_antisymm hupto ((le_line_iff hcount).2 hle)

/-- What is read from a line on that starts in code is declared in the code of
    the document. It is declared on the line if any header stands there. -/
theorem enumAtLine_declared {line : Int} (hcode : StartsInCode text line.toNat)
    (h : (enumAtLine text line allowRepeats).value = .ok e) :
    ∃ header ∈ headers text.masked, ∃ stop : Nat, e.name = header.name ∧
      e.span = some (.ofOffsets text header.start stop) ∧
      Header.keyword <+: text.masked.drop header.start ∧
      ((Position.ofOffset text header.start).line = line ↔
        ∃ other ∈ headers text.masked, (Position.ofOffset text other.start).line = line) := by
  have hcapture : capture? text line ≠ none := fun hnone => by
    rw [enumAtLine, hnone] at h
    cases h
  have hread : readSummary (enumAtLine text line allowRepeats).value = _ :=
    readSummary_enumAtLine hcode hcapture
  rw [h] at hread
  obtain ⟨header, hfilter, hsummary⟩ := Option.bind_eq_some_iff.1 hread.symm
  obtain ⟨hfirst, -⟩ := Option.filter_eq_some_iff.1 hfilter
  have hstands := (firstHeader?_eq_some_iff.1 hfirst).1
  have hmem := Header.mem_headers_iff.2 hstands
  have hdeclared := eq_ok_of_readSummary hsummary
  obtain ⟨stop, hspan, -⟩ := exists_span_of_readDeclaration hdeclared
  refine ⟨header, hmem, stop, name_of_readDeclaration hdeclared, hspan, hstands.keyword_prefix,
    fun hline => ⟨header, hmem, hline⟩, ?_⟩
  rintro ⟨other, hother, hline⟩
  have hsame := line_of_firstHeader? hfirst (Header.mem_headers_iff.1 hother)
    (show (Position.ofOffset text other.start).line = line.toNat by omega)
  omega

theorem enumAtLine_declared_shadeOnLine : StartsInCode shadeOnLine 1 ∧
    ∃ e, (enumAtLine shadeOnLine 1 false).value = .ok e ∧
      ∃ header ∈ headers shadeOnLine.masked, ∃ stop : Nat, e.name = header.name ∧
        e.span = some (.ofOffsets shadeOnLine header.start stop) ∧
        Header.keyword <+: shadeOnLine.masked.drop header.start ∧
        ((Position.ofOffset shadeOnLine header.start).line = (1 : Int) ↔
          ∃ other ∈ headers shadeOnLine.masked,
            (Position.ofOffset shadeOnLine other.start).line = (1 : Int)) := by
  have hcode : StartsInCode shadeOnLine 1 := by decide +kernel
  have hok : (enumAtLine shadeOnLine 1 false).value.toOption.isSome = true := by decide +kernel
  cases hread : (enumAtLine shadeOnLine 1 false).value with
  | error failure =>
    rw [hread] at hok
    exact Bool.noConfusion hok
  | ok e => exact ⟨hcode, e, rfl, enumAtLine_declared hcode hread⟩

/-- An enum on the line behind a comment that mentions the keyword. -/
def behindMention : Text := "// enum\nenum A \x7ba\x7d".toList

/-- An enum in a comment, on a line of its own. -/
def inComment : Text := "/*\nenum A \x7ba\x7d\n*/".toList

/-- A line that only mentions the keyword gives the enum on the next one, and one
    that starts in a comment gives what is commented out. -/
theorem enumAtLine_undeclared :
    (∃ e ∈ (enumAtLine behindMention 0 false).value.toOption, ∃ span ∈ e.span,
      span.first.line = 1) ∧
      ∃ e ∈ (enumAtLine inComment 1 false).value.toOption, ∃ span ∈ e.span,
        span.start = 3 ∧ ¬Header.keyword <+: inComment.masked.drop 3 := by
  decide +kernel

/-! ### The first declaration on a line -/

/-- A line on which a header stands mentions the keyword. -/
theorem capture?_ne_none {header : Header} (h : header.StandsIn text.masked) :
    capture? text (Position.ofOffset text header.start).line ≠ none := by
  have hle := (le_line_iff (Position.line_le_count text header.start)).1 le_rfl
  obtain ⟨before, rest, rfl, hends, hcount⟩ :=
    exists_endsLine (Position.line_le_count text header.start)
  rw [← hcount, hends.startOfLine_eq] at hle
  obtain ⟨distance, hstart⟩ := Nat.exists_eq_add_of_le hle
  -- The keyword stands on the line, as no line ends before it.
  have hkeyword := h.keyword_prefix
  rw [masked, drop_maskFrom, hstart, List.drop_length_add_append] at hkeyword
  obtain ⟨more, hmore⟩ := prefix_of_prefix_maskFrom (forall_mem_of_all (by decide)) hkeyword
  have hrun : '\n' ∉ rest.take distance := by
    rw [Position.line_ofOffset, hstart, List.take_length_add_append, List.count_append] at hcount
    exact List.count_eq_zero.1 (by omega)
  have hholds : (firstLine rest).holds Header.keyword = true := by
    rw [← List.take_append_drop distance rest, ← hmore, firstLine_append hrun,
      firstLine_append (by decide)]
    exact holds_append _ _ _
  have hline : (before ++ rest).lines[(Position.ofOffset (before ++ rest) header.start).line]? =
      some (firstLine rest) := by
    rw [← hcount, hends.getElem?_lines]
  exact Option.ne_none_iff_exists'.2 ⟨_, capture?_eq_some_iff.2
    ⟨Int.natCast_nonneg _, ⟨_, hline, hholds⟩, rfl⟩⟩

/-- A listed enumeration that starts at a header is read behind it. -/
theorem readDeclaration_of_mem_parseAll {header : Header} (hheader : header.StandsIn text.masked)
    (he : e ∈ parseAll text allowRepeats)
    (hstart : e.span.map Span.start = some (header.start : Int)) :
    readDeclaration text text.masked allowRepeats header = .ok e := by
  obtain ⟨other, htried, hread⟩ := mem_parseAll_iff.1 he
  have hother : other.StandsIn text.masked :=
    Header.mem_headers_iff.1 (of_mem_attemptsFrom htried).1
  obtain ⟨stop, hspan, -⟩ := exists_span_of_readDeclaration hread
  rw [hspan, Option.map_some, Option.some.injEq] at hstart
  have hfirst := hheader.firstHeader?_eq
  rw [← Int.ofNat.inj hstart, hother.firstHeader?_eq] at hfirst
  obtain rfl := Option.some.inj hfirst
  exact hread

/-- The first header that stands on a line is the first one from its start on. -/
theorem firstHeader?_startOfLine {line : Nat} {header : Header}
    (hheader : header.StandsIn text.masked)
    (hline : (Position.ofOffset text header.start).line = line)
    (hfirst : ∀ other ∈ headers text.masked, (Position.ofOffset text other.start).line = line →
      header.start ≤ other.start) :
    firstHeader? text.masked (startOfLine text line) = some header := by
  have hcount : line ≤ text.count '\n' := hline ▸ Position.line_le_count text header.start
  refine firstHeader?_eq_some_iff.2 ⟨hheader, (le_line_iff hcount).1 hline.ge, ?_⟩
  intro other hother hle
  by_contra hlt
  -- One before it would stand on the line as well.
  have hbehind := (le_line_iff hcount).2 hle
  have hupto := Position.line_le text (Nat.le_of_lt (Nat.not_le.1 hlt))
  exact hlt (hfirst other (Header.mem_headers_iff.2 hother) (by omega))

/-- Where a line starts in code, the enumeration of the first header that stands
    on it is found if, and only if, its brace is captured. -/
theorem enumAtLine_eq_ok_iff {line : Nat} {header : Header} (hcode : StartsInCode text line)
    (hheader : header ∈ headers text.masked)
    (hline : (Position.ofOffset text header.start).line = line)
    (hfirst : ∀ other ∈ headers text.masked, (Position.ofOffset text other.start).line = line →
      header.start ≤ other.start)
    (he : e ∈ parseAll text allowRepeats)
    (hstart : e.span.map Span.start = some (header.start : Int)) :
    (enumAtLine text line allowRepeats).value = .ok e ↔
      CaptureReaches text.masked (startOfLine text line) header.brace := by
  have hstands := Header.mem_headers_iff.1 hheader
  have hfound := firstHeader?_startOfLine hstands hline hfirst
  have hread : readSummary (enumAtLine text line allowRepeats).value = _ :=
    readSummary_enumAtLine hcode (hline ▸ capture?_ne_none hstands)
  rw [Int.toNat_natCast, hfound, Option.filter_some] at hread
  constructor
  · intro hok
    by_contra hreaches
    rw [hok, if_neg (by simpa using hreaches)] at hread
    exact absurd hread nofun
  · intro hreaches
    rw [if_pos (decide_eq_true hreaches), Option.bind_some,
      readDeclaration_of_mem_parseAll hstands he hstart] at hread
    exact eq_ok_of_readSummary hread

/-- An enum behind a class on one line, closed on another. -/
def behindClass : Text := "class C \x7b\x7d enum Mode \x7b\n  a\n\x7d\n".toList

theorem enumAtLine_eq_ok_behindClass : StartsInCode behindClass 0 ∧
    ∃ header ∈ headers behindClass.masked, (Position.ofOffset behindClass header.start).line = 0 ∧
      (∀ other ∈ headers behindClass.masked,
        (Position.ofOffset behindClass other.start).line = 0 → header.start ≤ other.start) ∧
      CaptureReaches behindClass.masked (startOfLine behindClass 0) header.brace ∧
      ∃ e ∈ parseAll behindClass false, e.span.map Span.start = some (header.start : Int) ∧
        (enumAtLine behindClass 0 false).value = .ok e := by
  have hcode : StartsInCode behindClass 0 := by decide +kernel
  obtain ⟨header, hheader, hline, hfirst, hreaches, e, he, hstart⟩ :
      ∃ header ∈ headers behindClass.masked,
        (Position.ofOffset behindClass header.start).line = 0 ∧
        (∀ other ∈ headers behindClass.masked,
          (Position.ofOffset behindClass other.start).line = 0 → header.start ≤ other.start) ∧
        CaptureReaches behindClass.masked (startOfLine behindClass 0) header.brace ∧
        ∃ e ∈ parseAll behindClass false, e.span.map Span.start = some (header.start : Int) := by
    decide +kernel
  exact ⟨hcode, header, hheader, hline, hfirst, hreaches, e, he, hstart,
    (enumAtLine_eq_ok_iff hcode hheader hline hfirst he hstart).2 hreaches⟩

/-- An enum behind a class, with its brace on the next line. -/
def braceBelow : Text := "class C \x7b\x7d enum Mode\n\x7b a \x7d\n".toList

/-- The braces of the class end what is captured, before that of the enum. -/
theorem enumAtLine_misses_braceBelow : StartsInCode braceBelow 0 ∧
    (∃ header ∈ headers braceBelow.masked, (Position.ofOffset braceBelow header.start).line = 0 ∧
      (∀ other ∈ headers braceBelow.masked, header.start ≤ other.start) ∧
      ∃ e ∈ parseAll braceBelow false, e.span.map Span.start = some (header.start : Int)) ∧
    (enumAtLine braceBelow 0 false).value.toOption.isNone = true := by
  decide +kernel

end EnumCompanion
