import EnumCompanion.Document.Capture
import EnumCompanion.Proofs.Declaration.Listing
import EnumCompanion.Proofs.Declaration.Masked
import EnumCompanion.Proofs.Text.Lines

/-!
# Declarations of a part

A part of a text that is masked by itself as it is in the text has the headers
that the text has there. Behind them it is read as the text is, as far as the
part goes.

* `Header.StandsIn.append`, `Header.StandsIn.of_append`: the headers of a beginning;
* `Header.StandsIn.moved_behind`, `Header.StandsIn.exists_moved`: those of what follows;
* `firstHeader?_eq_some_iff`: the first header, by the places of all others;
* `firstHeader?_of_append`, `firstHeader?_append`: the first header of a part;
* `summary_readDeclaration_moved`: reading what follows another text;
* `summary_readDeclaration_append`: reading what another text follows.
-/

namespace EnumCompanion

open Text Mask

/-! ### Headers -/

namespace Header

/-- A header, moved by a distance. -/
def moved (distance : Nat) (header : Header) : Header :=
  { header with start := distance + header.start, brace := distance + header.brace }

/-- Of the character before a header it counts only that it is none of a word. -/
theorem Heads.congr {previous previous' : Option Char} {text gap name clause rest : Text}
    (h : Heads previous text gap name clause rest) (hprevious : previous'.any isWordChar = false) :
    Heads previous' text gap name clause rest :=
  ⟨h.text_eq, hprevious, h.gap_ne_nil, h.gap_blank, h.name, h.clause⟩

namespace StandsIn

variable {header other : Header} {masked before part behind : Text}

/-- A header of a beginning is one of the text. -/
theorem append (h : header.StandsIn part) (behind : Text) : header.StandsIn (part ++ behind) := by
  obtain ⟨before, text, gap, clause, rest, rfl, hstart, hheads, hbrace⟩ := h
  refine ⟨before, text ++ behind, gap, clause, rest ++ behind, List.append_assoc .., hstart,
    hheads.append behind, ?_⟩
  rw [List.length_append, ← Nat.add_assoc, hbrace, ← List.length_append]

/-- A header of the text whose brace is in a beginning is one of that. -/
theorem of_append (h : header.StandsIn (part ++ behind)) (hlt : header.brace < part.length) :
    header.StandsIn part := by
  obtain ⟨before, text, gap, clause, rest, htext, hstart, hheads, hbrace⟩ := h
  have hsuffix : rest <:+ part ++ behind := by
    rw [htext, hheads.text_eq]
    exact ⟨before ++ (keyword ++ (gap ++ (header.name ++ (clause ++ ['{'])))), by simp⟩
  rw [List.length_append] at hbrace
  obtain ⟨rest, rfl⟩ := List.suffix_of_suffix_length_le (List.suffix_append part behind) hsuffix
    (by omega)
  -- So does what comes before the end of the header.
  obtain ⟨text, rfl⟩ : ∃ text', text = text' ++ behind :=
    ⟨keyword ++ (gap ++ (header.name ++ (clause ++ '{' :: rest))), by rw [hheads.text_eq]; simp⟩
  rw [← List.append_assoc] at htext
  obtain rfl := List.append_cancel_right htext
  rw [List.length_append] at hbrace
  exact ⟨before, text, gap, clause, rest, rfl, hstart, hheads.of_append, by omega⟩

/-- A header of what follows another text, moved behind it. -/
theorem moved_behind (hbefore : before.getLast?.any isWordChar = false) (h : header.StandsIn part) :
    (header.moved before.length).StandsIn (before ++ part) := by
  obtain ⟨front, text, gap, clause, rest, rfl, hstart, hheads, hbrace⟩ := h
  refine ⟨before ++ front, text, gap, clause, rest, (List.append_assoc ..).symm, ?_,
    hheads.congr ?_, ?_⟩
  · rw [moved, List.length_append, hstart]
  · rw [List.getLast?_append]
    cases hlast : front.getLast? with
    | none => exact hbefore
    | some c => simpa [hlast] using hheads.previous
  · rw [moved, List.length_append]
    dsimp only
    omega

/-- A header behind a text is one of what follows it. -/
theorem exists_moved (h : header.StandsIn (before ++ part)) (hle : before.length ≤ header.start) :
    ∃ header' : Header, header'.StandsIn part ∧ header = header'.moved before.length := by
  obtain ⟨front, text, gap, clause, rest, htext, hstart, hheads, hbrace⟩ := h
  obtain ⟨front, rfl, rfl⟩ : ∃ front', front = before ++ front' ∧ part = front' ++ text := by
    rcases List.append_eq_append_iff.1 htext with h | ⟨more, rfl, rfl⟩
    · exact h
    · rw [List.length_append] at hle
      obtain rfl : more = [] := List.length_eq_zero_iff.1 (by omega)
      exact ⟨[], by simp, rfl⟩
  have hlt := congrArg List.length hheads.text_eq
  simp only [List.length_append, List.length_cons] at hstart hbrace hlt
  refine ⟨{ header with start := header.start - before.length,
                        brace := header.brace - before.length }, ⟨front, text, gap, clause, rest,
    rfl, ?_, hheads.congr ?_, ?_⟩, ?_⟩
  · dsimp only
    omega
  · have hprevious := hheads.previous
    rw [List.getLast?_append] at hprevious
    cases hlast : front.getLast? with
    | none => rfl
    | some c => rwa [hlast] at hprevious
  · rw [List.length_append]
    dsimp only
    omega
  · cases header
    simp only [moved, Header.mk.injEq, true_and] at hstart hbrace hle ⊢
    omega

/-- A header ends within the text. -/
theorem brace_lt (h : header.StandsIn masked) : header.brace < masked.length := by
  obtain ⟨-, -, -, -, rest, -, -, -, hbrace⟩ := h
  omega

/-- It starts with the keyword. -/
theorem keyword_prefix (h : header.StandsIn masked) : keyword <+: masked.drop header.start := by
  obtain ⟨before, text, gap, clause, rest, rfl, hstart, hheads, -⟩ := h
  rw [hstart, List.drop_left, hheads.text_eq]
  exact List.prefix_append _ _

/-- It ends with an opening brace. -/
theorem getElem?_brace (h : header.StandsIn masked) : masked[header.brace]? = some '{' := by
  obtain ⟨before, text, gap, clause, rest, rfl, -, hheads, hbrace⟩ := h
  have hsplit : before ++ text =
      before ++ (keyword ++ (gap ++ (header.name ++ clause))) ++ '{' :: rest := by
    rw [hheads.text_eq]
    simp only [List.append_assoc]
  rw [hsplit] at hbrace ⊢
  rw [List.length_append, List.length_cons] at hbrace
  have hplace : header.brace =
      (before ++ (keyword ++ (gap ++ (header.name ++ clause)))).length := by omega
  rw [hplace, List.getElem?_append_right (Nat.le_refl _), Nat.sub_self]
  rfl

end StandsIn

end Header

variable {header : Header} {masked before : Text} {position : Nat}

/-- The first header from a place on is the one before all others. -/
theorem firstHeader?_eq_some_iff : firstHeader? masked position = some header ↔
    header.StandsIn masked ∧ position ≤ header.start ∧
      ∀ other : Header, other.StandsIn masked → position ≤ other.start →
        header.start ≤ other.start := by
  have hmem : ∀ other : Header, other ∈ (headers masked).filter (position ≤ ·.start) ↔
      other.StandsIn masked ∧ position ≤ other.start := fun other => by
    rw [List.mem_filter, Header.mem_headers_iff, decide_eq_true_eq]
  have hordered := (pairwise_headers masked).filter (position ≤ ·.start)
  simp only [firstHeader?, ← List.head?_filter, ← and_assoc, ← and_imp, ← hmem]
  cases hlist : (headers masked).filter (position ≤ ·.start) with
  | nil => simp
  | cons first later =>
    rw [hlist, List.pairwise_cons] at hordered
    rw [List.head?_cons, Option.some.injEq]
    constructor
    · rintro rfl
      refine ⟨List.mem_cons_self, fun other hother => ?_⟩
      rcases List.mem_cons.1 hother with rfl | hother
      exacts [Nat.le_refl _, Nat.le_of_lt (hordered.1 other hother)]
    · rintro ⟨hheader, hfirst⟩
      rcases List.mem_cons.1 hheader with rfl | hheader
      · rfl
      · exact absurd (hordered.1 header hheader) (Nat.not_lt.2 (hfirst first List.mem_cons_self))

/-- From its place on, a header is the first one. -/
theorem Header.StandsIn.firstHeader?_eq (h : header.StandsIn masked) :
    firstHeader? masked header.start = some header :=
  firstHeader?_eq_some_iff.2 ⟨h, Nat.le_refl _, fun _ _ hle => hle⟩

/-- A beginning of a text has the first header of the text, if that ends in it. -/
theorem firstHeader?_of_append (part behind : Text) : firstHeader? part 0 =
    (firstHeader? (part ++ behind) 0).filter fun header => header.brace < part.length := by
  ext header
  rw [Option.filter_eq_some_iff, firstHeader?_eq_some_iff, firstHeader?_eq_some_iff,
    decide_eq_true_eq]
  constructor
  · rintro ⟨hstands, hle, hfirst⟩
    refine ⟨⟨hstands.append behind, hle, fun other hother _ => ?_⟩, hstands.brace_lt⟩
    -- A header before it would end before it.
    by_contra hlt
    have hends := brace_lt_start_of_mem (Header.mem_headers_iff.2 hother)
      (Header.mem_headers_iff.2 (hstands.append behind)) (Nat.not_le.1 hlt)
    exact hlt (hfirst other (hother.of_append (hends.trans hstands.start_lt.2)) (Nat.zero_le _))
  · rintro ⟨⟨hstands, hle, hfirst⟩, hlt⟩
    exact ⟨hstands.of_append hlt, hle, fun other hother => hfirst other (hother.append behind)⟩

/-- Behind another text the first header is the one by itself, moved. -/
theorem firstHeader?_append (hbefore : before.getLast?.any isWordChar = false) (part : Text) :
    firstHeader? (before ++ part) before.length =
      (firstHeader? part 0).map (·.moved before.length) := by
  ext header
  rw [Option.map_eq_some_iff, firstHeader?_eq_some_iff]
  constructor
  · rintro ⟨hstands, hle, hfirst⟩
    obtain ⟨header, hheader, rfl⟩ := hstands.exists_moved hle
    refine ⟨header, firstHeader?_eq_some_iff.2 ⟨hheader, Nat.zero_le _, fun other hother _ => ?_⟩,
      rfl⟩
    exact Nat.le_of_add_le_add_left (hfirst _ (hother.moved_behind hbefore) (Nat.le_add_right _ _))
  · rintro ⟨header, hheader, rfl⟩
    obtain ⟨hstands, -, hfirst⟩ := firstHeader?_eq_some_iff.1 hheader
    refine ⟨hstands.moved_behind hbefore, Nat.le_add_right _ _, fun other hother hle => ?_⟩
    obtain ⟨other, hpart, rfl⟩ := hother.exists_moved hle
    exact Nat.add_le_add_left (hfirst other hpart (Nat.zero_le _)) _

/-! ### Declarations -/

theorem closingBraceFrom_append_of_eq_some {depth : Int} {text : Text} {distance : Nat}
    (h : closingBraceFrom depth text = some distance) (behind : Text) :
    closingBraceFrom depth (text ++ behind) = some distance ∧ distance < text.length := by
  induction text generalizing depth distance with
  | nil => cases h
  | cons c text ih =>
    have hnext : ∀ {depth : Int}, (closingBraceFrom depth text).map (· + 1) = some distance →
        (closingBraceFrom depth (text ++ behind)).map (· + 1) = some distance ∧
          distance < (c :: text).length := by
      intro next hnext
      obtain ⟨found, hfound, rfl⟩ := Option.map_eq_some_iff.1 hnext
      obtain ⟨happend, hlt⟩ := ih hfound
      exact ⟨by rw [happend]; rfl, Nat.succ_lt_succ hlt⟩
    rw [List.cons_append]
    rw [closingBraceFrom] at h ⊢
    split_ifs at h ⊢
    · exact hnext h
    · exact ⟨h, by rw [← Option.some.inj h]; exact Nat.succ_pos _⟩
    · exact hnext h
    · exact hnext h

/-- A brace that is closed in a beginning of a text is closed there in the text. -/
theorem closingBrace?_append_of_eq_some {brace close : Nat}
    (h : closingBrace? masked brace = some close) (behind : Text) :
    closingBrace? (masked ++ behind) brace = some close ∧ close < masked.length := by
  obtain ⟨distance, hdistance, rfl⟩ := Option.map_eq_some_iff.1 h
  obtain ⟨happend, hlt⟩ := closingBraceFrom_append_of_eq_some hdistance behind
  rw [List.length_drop] at hlt
  rw [closingBrace?, List.drop_append_of_le_length (by omega), happend]
  exact ⟨rfl, by omega⟩

/-- What an enumeration is known by is all of it. -/
theorem Enumeration.eq_of_summary {e other : Enumeration} (h : e.summary = other.summary) :
    e = other := by
  cases e
  cases other
  simp only [summary, Prod.mk.injEq] at h
  obtain ⟨rfl, rfl, rfl⟩ := h
  rfl

/-- An enumeration has the name of its header. -/
theorem name_of_readDeclaration {text masked : Text} {allowRepeats : Bool} {e : Enumeration}
    (h : readDeclaration text masked allowRepeats header = .ok e) : e.name = header.name := by
  obtain ⟨-, -, hname, -⟩ := exists_closingBrace?_of_readDeclaration h
  exact hname

/-- What is read, by what it is known by. -/
def readSummary (outcome : Except Failure Enumeration) : Option (Text × List Text × Option Span) :=
  outcome.toOption.map Enumeration.summary

theorem eq_ok_of_readSummary {outcome : Except Failure Enumeration} {e : Enumeration}
    (h : readSummary outcome = some e.summary) : outcome = .ok e := by
  obtain ⟨other, hother, hsummary⟩ := Option.map_eq_some_iff.1 h
  cases outcome with
  | error failure => cases hother
  | ok found =>
    obtain rfl := Option.some.inj hother
    rw [Enumeration.eq_of_summary hsummary]

/-- In a text around it, what is read is known by the same name and values. -/
theorem readSummary_map_shifted (outcome : Except Failure Enumeration) (start : Nat) (text : Text) :
    readSummary (outcome.map (·.shifted start text)) = (readSummary outcome).map fun read =>
      (read.1, read.2.1, read.2.2.map (·.shifted start text)) := by
  cases outcome <;> rfl

variable {allowRepeats : Bool} {part behind : Text}

/-- Behind another text a declaration is read as by itself, moved by the length
    of that text. -/
theorem summary_readDeclaration_moved (hlength : masked.length = before.length) :
    readSummary (readDeclaration (before ++ part) (masked ++ part.masked) allowRepeats
        (header.moved before.length)) =
      readSummary ((readDeclaration part part.masked allowRepeats header).map
        (·.shifted before.length (before ++ part))) := by
  have hclose : closingBrace? (masked ++ part.masked) (before.length + header.brace) =
      (closingBrace? part.masked header.brace).map (before.length + ·) := by
    rw [closingBrace?, closingBrace?, ← hlength, List.drop_length_add_append, Option.map_map]
    simp only [Function.comp_def, Nat.add_assoc]
  rw [readSummary_map_shifted, readSummary, readSummary, toOption_readDeclaration,
    toOption_readDeclaration]
  simp only [Header.moved, hclose, Option.bind_map, Option.map_bind]
  congr 1
  funext close
  have hbody : ((masked ++ part.masked).take (before.length + close)).drop
      (before.length + header.brace + 1) = (part.masked.take close).drop (header.brace + 1) := by
    rw [← hlength, List.take_length_add_append, Nat.add_assoc, List.drop_length_add_append]
  simp only [Function.comp, hbody]
  split_ifs
  · simp only [Option.map_some, Span.shifted, Span.ofOffsets, Int.natCast_add, Int.natCast_one]
    rw [Int.add_comm (before.length : Int) header.start, Int.add_assoc,
      Int.add_comm (before.length : Int) (close + 1)]
  · rfl

/-- A declaration that is closed before another text is read as by itself. -/
theorem summary_readDeclaration_append {close : Nat}
    (hstart : header.start ≤ part.length)
    (hclose : closingBrace? part.masked header.brace = some close) :
    readSummary (readDeclaration (part ++ behind) (part.masked ++ masked) allowRepeats header) =
      readSummary (readDeclaration part part.masked allowRepeats header) := by
  obtain ⟨hclose', hlt⟩ := closingBrace?_append_of_eq_some hclose masked
  have hlt' := hlt
  rw [length_masked] at hlt'
  rw [readSummary, readSummary, toOption_readDeclaration, toOption_readDeclaration, hclose, hclose',
    Option.bind_some, Option.bind_some, List.take_append_of_le_length (Nat.le_of_lt hlt),
    Span.ofOffsets_append hstart hlt']

end EnumCompanion
