import EnumCompanion.Proofs.Declaration.Parse

/-!
# Reading from left to right

All enumerations of a text are read in one pass over its mask. At each place
that no earlier declaration takes in, what stands there alone says whether a
declaration can be read, so that a text may be read in parts wherever no
declaration reaches over the seam.

* `Declares`: the texts that start with a closed declaration;
* `readHead?_eq_some_iff`: what is read at the head of a text;
* `summariesFrom_headersFrom`, `map_summary_parseAll`: `parseAll` is that one pass;
* `Splits`, `Parted`, `readings_splice`: a text that is read in parts.
-/

namespace EnumCompanion

open Text

/-! ### Closed declarations -/

/-- A text that starts with a closed declaration: a header, a body, a closing
    brace and the rest. -/
structure Declares (previous : Option Char) (text gap name clause body rest : Text) : Prop where
  heads : Header.Heads previous text gap name clause (body ++ '}' :: rest)
  balanced : Balanced body

theorem Header.Heads.append {previous : Option Char} {text gap name clause rest : Text}
    (h : Header.Heads previous text gap name clause rest) (behind : Text) :
    Header.Heads previous (text ++ behind) gap name clause (rest ++ behind) where
  text_eq := by
    rw [h.text_eq]
    simp only [List.append_assoc, List.cons_append]
  previous := h.previous
  gap_ne_nil := h.gap_ne_nil
  gap_blank := h.gap_blank
  name := h.name
  clause := h.clause

theorem Header.Heads.of_append {previous : Option Char} {text behind gap name clause rest : Text}
    (h : Header.Heads previous (text ++ behind) gap name clause (rest ++ behind)) :
    Header.Heads previous text gap name clause rest where
  text_eq := by
    refine List.append_cancel_right (h.text_eq.trans ?_)
    simp only [List.append_assoc, List.cons_append]
  previous := h.previous
  gap_ne_nil := h.gap_ne_nil
  gap_blank := h.gap_blank
  name := h.name
  clause := h.clause

namespace Declares

variable {previous : Option Char} {text behind gap name clause body rest : Text}

/-- A declaration stays one whatever follows it. -/
theorem append (h : Declares previous text gap name clause body rest) (behind : Text) :
    Declares previous (text ++ behind) gap name clause body (rest ++ behind) where
  heads := by
    have := h.heads.append behind
    rwa [List.append_assoc, List.cons_append] at this
  balanced := h.balanced

theorem of_append (h : Declares previous (text ++ behind) gap name clause body (rest ++ behind)) :
    Declares previous text gap name clause body rest where
  heads := by
    have := h.heads
    rw [← List.cons_append, ← List.append_assoc] at this
    exact this.of_append
  balanced := h.balanced

theorem text_eq (h : Declares previous text gap name clause body rest) :
    text = Header.keyword ++ gap ++ name ++ clause ++ '{' :: (body ++ '}' :: rest) := by
  rw [h.heads.text_eq]
  simp only [List.append_assoc]

theorem length_rest_lt (h : Declares previous text gap name clause body rest) :
    rest.length < text.length := by
  rw [h.text_eq]
  simp only [List.length_append, List.length_cons]
  omega

/-- A declaration of which the end of a text is no part ends before it. -/
theorem exists_of_append (h : Declares previous (text ++ behind) gap name clause body rest)
    (hlength : behind.length ≤ rest.length) :
    ∃ rest', rest = rest' ++ behind ∧ Declares previous text gap name clause body rest' := by
  have hsuffix : rest <:+ text ++ behind := by
    rw [h.text_eq]
    exact ⟨Header.keyword ++ gap ++ name ++ clause ++ '{' :: (body ++ ['}']), by simp⟩
  obtain ⟨rest', rfl⟩ := List.suffix_of_suffix_length_le (List.suffix_append text behind) hsuffix
    hlength
  exact ⟨rest', rfl, h.of_append⟩

end Declares

/-! ### The head of a text -/

/-- Whether values make an enumeration. -/
def isReadable (allowRepeats : Bool) (values : List Text) : Bool :=
  !values.isEmpty && values.all isValueName && (allowRepeats || decide values.Nodup)

/-- The name, the values and the length of the declaration at the head of a text,
    if it can be read. -/
def readHead? (allowRepeats : Bool) (previous : Option Char) (text : Text) :
    Option (Text × List Text × Nat) := do
  let header ← Header.headerAt? previous 0 text
  let close ← closingBrace? text header.brace
  let values := valueTokens ((text.take close).drop (header.brace + 1))
  if isReadable allowRepeats values then some (header.name, values, close + 1) else none

/-- A header that is closed starts a declaration. -/
theorem exists_declares {previous : Option Char} {text : Text} {header : Header}
    (hheader : Header.headerAt? previous 0 text = some header) {close : Nat}
    (hclose : closingBrace? text header.brace = some close) : ∃ gap clause body rest,
      Declares previous text gap header.name clause body rest ∧
        (text.take close).drop (header.brace + 1) = body ∧ close + 1 + rest.length = text.length := by
  obtain ⟨gap, clause, behind, hheads, -, hbrace⟩ := Header.headerAt?_eq_some_iff.1 hheader
  have htext : text = (Header.keyword ++ gap ++ header.name ++ clause) ++ '{' :: behind := by
    rw [hheads.text_eq]
    simp only [List.append_assoc]
  have hlength : header.brace = (Header.keyword ++ gap ++ header.name ++ clause).length := by
    rw [htext, List.length_append, List.length_cons] at hbrace
    omega
  rw [hlength, htext] at hclose
  obtain ⟨body, rest, rfl, hbody, rfl⟩ := closingBrace?_eq_some_iff.1 hclose
  refine ⟨gap, clause, body, rest, ⟨hheads, hbody⟩, ?_, ?_⟩
  · rw [hlength, htext]
    exact drop_take_body _ body rest
  · rw [htext]
    simp only [List.length_append, List.length_cons]
    omega

/-- A declaration has a header, which is closed. -/
theorem Declares.exists_headerAt? {previous : Option Char} {text gap name clause body rest : Text}
    (h : Declares previous text gap name clause body rest) : ∃ header close,
      Header.headerAt? previous 0 text = some header ∧ header.name = name ∧
        closingBrace? text header.brace = some close ∧
        (text.take close).drop (header.brace + 1) = body ∧ close + 1 + rest.length = text.length := by
  let before := Header.keyword ++ gap ++ name ++ clause
  have htext : text = before ++ '{' :: (body ++ '}' :: rest) := h.text_eq
  let header : Header :=
    { name, start := 0, brace := before.length, isTypeName_name := h.heads.name }
  refine ⟨header, before.length + (body.length + 1), ?_, rfl, ?_, ?_, ?_⟩
  · refine Header.headerAt?_eq_some_iff.2 ⟨gap, clause, _, h.heads, rfl, ?_⟩
    rw [htext]
    simp only [header, List.length_append, List.length_cons]
    omega
  · rw [htext]
    exact closingBrace?_eq_some_iff.2 ⟨body, rest, rfl, h.balanced, rfl⟩
  · rw [htext]
    exact drop_take_body before body rest
  · rw [htext]
    simp only [List.length_append, List.length_cons]
    omega

/-- What is read at the head of a text is a closed declaration with proper
    values. -/
theorem readHead?_eq_some_iff {allowRepeats : Bool} {previous : Option Char} {text name : Text}
    {values : List Text} {length : Nat} :
    readHead? allowRepeats previous text = some (name, values, length) ↔
      ∃ gap clause body rest, Declares previous text gap name clause body rest ∧
        valueTokens body = values ∧ isReadable allowRepeats values = true ∧
          length + rest.length = text.length := by
  simp only [readHead?, Option.bind_eq_bind, Option.bind_eq_some_iff, Option.ite_none_right_eq_some,
    Option.some.injEq, Prod.mk.injEq]
  constructor
  · rintro ⟨header, hheader, close, hclose, hread, rfl, rfl, rfl⟩
    obtain ⟨gap, clause, body, rest, h, hbody, hlength⟩ := exists_declares hheader hclose
    exact ⟨gap, clause, body, rest, h, by rw [hbody], hread, hlength⟩
  · rintro ⟨gap, clause, body, rest, h, rfl, hread, hlength⟩
    obtain ⟨header, close, hheader, rfl, hclose, rfl, hlength'⟩ := h.exists_headerAt?
    exact ⟨header, hheader, close, hclose, hread, rfl, rfl, by omega⟩

theorem readHead?_append {allowRepeats : Bool} {previous : Option Char} {text : Text}
    {read : Text × List Text × Nat} (h : readHead? allowRepeats previous text = some read)
    (behind : Text) : readHead? allowRepeats previous (text ++ behind) = some read := by
  obtain ⟨name, values, length⟩ := read
  obtain ⟨gap, clause, body, rest, hdeclares, hvalues, hread, hlength⟩ := readHead?_eq_some_iff.1 h
  refine readHead?_eq_some_iff.2 ⟨gap, clause, body, rest ++ behind, hdeclares.append behind,
    hvalues, hread, ?_⟩
  rw [List.length_append, List.length_append, ← hlength, Nat.add_assoc]

theorem readHead?_of_append {allowRepeats : Bool} {previous : Option Char} {text behind : Text}
    {read : Text × List Text × Nat}
    (h : readHead? allowRepeats previous (text ++ behind) = some read)
    (hle : read.2.2 ≤ text.length) : readHead? allowRepeats previous text = some read := by
  obtain ⟨name, values, length⟩ := read
  change length ≤ text.length at hle
  obtain ⟨gap, clause, body, rest, hdeclares, hvalues, hread, hsum⟩ := readHead?_eq_some_iff.1 h
  rw [List.length_append] at hsum
  obtain ⟨rest', rfl, hdeclares'⟩ := hdeclares.exists_of_append (by omega)
  refine readHead?_eq_some_iff.2 ⟨gap, clause, body, rest', hdeclares', hvalues, hread, ?_⟩
  rw [List.length_append] at hsum
  omega

/-! ### One pass -/

/-- What is read of a declaration. -/
structure Reading where
  /-- The name. -/
  name : Text
  /-- The values. -/
  values : List Text
  /-- The place of the keyword. -/
  start : Nat
  /-- The place behind the closing brace. -/
  stop : Nat

/-- What is read of a text that starts at `offset`, of which the first `skip`
    characters belong to what was read before. -/
def readingsFrom (allowRepeats : Bool) (skip : Nat) (previous : Option Char) (offset : Nat) :
    Text → List Reading
  | [] => []
  | c :: rest =>
    if 0 < skip then readingsFrom allowRepeats (skip - 1) (some c) (offset + 1) rest
    else match readHead? allowRepeats previous (c :: rest) with
      | some (name, values, length) =>
        ⟨name, values, offset, offset + length⟩ ::
          readingsFrom allowRepeats (length - 1) (some c) (offset + 1) rest
      | none => readingsFrom allowRepeats 0 (some c) (offset + 1) rest

/-- What is read of a masked text. -/
def readings (allowRepeats : Bool) (masked : Text) : List Reading :=
  readingsFrom allowRepeats 0 none 0 masked

/-- What an enumeration is known by: its name, its values and its span. -/
def Enumeration.summary (e : Enumeration) : Text × List Text × Option Span :=
  (e.name, e.values, e.span)

/-- The same of what is read of a text. -/
def Reading.summary (text : Text) (reading : Reading) : Text × List Text × Option Span :=
  (reading.name, reading.values, some (.ofOffsets text reading.start reading.stop))

namespace Header

theorem headerAt?_offset (previous : Option Char) (offset : Nat) (text : Text) :
    headerAt? previous offset text = (headerAt? previous 0 text).map fun header =>
      { header with start := offset, brace := offset + header.brace } := by
  simp only [headerAt?, Option.bind_eq_bind, Option.map_bind, Option.pure_def]
  congr 1
  funext pair
  obtain ⟨name, rest⟩ := pair
  simp only [Function.comp_def, Option.map_bind]
  congr 1
  funext distance
  simp [Nat.add_assoc]

theorem start_of_headerAt? {previous : Option Char} {offset : Nat} {text : Text} {header : Header}
    (h : headerAt? previous offset text = some header) : header.start = offset := by
  obtain ⟨gap, clause, rest, -, hstart, -⟩ := headerAt?_eq_some_iff.1 h
  exact hstart

/-- Headers stand at or behind the place from which they are looked for. -/
theorem le_start_of_mem {previous : Option Char} {offset : Nat} {text : Text} {header : Header}
    (h : header ∈ headersFrom previous offset text) : offset ≤ header.start := by
  obtain ⟨before, behind, -, hheader⟩ := mem_headersFrom.1 h
  rw [start_of_headerAt? hheader]
  exact Nat.le_add_right _ _

/-- A header ends before the next one starts. -/
theorem brace_lt_start {previous : Option Char} {offset : Nat} {c : Char} {rest : Text}
    {header later : Header} (hheader : headerAt? previous offset (c :: rest) = some header)
    (hlater : later ∈ headersFrom (some c) (offset + 1) rest) : header.brace < later.start := by
  obtain ⟨gap, clause, behind, hheads, -, hbrace⟩ := headerAt?_eq_some_iff.1 hheader
  have hle : behind.length ≤ rest.length := by
    have := congrArg List.length hheads.text_eq
    simp only [keyword, List.length_cons, List.length_append] at this
    omega
  rw [headersFrom_of_heads hheads] at hlater
  have := le_start_of_mem hlater
  rw [List.length_cons] at hbrace
  omega

end Header

/-- What is read behind a header, in one go. -/
theorem toOption_readDeclaration (text masked : Text) (allowRepeats : Bool) (header : Header) :
    (readDeclaration text masked allowRepeats header).toOption.map Enumeration.summary =
      (closingBrace? masked header.brace).bind fun close =>
        let values := valueTokens ((masked.take close).drop (header.brace + 1))
        if isReadable allowRepeats values then
          some (header.name, values, some (.ofOffsets text header.start (close + 1 : Nat)))
        else none := by
  rw [readDeclaration]
  split
  · next hclose => rw [hclose]; rfl
  · next close hclose =>
    simp only [hclose, Option.bind_some]
    let values := valueTokens ((masked.take close).drop (header.brace + 1))
    by_cases hvalues : values = []
    · rw [dif_pos hvalues, if_neg (by simp [values, hvalues, isReadable])]
      rfl
    rw [dif_neg hvalues]
    split
    · next value hbad =>
      have hinvalid : values.all isValueName = false := by
        rw [List.all_eq_false]
        exact ⟨value, List.mem_of_find?_eq_some hbad, by simpa using List.find?_some hbad⟩
      rw [if_neg (by simp [values, isReadable, hinvalid])]
      rfl
    · next hgood =>
      have hvalid : values.all isValueName = true := by simpa [values] using hgood
      by_cases hrepeats : (!allowRepeats && !decide values.Nodup) = true
      · rw [if_pos hrepeats, if_neg (by simp_all [values, isReadable])]
        rfl
      · rw [if_neg hrepeats, if_pos (by cases allowRepeats <;> simp_all [values, isReadable])]
        rfl

/-- What keeps the values behind a header from making an enumeration, in the
    order in which it is looked for. -/
def Header.fault? (header : Header) (allowRepeats : Bool) (values : List Text) : Option Failure :=
  if values = [] then some (.noValues header.name header.start)
  else match values.find? (!isValueName ·) with
    | some value => some (.invalidValue header.name value header.start)
    | none =>
      if !allowRepeats && !decide values.Nodup then
        some (.repeatedValues header.name (repeats values) header.start)
      else none

/-- Behind a header whose brace is closed, reading fails for the values alone. -/
theorem readDeclaration_eq_error_iff {text masked : Text} {allowRepeats : Bool} {header : Header}
    {close : Nat} (hclose : closingBrace? masked header.brace = some close) {failure : Failure} :
    readDeclaration text masked allowRepeats header = .error failure ↔
      header.fault? allowRepeats (valueTokens ((masked.take close).drop (header.brace + 1))) =
        some failure := by
  rw [readDeclaration, hclose, Header.fault?]
  dsimp only
  by_cases hnone : valueTokens ((masked.take close).drop (header.brace + 1)) = []
  · rw [dif_pos hnone, if_pos hnone, Except.error.injEq, Option.some.injEq]
  rw [dif_neg hnone, if_neg hnone]
  split
  · next value hbad => rw [hbad, Except.error.injEq, Option.some.injEq]
  · next hgood =>
    split_ifs with hrepeats
    · simp only [hgood, Except.error.injEq, Option.some.injEq]
    · simp only [hgood, reduceCtorEq]

/-- What is read behind a header has its name, the tokens of its body and a span
    from its keyword to its closing brace. -/
theorem exists_closingBrace?_of_readDeclaration {text masked : Text} {allowRepeats : Bool}
    {header : Header} {e : Enumeration}
    (h : readDeclaration text masked allowRepeats header = .ok e) : ∃ close,
      closingBrace? masked header.brace = some close ∧ e.name = header.name ∧
        valueTokens ((masked.take close).drop (header.brace + 1)) = e.values ∧
          e.span = some (.ofOffsets text header.start (close + 1 : Nat)) := by
  have hsummary := toOption_readDeclaration text masked allowRepeats header
  rw [h] at hsummary
  obtain ⟨close, hclose, hread⟩ := Option.bind_eq_some_iff.1 hsummary.symm
  obtain ⟨-, hread⟩ := Option.ite_none_right_eq_some.1 hread
  obtain ⟨hname, hrest⟩ := Prod.mk.inj (Option.some.inj hread)
  obtain ⟨hvalues, hspan⟩ := Prod.mk.inj hrest
  exact ⟨close, hclose, hname.symm, hvalues, hspan.symm⟩

/-- Reading behind a header depends only on the text from the header on. -/
theorem toOption_readDeclaration_append {text before behind : Text}
    (hmasked : text.masked = before ++ behind) (allowRepeats : Bool) {previous : Option Char}
    {header : Header} (hheader : Header.headerAt? previous before.length behind = some header) :
    (readDeclaration text text.masked allowRepeats header).toOption.map Enumeration.summary =
      (readHead? allowRepeats previous behind).map fun read =>
        Reading.summary text ⟨read.1, read.2.1, before.length, before.length + read.2.2⟩ := by
  rw [Header.headerAt?_offset] at hheader
  obtain ⟨header', hheader', rfl⟩ := Option.map_eq_some_iff.1 hheader
  have hclose : closingBrace? text.masked (before.length + header'.brace) =
      (closingBrace? behind header'.brace).map (before.length + ·) := by
    simp only [closingBrace?, hmasked, List.drop_length_add_append, Option.map_map,
      Function.comp_def, Nat.add_assoc]
  have hbody : ∀ close, (text.masked.take (before.length + close)).drop
      (before.length + header'.brace + 1) = (behind.take close).drop (header'.brace + 1) := by
    intro close
    rw [hmasked, List.take_length_add_append, Nat.add_assoc, List.drop_length_add_append]
  rw [toOption_readDeclaration, hclose]
  simp only [readHead?, hheader', Option.bind_eq_bind, Option.bind_some, Option.bind_map, hbody,
    Function.comp_def, Option.map_bind]
  congr 1
  funext close
  split <;> rfl

/-- The place from which headers are looked for counts only for those before
    it. -/
theorem attemptsFrom_congr (read : Header → Except Failure Enumeration) {position position' : Int}
    {headers : List Header}
    (h : ∀ header ∈ headers, position ≤ header.start ∧ position' ≤ header.start) :
    attemptsFrom read position headers = attemptsFrom read position' headers := by
  cases headers with
  | nil => rfl
  | cons header headers =>
    obtain ⟨hle, hle'⟩ := h header List.mem_cons_self
    rw [attemptsFrom, attemptsFrom, if_neg (by omega), if_neg (by omega)]

/-- Behind a header that cannot be read the search goes on at its body, as it
    would behind its first letter. -/
theorem attemptsFrom_resume (read : Header → Except Failure Enumeration) {previous : Option Char}
    {offset : Nat} {c : Char} {rest : Text} {header : Header}
    (hheader : Header.headerAt? previous offset (c :: rest) = some header) :
    attemptsFrom read (header.brace + 1) (Header.headersFrom (some c) (offset + 1) rest) =
      attemptsFrom read (offset + 1 : Nat) (Header.headersFrom (some c) (offset + 1) rest) := by
  refine attemptsFrom_congr read fun later hlater => ⟨?_, ?_⟩
  · have := Header.brace_lt_start hheader hlater
    omega
  · have := Header.le_start_of_mem hlater
    omega

/-- What is known of the enumerations that the attempts at some headers read from a
    place on. -/
def summariesFrom (text : Text) (allowRepeats : Bool) (position : Nat) (headers : List Header) :
    List (Text × List Text × Option Span) :=
  ((attemptsFrom (readDeclaration text text.masked allowRepeats) position headers).filterMap
    Attempt.enumeration?).map Enumeration.summary

section

variable {text before behind : Text} {c : Char} {allowRepeats : Bool} {previous : Option Char}

/-- At a place that what was read before takes in, nothing is read. -/
theorem summariesFrom_of_skip {skip : Nat} (hskip : 0 < skip) (offset : Nat) :
    summariesFrom text allowRepeats (offset + skip)
        (Header.headersFrom previous offset (c :: behind)) =
      summariesFrom text allowRepeats (offset + 1 + (skip - 1))
        (Header.headersFrom (some c) (offset + 1) behind) := by
  have hposition : offset + skip = offset + 1 + (skip - 1) := by omega
  rw [← hposition, summariesFrom, summariesFrom, Header.headersFrom]
  cases hheader : Header.headerAt? previous offset (c :: behind) with
  | none => rfl
  | some header =>
    have hstart := Header.start_of_headerAt? hheader
    rw [Option.toList_some, List.singleton_append, attemptsFrom, if_pos (by omega)]

variable (hmasked : text.masked = before ++ c :: behind)

include hmasked

/-- Where no declaration can be read the search goes on behind the first letter. -/
theorem summariesFrom_of_readHead?_eq_none
    (hhead : readHead? allowRepeats previous (c :: behind) = none) :
    summariesFrom text allowRepeats before.length
        (Header.headersFrom previous before.length (c :: behind)) =
      summariesFrom text allowRepeats (before.length + 1)
        (Header.headersFrom (some c) (before.length + 1) behind) := by
  rw [summariesFrom, summariesFrom, Header.headersFrom]
  cases hheader : Header.headerAt? previous before.length (c :: behind) with
  | none =>
    refine congrArg (fun attempts => (attempts.filterMap Attempt.enumeration?).map
      Enumeration.summary) (attemptsFrom_congr _ fun later hlater => ?_)
    have := Header.le_start_of_mem hlater
    omega
  | some header =>
    have hstart := Header.start_of_headerAt? hheader
    have hread := toOption_readDeclaration_append hmasked allowRepeats hheader
    rw [hhead, Option.map_none, Option.map_eq_none_iff] at hread
    rw [Option.toList_some, List.singleton_append, attemptsFrom, if_neg (by omega)]
    cases hfailure : readDeclaration text text.masked allowRepeats header with
    | ok e =>
      rw [hfailure] at hread
      exact absurd hread (Option.some_ne_none _)
    | error failure =>
      simp only [Attempt.resumeAt, List.filterMap_cons, Attempt.enumeration?, Except.toOption]
      rw [attemptsFrom_resume _ hheader]

/-- Where a declaration can be read the search goes on behind it. -/
theorem summariesFrom_of_readHead?_eq_some {name : Text} {values : List Text} {length : Nat}
    (hhead : readHead? allowRepeats previous (c :: behind) = some (name, values, length)) :
    summariesFrom text allowRepeats before.length
        (Header.headersFrom previous before.length (c :: behind)) =
      Reading.summary text ⟨name, values, before.length, before.length + length⟩ ::
        summariesFrom text allowRepeats (before.length + 1 + (length - 1))
          (Header.headersFrom (some c) (before.length + 1) behind) := by
  obtain ⟨gap, clause, body, rest, hdeclares, -, -, hlength⟩ := readHead?_eq_some_iff.1 hhead
  have hrest := hdeclares.length_rest_lt
  have hposition : before.length + length = before.length + 1 + (length - 1) := by omega
  obtain ⟨header, hheader⟩ : ∃ header,
      Header.headerAt? previous before.length (c :: behind) = some header := by
    obtain ⟨header, -, hheader, -⟩ := hdeclares.exists_headerAt?
    exact ⟨_, (Header.headerAt?_offset previous _ _).trans (congrArg _ hheader)⟩
  have hstart := Header.start_of_headerAt? hheader
  have hread := toOption_readDeclaration_append hmasked allowRepeats hheader
  rw [hhead, Option.map_some, Option.map_eq_some_iff] at hread
  obtain ⟨e, hok, hsummary⟩ := hread
  have hspan : e.span = some (.ofOffsets text before.length (before.length + length : Nat)) :=
    (Prod.mk.inj (Prod.mk.inj hsummary).2).2
  have hresume : Attempt.resumeAt ⟨header, readDeclaration text text.masked allowRepeats header⟩ =
      (before.length + length : Nat) := by
    cases hfailure : readDeclaration text text.masked allowRepeats header with
    | error failure =>
      rw [hfailure] at hok
      exact absurd hok.symm (Option.some_ne_none _)
    | ok e' =>
      rw [hfailure] at hok
      obtain rfl := Option.some.inj hok
      simp only [Attempt.resumeAt, hspan, Option.map_some, Option.getD_some, Span.ofOffsets]
  rw [← hposition, summariesFrom, summariesFrom, Header.headersFrom, hheader, Option.toList_some,
    List.singleton_append, attemptsFrom, if_neg (by omega)]
  dsimp only
  rw [hresume, List.filterMap_cons, Attempt.enumeration?, hok, List.map_cons, hsummary]

end

/-- The attempts at the headers behind a place read what is read in one pass. -/
theorem summariesFrom_headersFrom {text before behind : Text}
    (hmasked : text.masked = before ++ behind) (allowRepeats : Bool) (skip : Nat)
    (previous : Option Char) :
    summariesFrom text allowRepeats (before.length + skip)
        (Header.headersFrom previous before.length behind) =
      (readingsFrom allowRepeats skip previous before.length behind).map
        (Reading.summary text) := by
  induction behind generalizing before skip previous with
  | nil => rfl
  | cons c behind ih =>
    have hmasked' : text.masked = (before ++ [c]) ++ behind := by
      rw [hmasked, List.append_assoc]
      rfl
    have ih := ih hmasked'
    rw [List.length_append, List.length_singleton] at ih
    rw [readingsFrom]
    split_ifs with hskip
    · rw [summariesFrom_of_skip hskip, ih]
    obtain rfl : skip = 0 := by omega
    cases hhead : readHead? allowRepeats previous (c :: behind) with
    | none => exact (summariesFrom_of_readHead?_eq_none hmasked hhead).trans (ih 0 (some c))
    | some read =>
      obtain ⟨name, values, length⟩ := read
      exact (summariesFrom_of_readHead?_eq_some hmasked hhead).trans (congrArg _ (ih _ (some c)))

/-- All enumerations of a text are what is read of it in one pass. -/
theorem map_summary_parseAll (text : Text) (allowRepeats : Bool) :
    (parseAll text allowRepeats).map Enumeration.summary =
      (readings allowRepeats text.masked).map (Reading.summary text) :=
  summariesFrom_headersFrom (show text.masked = [] ++ text.masked from rfl) allowRepeats 0 none

/-- What is read starts with the first letter of the keyword. -/
theorem head?_of_readHead? {allowRepeats : Bool} {previous : Option Char} {text : Text}
    {read : Text × List Text × Nat} (h : readHead? allowRepeats previous text = some read) :
    text.head? = some 'e' := by
  obtain ⟨name, values, length⟩ := read
  obtain ⟨gap, clause, body, rest, hdeclares, -⟩ := readHead?_eq_some_iff.1 h
  rw [hdeclares.heads.text_eq]
  rfl

/-- A reading is what is read at its place. -/
theorem exists_of_mem_readingsFrom {allowRepeats : Bool} {skip offset : Nat}
    {previous : Option Char} {text : Text} {reading : Reading}
    (h : reading ∈ readingsFrom allowRepeats skip previous offset text) :
    ∃ before rest length, text = before ++ rest ∧ reading.start = offset + before.length ∧
      reading.stop = reading.start + length ∧ readHead? allowRepeats
        (before.getLast?.or previous) rest = some (reading.name, reading.values, length) := by
  induction text generalizing skip previous offset with
  | nil => exact absurd h List.not_mem_nil
  | cons c text ih =>
    have hcons : (∃ before rest length, text = before ++ rest ∧
        reading.start = offset + 1 + before.length ∧ reading.stop = reading.start + length ∧
        readHead? allowRepeats (before.getLast?.or (some c)) rest =
          some (reading.name, reading.values, length)) →
        ∃ before rest length, c :: text = before ++ rest ∧ reading.start = offset + before.length ∧
          reading.stop = reading.start + length ∧ readHead? allowRepeats
            (before.getLast?.or previous) rest = some (reading.name, reading.values, length) := by
      rintro ⟨before, rest, length, rfl, hstart, hstop, hread⟩
      refine ⟨c :: before, rest, length, rfl, ?_, hstop, by rwa [getLast?_cons_or]⟩
      rw [hstart, List.length_cons]
      omega
    rw [readingsFrom] at h
    split_ifs at h
    · exact hcons (ih h)
    · split at h
      · next name values length hhead =>
        rcases List.mem_cons.1 h with rfl | h
        · exact ⟨[], c :: text, length, rfl, rfl, rfl, hhead⟩
        · exact hcons (ih h)
      · exact hcons (ih h)

/-- A reading lies within the text of which it is read. -/
theorem stop_le_of_mem_readingsFrom {allowRepeats : Bool} {skip offset : Nat}
    {previous : Option Char} {text : Text} {reading : Reading}
    (h : reading ∈ readingsFrom allowRepeats skip previous offset text) :
    offset ≤ reading.start ∧ reading.start < reading.stop ∧
      reading.stop ≤ offset + text.length := by
  obtain ⟨before, rest, length, rfl, hstart, hstop, hread⟩ := exists_of_mem_readingsFrom h
  obtain ⟨gap, clause, body, behind, hdeclares, -, -, hlength⟩ := readHead?_eq_some_iff.1 hread
  have := hdeclares.length_rest_lt
  rw [List.length_append]
  omega

/-! ### Texts in parts -/

/-- No closed declaration that starts in a text goes on behind it. -/
def Parted (previous : Option Char) (text behind : Text) : Prop :=
  ∀ before rest, text = before ++ rest → rest ≠ [] → ∀ gap name clause body after,
    Declares (before.getLast?.or previous) (rest ++ behind) gap name clause body after →
      behind.length ≤ after.length

/-- Nothing that is read of a text goes on behind a seam. -/
def Splits (allowRepeats : Bool) (skip : Nat) (previous : Option Char) (offset : Nat)
    (text behind : Text) : Prop :=
  ∀ reading ∈ readingsFrom allowRepeats skip previous offset (text ++ behind),
    reading.start < offset + text.length → reading.stop ≤ offset + text.length

namespace Splits

variable {allowRepeats : Bool} {skip offset length : Nat} {previous : Option Char} {c : Char}
  {text behind name : Text} {values : List Text}

theorem tail_of_skip (h : Splits allowRepeats skip previous offset (c :: text) behind)
    (hskip : 0 < skip) : Splits allowRepeats (skip - 1) (some c) (offset + 1) text behind := by
  intro reading hmem
  have hwhole := h reading (by rw [List.cons_append, readingsFrom, if_pos hskip]; exact hmem)
  rw [List.length_cons] at hwhole
  omega

theorem tail_of_none (h : Splits allowRepeats 0 previous offset (c :: text) behind)
    (hhead : readHead? allowRepeats previous (c :: (text ++ behind)) = none) :
    Splits allowRepeats 0 (some c) (offset + 1) text behind := by
  intro reading hmem
  have hwhole := h reading (by
    rw [List.cons_append, readingsFrom, if_neg (Nat.lt_irrefl 0), hhead]
    exact hmem)
  rw [List.length_cons] at hwhole
  omega

/-- What is read at the head of such a text ends before the seam. -/
theorem tail_of_some (h : Splits allowRepeats 0 previous offset (c :: text) behind)
    (hhead : readHead? allowRepeats previous (c :: (text ++ behind)) = some (name, values, length)) :
    length ≤ (c :: text).length ∧
      Splits allowRepeats (length - 1) (some c) (offset + 1) text behind := by
  have hlist : readingsFrom allowRepeats 0 previous offset (c :: text ++ behind) =
      ⟨name, values, offset, offset + length⟩ ::
        readingsFrom allowRepeats (length - 1) (some c) (offset + 1) (text ++ behind) := by
    rw [List.cons_append, readingsFrom, if_neg (Nat.lt_irrefl 0), hhead]
  rw [Splits, hlist, List.length_cons] at h
  constructor
  · have hfirst := h _ List.mem_cons_self
    dsimp only at hfirst
    rw [List.length_cons]
    omega
  · intro reading hmem
    have hlater := h reading (List.mem_cons_of_mem _ hmem)
    omega

theorem nil : Splits allowRepeats skip previous offset [] behind := by
  intro reading hmem hstart
  have := (stop_le_of_mem_readingsFrom hmem).1
  rw [List.length_nil] at hstart
  omega

theorem cons_of_skip (h : Splits allowRepeats (skip - 1) (some c) (offset + 1) text behind)
    (hskip : 0 < skip) : Splits allowRepeats skip previous offset (c :: text) behind := by
  intro reading hmem hstart
  rw [List.cons_append, readingsFrom, if_pos hskip] at hmem
  rw [List.length_cons] at hstart ⊢
  have := h reading hmem (by omega)
  omega

theorem cons_of_none (h : Splits allowRepeats 0 (some c) (offset + 1) text behind)
    (hhead : readHead? allowRepeats previous (c :: (text ++ behind)) = none) :
    Splits allowRepeats 0 previous offset (c :: text) behind := by
  intro reading hmem hstart
  rw [List.cons_append, readingsFrom, if_neg (Nat.lt_irrefl 0), hhead] at hmem
  rw [List.length_cons] at hstart ⊢
  have := h reading hmem (by omega)
  omega

/-- If what is read at the head of a text ends before the seam, all that is read
    does as soon as what is read behind it does. -/
theorem cons_of_some (h : Splits allowRepeats (length - 1) (some c) (offset + 1) text behind)
    (hhead : readHead? allowRepeats previous (c :: (text ++ behind)) = some (name, values, length))
    (hlength : length ≤ (c :: text).length) :
    Splits allowRepeats 0 previous offset (c :: text) behind := by
  intro reading hmem hstart
  rw [List.cons_append, readingsFrom, if_neg (Nat.lt_irrefl 0), hhead] at hmem
  rw [List.length_cons] at hstart hlength ⊢
  rcases List.mem_cons.1 hmem with rfl | hmem
  · dsimp only
    omega
  · have := h reading hmem (by omega)
    omega

/-- A text of which nothing that is read goes on behind a seam is read in two
    parts. -/
theorem readingsFrom_append (h : Splits allowRepeats skip previous offset text behind)
    (hskip : skip ≤ text.length) :
    readingsFrom allowRepeats skip previous offset (text ++ behind) =
      readingsFrom allowRepeats skip previous offset text ++
        readingsFrom allowRepeats 0 (text.getLast?.or previous) (offset + text.length) behind := by
  induction text generalizing skip offset previous with
  | nil =>
    obtain rfl : skip = 0 := by simpa using hskip
    rfl
  | cons c text ih =>
    have hoffset : offset + (c :: text).length = offset + 1 + text.length := by
      rw [List.length_cons]
      omega
    rw [List.length_cons] at hskip
    rw [List.cons_append, readingsFrom, readingsFrom, getLast?_cons_or, hoffset]
    split_ifs with hpos
    · exact ih (h.tail_of_skip hpos) (by omega)
    obtain rfl : skip = 0 := by omega
    cases hwhole : readHead? allowRepeats previous (c :: (text ++ behind)) with
    | some read =>
      obtain ⟨name, values, length⟩ := read
      obtain ⟨hle, htail⟩ := h.tail_of_some hwhole
      rw [readHead?_of_append (show readHead? allowRepeats previous (c :: text ++ behind) = _ from
        hwhole) hle]
      rw [List.length_cons] at hle
      exact congrArg _ (ih htail (by omega))
    | none =>
      -- What the part has here would be that of the whole.
      have hpart : readHead? allowRepeats previous (c :: text) = none := by
        rw [Option.eq_none_iff_forall_ne_some]
        intro read hread
        exact Option.some_ne_none _ ((readHead?_append hread behind).symm.trans hwhole)
      rw [hpart]
      exact ih (h.tail_of_none hwhole) (Nat.zero_le _)

end Splits

/-- A text in which no declaration goes on behind a seam splits there. -/
theorem Parted.splits {previous : Option Char} {text behind : Text} (h : Parted previous text behind)
    (allowRepeats : Bool) (skip offset : Nat) :
    Splits allowRepeats skip previous offset text behind := by
  intro reading hmem hstart
  obtain ⟨before, rest, length, hsplit, hplace, hstop, hread⟩ := exists_of_mem_readingsFrom hmem
  obtain ⟨gap, clause, body, after, hdeclares, -, -, hlength⟩ := readHead?_eq_some_iff.1 hread
  -- The declaration starts within the text.
  obtain ⟨more, rfl, rfl⟩ : ∃ more, text = before ++ more ∧ rest = more ++ behind := by
    rcases List.append_eq_append_iff.1 hsplit with ⟨more, rfl, hmore⟩ | ⟨more, htext, hrest⟩
    · rw [List.length_append] at hplace
      obtain rfl : more = [] := List.length_eq_zero_iff.1 (by omega)
      exact ⟨[], by simp, hmore.symm⟩
    · exact ⟨more, htext, hrest⟩
  have hne : more ≠ [] := by
    rintro rfl
    rw [List.append_nil] at hstart
    omega
  have hle := h before more rfl hne _ _ _ _ _ hdeclares
  rw [List.length_append] at hlength hstart ⊢
  omega

/-- Of the character before a text it counts only whether it is one of a word. -/
theorem readHead?_congr {allowRepeats : Bool} {previous previous' : Option Char}
    (h : previous.any isWordChar = previous'.any isWordChar) (text : Text) :
    readHead? allowRepeats previous text = readHead? allowRepeats previous' text := by
  have hmention : Header.mention? previous text = Header.mention? previous' text := by
    rw [Header.mention?, Header.mention?, h]
  rw [readHead?, readHead?, Header.headerAt?, Header.headerAt?, hmention]

theorem readingsFrom_congr {allowRepeats : Bool} {previous previous' : Option Char}
    (h : previous.any isWordChar = previous'.any isWordChar) (skip offset : Nat) (text : Text) :
    readingsFrom allowRepeats skip previous offset text =
      readingsFrom allowRepeats skip previous' offset text := by
  cases text with
  | nil => rfl
  | cons c text => rw [readingsFrom, readingsFrom, readHead?_congr h]

/-- A reading, moved by a distance. -/
def Reading.moved (distance : Nat) (reading : Reading) : Reading :=
  { reading with start := distance + reading.start, stop := distance + reading.stop }

@[simp] theorem Reading.start_moved (distance : Nat) (reading : Reading) :
    (reading.moved distance).start = distance + reading.start := rfl

@[simp] theorem Reading.stop_moved (distance : Nat) (reading : Reading) :
    (reading.moved distance).stop = distance + reading.stop := rfl

theorem readingsFrom_offset (allowRepeats : Bool) (skip : Nat) (previous : Option Char)
    (distance offset : Nat) (text : Text) :
    readingsFrom allowRepeats skip previous (distance + offset) text =
      (readingsFrom allowRepeats skip previous offset text).map (Reading.moved distance) := by
  induction text generalizing skip previous offset with
  | nil => rfl
  | cons c text ih =>
    rw [readingsFrom, readingsFrom, Nat.add_assoc, ih]
    split_ifs
    · rfl
    · cases readHead? allowRepeats previous (c :: text) with
      | none => exact ih 0 _ _
      | some read =>
        simp only [List.map_cons, ih, Reading.moved, Nat.add_assoc]

/-- No closed declaration starts in a text that another one follows. -/
def Undeclared (previous : Option Char) (text behind : Text) : Prop :=
  ∀ before rest, text = before ++ rest → rest ≠ [] → ∀ gap name clause body after,
    ¬Declares (before.getLast?.or previous) (rest ++ behind) gap name clause body after

/-- Nothing is read of a text in which no declaration starts. -/
theorem readingsFrom_of_undeclared {allowRepeats : Bool} {offset : Nat} {previous : Option Char}
    {text behind : Text} (h : Undeclared previous text behind) :
    readingsFrom allowRepeats 0 previous offset (text ++ behind) =
      readingsFrom allowRepeats 0 (text.getLast?.or previous) (offset + text.length) behind := by
  induction text generalizing offset previous with
  | nil => rfl
  | cons c text ih =>
    have hhead : readHead? allowRepeats previous (c :: (text ++ behind)) = none := by
      rw [Option.eq_none_iff_forall_ne_some]
      rintro ⟨name, values, length⟩ hsome
      obtain ⟨gap, clause, body, rest, hdeclares, -⟩ := readHead?_eq_some_iff.1 hsome
      exact h [] (c :: text) rfl (List.cons_ne_nil _ _) gap name clause body rest hdeclares
    have hundeclared : Undeclared (some c) text behind := by
      intro before rest htext hne gap name clause body after hdeclares
      rw [← getLast?_cons_or c before previous] at hdeclares
      exact h (c :: before) rest (by rw [htext]; rfl) hne gap name clause body after hdeclares
    rw [List.cons_append, readingsFrom, if_neg (Nat.lt_irrefl 0), hhead, getLast?_cons_or,
      List.length_cons, Nat.add_comm text.length, ← Nat.add_assoc]
    exact ih hundeclared

/-- What is read of a text with a part that holds no declaration and that none
    reaches into: what is read before the part and what is read behind it. -/
theorem readings_splice {allowRepeats : Bool} {before part behind : Text}
    (hsplits : Splits allowRepeats 0 none 0 before (part ++ behind))
    (hpart : Undeclared before.getLast? part behind)
    (hlast : behind ≠ [] → (part.getLast?.or before.getLast?).any isWordChar = false) :
    readings allowRepeats (before ++ (part ++ behind)) = readings allowRepeats before ++
      (readings allowRepeats behind).map (Reading.moved (before.length + part.length)) := by
  have hbehind : readingsFrom allowRepeats 0 (part.getLast?.or before.getLast?)
      (before.length + part.length) behind =
        (readings allowRepeats behind).map (Reading.moved (before.length + part.length)) := by
    rw [readings, ← readingsFrom_offset]
    cases behind with
    | nil => rfl
    | cons c behind => exact readingsFrom_congr (hlast (List.cons_ne_nil _ _)) 0 _ _
  rw [readings, hsplits.readingsFrom_append (Nat.zero_le _), Option.or_none, Nat.zero_add,
    readingsFrom_of_undeclared hpart, hbehind]
  rfl

end EnumCompanion
