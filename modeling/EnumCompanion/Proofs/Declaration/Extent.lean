import EnumCompanion.Proofs.Declaration.Listing
import EnumCompanion.Proofs.Mask
import EnumCompanion.Proofs.Text.Lines

/-!
# The extent of a declaration

The span of an enumeration reaches from the keyword of its declaration to the
closing brace. Both show, so that what stands between is masked by itself as it
is in the text around it, and is read by itself as the same enumeration.

* `exists_parse_of_readHead?`: what is read at the head of a text is read first;
* `Enumeration.Spans`: an enumeration with the exact extent of its declaration;
* `exists_spans_of_mem_parseAll`: so are those that are read of a text;
* `splits_of_mem_parseAll`: nothing that is read goes on behind such a declaration.
-/

namespace EnumCompanion

open Text Mask

variable {text : Text} {allowRepeats : Bool} {e : Enumeration}

/-! ### Declarations in a mask -/

/-- What is read at the head of a text is read first. -/
theorem exists_parse_of_readHead? {name : Text} {values : List Text} {length : Nat}
    (h : readHead? allowRepeats none text.masked = some (name, values, length)) :
    ∃ e, parse text allowRepeats = .ok e ∧
      e.summary = (name, values, some (.ofOffsets text 0 length)) := by
  obtain ⟨gap, clause, body, rest, hdeclares, -, -, -⟩ := readHead?_eq_some_iff.1 h
  obtain ⟨header, -, hheader, -⟩ := hdeclares.exists_headerAt?
  have hfirst : firstHeader? text.masked 0 = some header := by
    have hne : text.masked ≠ [] := by
      intro hnil
      have hlt := hdeclares.length_rest_lt
      rw [hnil] at hlt
      exact Nat.not_lt_zero _ hlt
    obtain ⟨c, tail, hcons⟩ := List.exists_cons_of_ne_nil hne
    rw [hcons] at hheader ⊢
    rw [firstHeader?, headers, Header.headersFrom, hheader]
    simp
  have hsummary := toOption_readDeclaration_append (show text.masked = [] ++ text.masked from rfl)
    allowRepeats hheader
  rw [h, Option.map_some, Option.map_eq_some_iff] at hsummary
  obtain ⟨e, he, hsummary⟩ := hsummary
  refine ⟨e, ?_, hsummary.trans ?_⟩
  · rw [parse, hfirst]
    dsimp only
    cases hread : readDeclaration text text.masked allowRepeats header with
    | error failure =>
      rw [hread] at he
      exact absurd he.symm (Option.some_ne_none _)
    | ok e' =>
      rw [hread] at he
      exact congrArg _ (Option.some.inj he)
  · simp [Reading.summary]

/-- The declaration of an enumeration that is listed stands in the mask of the
    text, and all of it is read. -/
theorem exists_readHead?_of_mem_parseAll (h : e ∈ parseAll text allowRepeats) :
    ∃ before declaration behind, text.masked = before ++ (declaration ++ behind) ∧
      readHead? allowRepeats before.getLast? declaration =
        some (e.name, e.values, declaration.length) ∧
      e.span = some (.ofOffsets text before.length (before.length + declaration.length : Nat)) := by
  obtain ⟨header, htried, hread⟩ := mem_parseAll_iff.1 h
  have hmem : header ∈ headers text.masked := (of_mem_attemptsFrom htried).1
  obtain ⟨before, rest, hmasked, hheader⟩ := Header.mem_headersFrom.1 hmem
  rw [Nat.zero_add] at hheader
  have hsummary := toOption_readDeclaration_append hmasked allowRepeats hheader
  rw [hread] at hsummary
  obtain ⟨⟨name, values, length⟩, hhead, hsummary⟩ := Option.map_eq_some_iff.1 hsummary.symm
  obtain ⟨rfl, rfl, hspan⟩ : name = e.name ∧ values = e.values ∧ _ := by
    simpa only [Reading.summary, Enumeration.summary, Prod.mk.injEq] using hsummary
  have hlength : length ≤ rest.length := by
    obtain ⟨-, -, -, behind, -, -, -, hlength⟩ := readHead?_eq_some_iff.1 hhead
    omega
  have htake : (rest.take length).length = length := List.length_take_of_le hlength
  refine ⟨before, rest.take length, rest.drop length, ?_, ?_, ?_⟩
  · rw [List.take_append_drop, hmasked]
  · rw [htake]
    have hwhole : readHead? allowRepeats before.getLast? (rest.take length ++ rest.drop length) =
        some (e.name, e.values, length) := by
      rwa [List.take_append_drop, ← @Option.or_none _ before.getLast?]
    exact readHead?_of_append hwhole (Nat.le_of_eq htake.symm)
  · rw [htake]
    exact hspan.symm

/-- A declaration that is read as a whole starts with the keyword and ends with a
    brace. -/
theorem of_readHead?_length {previous : Option Char} {declaration name : Text}
    {values : List Text}
    (h : readHead? allowRepeats previous declaration = some (name, values, declaration.length)) :
    Header.keyword <+: declaration ∧ declaration.getLast? = some '}' ∧
      previous.any isWordChar = false := by
  obtain ⟨gap, clause, body, rest, hdeclares, -, -, hlength⟩ := readHead?_eq_some_iff.1 h
  obtain rfl : rest = [] := List.length_eq_zero_iff.1 (by omega)
  refine ⟨⟨_, hdeclares.heads.text_eq.symm⟩, ?_, hdeclares.heads.previous⟩
  rw [hdeclares.text_eq, ← List.cons_append, ← List.append_assoc, List.getLast?_concat]

/-- The declaration of an enumeration that is listed shows at both ends, and is
    read by itself as a whole. -/
theorem exists_shows_of_mem_parseAll (h : e ∈ parseAll text allowRepeats) :
    ∃ before part behind, text = before ++ (part ++ behind) ∧ Shows before part behind 'e' ∧
      maskFrom (after (.code .clear) before) part = part.masked ∧
      readHead? allowRepeats none part.masked = some (e.name, e.values, part.length) ∧
      e.span = some (.ofOffsets text before.length (before.length + part.length : Nat)) := by
  obtain ⟨masked, declaration, maskedBehind, hmasked, hread, hspan⟩ :=
    exists_readHead?_of_mem_parseAll h
  obtain ⟨hhead, hlast, hprevious⟩ := of_readHead?_length hread
  -- The declaration is the mask of what stands in its place.
  have hlength := congrArg List.length hmasked
  rw [length_masked, List.length_append, List.length_append] at hlength
  obtain ⟨before, part, behind, rfl, hbefore, hpart⟩ :=
    exists_parts (show masked.length + declaration.length ≤ text.length by omega)
  have hfirst : declaration.head? = some 'e' := by
    obtain ⟨more, rfl⟩ := hhead
    rfl
  obtain ⟨hshows, -, hmask, -⟩ := shows_of_masked hmasked hbefore hpart hfirst (by decide) hlast
  obtain ⟨trail, htrail⟩ := hshows.resume
  obtain ⟨letters, rfl⟩ := List.head?_eq_some_iff.1 hshows.head
  have hself : maskFrom (after (.code .clear) before) ('e' :: letters) =
      Text.masked ('e' :: letters) :=
    (maskFrom_of_isReady (Mode.isReady_of_resume? (by decide) htrail)
      (isProper_after (show Mode.IsProper (.code .clear) from trivial) _) (by decide) (by decide)
      (by decide) letters).1
  have hsame : (none : Option Char).any isWordChar = masked.getLast?.any isWordChar :=
    hprevious.symm
  rw [← hbefore, ← hpart] at hspan
  refine ⟨before, 'e' :: letters, behind, rfl, hshows, hself, ?_, hspan⟩
  rw [← hself, hmask, hpart, readHead?_congr hsame]
  exact hread

/-! ### Spans -/

namespace Enumeration

/-- The name and the values of an enumeration make one. -/
theorem ofNames_eq_ok (e : Enumeration) :
    ofNames (some e.name) e.values = .ok { e with span := none } := by
  have hgood : e.values.find? (!isValueName ·) = none := by
    simpa using e.isValueName_values
  have hname : isTypeName ((some e.name).getD []) = true := e.isTypeName_name
  rw [ofNames, dif_pos hname, dif_neg e.values_ne_nil]
  split
  · next value hbad => exact absurd (hgood.symm.trans hbad) (Option.some_ne_none value).symm
  · rfl

/-- An enumeration that is read of a text with exact extent: its span reaches
    from the keyword to a closing brace, what it covers is read by itself as the
    same enumeration, and its name and values make one. -/
structure Spans (e : Enumeration) (text : Text) (allowRepeats : Bool) (start stop : Nat) : Prop where
  span : e.span = some (.ofOffsets text start stop)
  start_lt : start < stop
  stop_le : stop ≤ text.length
  head : Header.keyword <+: text.slice start stop
  last : (text.slice start stop).getLast? = some '}'
  parse : ∃ e', EnumCompanion.parse (text.slice start stop) allowRepeats = .ok e' ∧
    e'.summary = (e.name, e.values,
      some (.ofOffsets (text.slice start stop) 0 (text.slice start stop).length))
  ofNames : Enumeration.ofNames (some e.name) e.values = .ok { e with span := none }

end Enumeration

/-- What is listed has exact extent. -/
theorem exists_spans_of_mem_parseAll (h : e ∈ parseAll text allowRepeats) :
    ∃ start stop : Nat, e.Spans text allowRepeats start stop := by
  obtain ⟨before, part, behind, rfl, hshows, hmask, hread, hspan⟩ := exists_shows_of_mem_parseAll h
  obtain ⟨hhead, -, -⟩ := of_readHead?_length (by rwa [length_masked])
  have hslice := slice_append before part behind
  refine ⟨_, _, hspan, ?_, ?_, ?_, ?_, ?_, e.ofNames_eq_ok⟩
  · obtain ⟨letters, hpart⟩ := List.head?_eq_some_iff.1 hshows.head
    rw [hpart, List.length_cons]
    omega
  · rw [List.length_append, List.length_append]
    omega
  · rw [hslice]
    exact prefix_of_prefix_maskFrom (forall_mem_of_all (by decide)) hhead
  · rw [hslice]
    exact hshows.last
  · rw [hslice]
    exact exists_parse_of_readHead? hread

/-! ### Seams behind a declaration -/

/-- Where only blanks follow a declaration that is listed, no other one that is
    read goes on behind them. -/
theorem splits_of_mem_parseAll (h : e ∈ parseAll text allowRepeats) {start stop : Nat}
    (hspan : e.span = some (.ofOffsets text start stop)) (hlt : start < stop) {before behind : Text}
    (hmasked : text.masked = before ++ behind) (hstop : stop ≤ before.length)
    (hgap : ∀ c ∈ before.drop stop, isBlank c = true) :
    Splits allowRepeats 0 none 0 before behind := by
  rintro ⟨name, values, start', stop'⟩ hmem hstart
  rw [Nat.zero_add] at hstart ⊢
  dsimp only at hstart ⊢
  obtain ⟨other, hother, hsummary⟩ := List.mem_map.1 (show (name, values,
      some (Span.ofOffsets text start' stop')) ∈ (parseAll text allowRepeats).map
        Enumeration.summary by
    rw [map_summary_parseAll, readings, hmasked]
    exact List.mem_map_of_mem hmem)
  have hspan' : other.span = some (.ofOffsets text start' stop') := congrArg (·.2.2) hsummary
  rcases (lists_parseAll text allowRepeats).eq_or_precedes h hother with rfl | hprecedes | hprecedes
  · have : (stop' : Int) = stop := congrArg Span.stop (Option.some.inj (hspan'.symm.trans hspan))
    omega
  · -- The other one would start among the blanks.
    obtain ⟨_, hmem₁, _, hmem₂, -, hle⟩ := hprecedes
    obtain rfl := Option.some.inj (hspan.symm.trans hmem₁)
    obtain rfl := Option.some.inj (hspan'.symm.trans hmem₂)
    have hle : stop ≤ start' := Int.ofNat_le.1 hle
    obtain ⟨run, rest, length, hsplit, hrun, -, hread⟩ := exists_of_mem_readingsFrom hmem
    dsimp only at hrun
    rw [Nat.zero_add] at hrun
    obtain ⟨more, rfl⟩ : ∃ more, rest = 'e' :: more :=
      List.head?_eq_some_iff.1 (head?_of_readHead? hread)
    have hmem : 'e' ∈ before.drop stop := by
      refine List.mem_of_getElem? (i := run.length - stop) ?_
      rw [List.getElem?_drop, Nat.add_sub_cancel' (hrun ▸ hle), ← List.getElem?_append_left
        (hrun ▸ hstart), hsplit, List.getElem?_append_right (Nat.le_refl _), Nat.sub_self]
      rfl
    exact absurd (hgap _ hmem) (by decide)
  · obtain ⟨_, hmem₁, _, hmem₂, -, hle⟩ := hprecedes
    obtain rfl := Option.some.inj (hspan'.symm.trans hmem₁)
    obtain rfl := Option.some.inj (hspan.symm.trans hmem₂)
    have hle : stop' ≤ start := Int.ofNat_le.1 hle
    omega

end EnumCompanion
