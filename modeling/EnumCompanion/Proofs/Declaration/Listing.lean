import EnumCompanion.Proofs.Declaration.Reading

/-!
# The declarations that are listed

All headers of a text are tried from left to right. Behind a declaration that is
read the search goes on at its end, behind one that is not at its body. Both
places lie before the next header that is not part of what was read, so that no
header is passed over or tried twice: what is listed are the declarations of all
headers that can be read, without those within the span of one listed before.

* `Header.StandsIn`, `Header.mem_headers_iff`: the headers of a text, by their
  grammar;
* `attemptsFrom_eq_loop`, `runs_attemptsFrom`: the attempts are those of a loop
  that looks for the first header again and again, and comes to an end;
* `mem_attemptsFrom_iff`: a header is tried unless it is within what was read;
* `Lists`, `Lists.unique`: the one list of the declarations of a text;
* `lists_iff_eq_parseAll`: `parseAll` is this list, and `parse` gives the head of
  it.
-/

namespace EnumCompanion

open Text

/-! ### Headers -/

namespace Header

/-- A header that stands in a masked text, with its keyword, its name and its
    clause up to its brace. -/
def StandsIn (header : Header) (masked : Text) : Prop :=
  ∃ before text gap clause rest, masked = before ++ text ∧ header.start = before.length ∧
    Heads before.getLast? text gap header.name clause rest ∧
    header.brace + 1 + rest.length = masked.length

/-- The headers of a text are those that stand in it. -/
theorem mem_headers_iff {masked : Text} {header : Header} :
    header ∈ headers masked ↔ header.StandsIn masked := by
  simp only [headers, mem_headersFrom, headerAt?_eq_some_iff, Option.or_none, Nat.zero_add]
  constructor
  · rintro ⟨before, text, rfl, gap, clause, rest, hheads, hstart, hbrace⟩
    exact ⟨before, text, gap, clause, rest, rfl, hstart, hheads, by rw [List.length_append, hbrace]⟩
  · rintro ⟨before, text, gap, clause, rest, rfl, hstart, hheads, hbrace⟩
    exact ⟨before, text, rfl, gap, clause, rest, hheads, hstart, by rw [hbrace, List.length_append]⟩

/-- A header starts before its brace, within the text. -/
theorem StandsIn.start_lt {header : Header} {masked : Text} (h : header.StandsIn masked) :
    header.start < header.brace ∧ header.start < masked.length := by
  obtain ⟨before, text, gap, clause, rest, rfl, hstart, hheads, hbrace⟩ := h
  have hlength := congrArg List.length hheads.text_eq
  simp only [keyword, List.length_append, List.length_cons] at hlength hbrace ⊢
  omega

/-- Each header ends before the next one starts. -/
theorem pairwise_headersFrom {previous : Option Char} {offset : Nat} {text : Text} :
    (headersFrom previous offset text).Pairwise fun header later => header.brace < later.start := by
  induction text generalizing previous offset with
  | nil => exact List.Pairwise.nil
  | cons c text ih =>
    rw [headersFrom, List.pairwise_append]
    refine ⟨?_, ih, fun header hheader later hlater => ?_⟩
    · cases headerAt? previous offset (c :: text) with
      | none => exact List.Pairwise.nil
      | some header => exact List.pairwise_singleton _ _
    · exact brace_lt_start (Option.mem_toList.1 hheader) hlater

end Header

/-! ### Attempts -/

section

variable {read : Header → Except Failure Enumeration} {position : Int} {headers : List Header}

/-- The attempt at a header. -/
def Attempt.at (read : Header → Except Failure Enumeration) (header : Header) : Attempt :=
  ⟨header, read header⟩

/-- Whether the search goes on behind every header that is tried. -/
def Advances (read : Header → Except Failure Enumeration) (headers : List Header) : Prop :=
  ∀ header ∈ headers, (header.start : Int) < (Attempt.at read header).resumeAt

/-- The attempts are those of a loop: the first header is looked for from a
    place on, tried, and the search goes on where the attempt says. -/
theorem attemptsFrom_eq_loop (hadvances : Advances read headers)
    (hordered : headers.Pairwise fun header later => header.start < later.start) :
    attemptsFrom read position headers =
      match headers.find? fun header => position ≤ header.start with
      | none => []
      | some header => .at read header :: attemptsFrom read (Attempt.at read header).resumeAt headers := by
  induction headers with
  | nil => rfl
  | cons header headers ih =>
    have hhere := hadvances header List.mem_cons_self
    obtain ⟨hlater, hordered⟩ := List.pairwise_cons.1 hordered
    have ih := ih (fun later hmem => hadvances later (List.mem_cons_of_mem _ hmem)) hordered
    rw [attemptsFrom, List.find?_cons]
    by_cases hbefore : (header.start : Int) < position
    · rw [if_pos hbefore, decide_eq_false (by omega), ih]
      -- Behind a later header this one is not tried again.
      cases hfind : headers.find? fun later => position ≤ later.start with
      | none => rfl
      | some later =>
        have hmem := List.mem_of_find?_eq_some hfind
        have hlt := hlater later hmem
        have hadvance := hadvances later (List.mem_cons_of_mem _ hmem)
        dsimp only
        rw [attemptsFrom, if_pos (by omega)]
    · rw [if_neg hbefore, decide_eq_true (by omega)]
      dsimp only [Attempt.at] at hhere ⊢
      rw [attemptsFrom, if_pos hhere]

/-- What is tried are headers, from the place on. -/
theorem of_mem_attemptsFrom {attempt : Attempt} (h : attempt ∈ attemptsFrom read position headers) :
    attempt.header ∈ headers ∧ attempt = .at read attempt.header := by
  induction headers generalizing position with
  | nil => exact absurd h List.not_mem_nil
  | cons header headers ih =>
    rw [attemptsFrom] at h
    split_ifs at h
    · exact (ih h).imp_left (List.mem_cons_of_mem _)
    · rcases List.mem_cons.1 h with rfl | h
      · exact ⟨List.mem_cons_self, rfl⟩
      · exact (ih h).imp_left (List.mem_cons_of_mem _)

/-- Headers before the place are not tried. -/
theorem le_start_of_mem_attemptsFrom (hadvances : Advances read headers) {attempt : Attempt}
    (h : attempt ∈ attemptsFrom read position headers) : position ≤ attempt.header.start := by
  induction headers generalizing position with
  | nil => exact absurd h List.not_mem_nil
  | cons header headers ih =>
    have hadvances' : Advances read headers := fun later hmem =>
      hadvances later (List.mem_cons_of_mem _ hmem)
    rw [attemptsFrom] at h
    split_ifs at h with hbefore
    · exact ih hadvances' h
    · rcases List.mem_cons.1 h with rfl | h
      · exact Int.not_lt.1 hbefore
      · have hle := ih hadvances' h
        have hadvance := hadvances header List.mem_cons_self
        dsimp only [Attempt.at] at hadvance
        omega

/-- Every attempt resumes behind its header, and before the next one. -/
theorem pairwise_attemptsFrom (hadvances : Advances read headers) :
    (attemptsFrom read position headers).Pairwise fun attempt later =>
      (attempt.header.start : Int) < attempt.resumeAt ∧ attempt.resumeAt ≤ later.header.start := by
  induction headers generalizing position with
  | nil => exact List.Pairwise.nil
  | cons header headers ih =>
    have hadvances' : Advances read headers := fun later hmem =>
      hadvances later (List.mem_cons_of_mem _ hmem)
    rw [attemptsFrom]
    split_ifs
    · exact ih hadvances'
    · refine List.pairwise_cons.2 ⟨fun later hlater => ?_, ih hadvances'⟩
      exact ⟨hadvances header List.mem_cons_self, le_start_of_mem_attemptsFrom hadvances' hlater⟩

/-- A header is tried exactly if no attempt before resumes behind it. -/
theorem mem_attemptsFrom_iff (hadvances : Advances read headers)
    (hordered : headers.Pairwise fun header later => header.start < later.start) {header : Header}
    (hmem : header ∈ headers) : .at read header ∈ attemptsFrom read position headers ↔
      position ≤ header.start ∧ ∀ attempt ∈ attemptsFrom read position headers,
        attempt.header.start < header.start → attempt.resumeAt ≤ header.start := by
  induction headers generalizing position with
  | nil => exact absurd hmem List.not_mem_nil
  | cons first headers ih =>
    have hadvances' : Advances read headers := fun later hmem =>
      hadvances later (List.mem_cons_of_mem _ hmem)
    have hadvance := hadvances first List.mem_cons_self
    obtain ⟨hlater, hordered⟩ := List.pairwise_cons.1 hordered
    rw [attemptsFrom]
    rcases List.mem_cons.1 hmem with rfl | hmem
    · -- No header is tried before the first one.
      split_ifs with hbefore
      · refine iff_of_false (fun htried => ?_) fun h => absurd h.1 (Int.not_le.2 hbefore)
        have := hlater _ (of_mem_attemptsFrom htried).1
        exact absurd this (Nat.lt_irrefl _)
      · refine iff_of_true List.mem_cons_self ⟨Int.not_lt.1 hbefore, fun attempt htried hlt => ?_⟩
        rcases List.mem_cons.1 htried with rfl | htried
        · exact absurd hlt (Nat.lt_irrefl _)
        · exact absurd (hlater _ (of_mem_attemptsFrom htried).1) (Nat.lt_asymm hlt)
    · -- A later header is tried behind the first one, if that is tried at all.
      have hlt := hlater header hmem
      split_ifs with hbefore
      · exact ih hadvances' hordered hmem
      · dsimp only [Attempt.at] at hadvance
        have hne : Attempt.at read header ≠ ⟨first, read first⟩ := fun h =>
          absurd (congrArg (fun attempt => attempt.header.start) h) (Nat.ne_of_gt hlt)
        rw [List.mem_cons, or_iff_right hne, ih hadvances' hordered hmem, List.forall_mem_cons]
        constructor
        · rintro ⟨hresume, hrest⟩
          exact ⟨by omega, fun _ => hresume, hrest⟩
        · rintro ⟨-, hfirst, hrest⟩
          exact ⟨hfirst hlt, hrest⟩

end

/-! ### Declarations -/

/-- An enumeration that is read behind a header has a span from its keyword to
    behind its brace. -/
theorem exists_span_of_readDeclaration {text masked : Text} {allowRepeats : Bool} {header : Header}
    {e : Enumeration} (h : readDeclaration text masked allowRepeats header = .ok e) :
    ∃ stop : Nat, e.span = some (.ofOffsets text header.start stop) ∧ header.brace < stop := by
  obtain ⟨close, hclose, -, -, hspan⟩ := exists_closingBrace?_of_readDeclaration h
  obtain ⟨distance, -, rfl⟩ := Option.map_eq_some_iff.1 hclose
  exact ⟨_, hspan, by omega⟩

/-- Behind a header that stands in the text, the search always goes on. -/
theorem advances_readDeclaration (text : Text) (allowRepeats : Bool) :
    Advances (readDeclaration text text.masked allowRepeats) (headers text.masked) := by
  intro header hmem
  -- It goes on behind the declaration, or else behind the brace of the header.
  have hlt := (Header.mem_headers_iff.1 hmem).start_lt
  cases hread : readDeclaration text text.masked allowRepeats header with
  | ok e =>
    obtain ⟨stop, hspan, hstop⟩ := exists_span_of_readDeclaration hread
    simp only [Attempt.at, Attempt.resumeAt, hread, hspan, Option.map_some, Option.getD_some,
      Span.ofOffsets]
    omega
  | error failure =>
    simp only [Attempt.at, Attempt.resumeAt, hread]
    omega

theorem pairwise_headers (masked : Text) :
    (headers masked).Pairwise fun header later => header.start < later.start :=
  Header.pairwise_headersFrom.imp_of_mem fun hmem _ hlt =>
    Nat.lt_trans (Header.mem_headers_iff.1 hmem).start_lt.1 hlt

/-- Of two headers the first ends before the second starts. -/
theorem brace_lt_start_of_mem {masked : Text} {header later : Header} (h : header ∈ headers masked)
    (hlater : later ∈ headers masked) (hlt : header.start < later.start) :
    header.brace < later.start := by
  by_contra hover
  have hordered : (headers masked).Pairwise fun header later => header.brace < later.start :=
    Header.pairwise_headersFrom
  -- Otherwise the second would be listed first.
  obtain ⟨before, behind, hsplit⟩ := List.append_of_mem h
  rw [hsplit, List.pairwise_append, List.pairwise_cons] at hordered
  rw [hsplit, List.mem_append, List.mem_cons] at hlater
  rcases hlater with hbefore | rfl | hbehind
  · have hbrace := hordered.2.2 later hbefore header List.mem_cons_self
    have := (Header.mem_headers_iff.1 (hsplit ▸ List.mem_append_left _ hbefore)).start_lt.1
    omega
  · exact Nat.lt_irrefl _ hlt
  · exact hover (hordered.2.1.1 later hbehind)

/-! ### The list -/

/-- A place within the span of an enumeration, behind its start. -/
def Enumeration.Encloses (e : Enumeration) (place : Nat) : Prop :=
  ∃ span ∈ e.span, span.start < place ∧ (place : Int) < span.stop

/-- An enumeration whose span ends before that of another one starts. -/
def Enumeration.Precedes (e later : Enumeration) : Prop :=
  ∃ span ∈ e.span, ∃ span' ∈ later.span, span.start < span.stop ∧ span.stop ≤ span'.start

/-- The list of the declarations of a text: in the order of their spans, which
    are disjoint, those of all headers that can be read, without those whose
    header is within the span of a listed one. -/
structure Lists (text : Text) (allowRepeats : Bool) (enums : List Enumeration) : Prop where
  ordered : enums.Pairwise Enumeration.Precedes
  mem_iff : ∀ e, e ∈ enums ↔ ∃ header : Header, header.StandsIn text.masked ∧
    readDeclaration text text.masked allowRepeats header = .ok e ∧
    ∀ other ∈ enums, ¬other.Encloses header.start

theorem Enumeration.Precedes.asymm {e later : Enumeration} (h : e.Precedes later) :
    ¬later.Precedes e := by
  rintro ⟨span', hspan', span, hspan, hlt', hle'⟩
  obtain ⟨_, hmem, _, hmem', hlt, hle⟩ := h
  obtain rfl := Option.some.inj (hmem.symm.trans hspan)
  obtain rfl := Option.some.inj (hmem'.symm.trans hspan')
  omega

namespace Lists

variable {text : Text} {allowRepeats : Bool} {enums enums' : List Enumeration}

/-- What is in one list is in every other. -/
theorem mem_of_mem (h : Lists text allowRepeats enums) (h' : Lists text allowRepeats enums')
    {e : Enumeration} (hmem : e ∈ enums) : e ∈ enums' := by
  -- By induction on the place: those listed before it are the same.
  have hsame : ∀ place, ∀ (header : Header) (e : Enumeration), header.start = place →
      header.StandsIn text.masked → readDeclaration text text.masked allowRepeats header = .ok e →
      (e ∈ enums ↔ e ∈ enums') := by
    intro place
    induction place using Nat.strong_induction_on with
    | _ place ih =>
      have henclosed : ∀ {enums enums' : List Enumeration}, Lists text allowRepeats enums →
          (∀ header : Header, ∀ e, header.start < place → header.StandsIn text.masked →
            readDeclaration text text.masked allowRepeats header = .ok e → e ∈ enums → e ∈ enums') →
          (∀ other ∈ enums', ¬other.Encloses place) → ∀ other ∈ enums, ¬other.Encloses place := by
        intro enums enums' hlists htransfer hfree other hother hencloses
        obtain ⟨header, hstands, hread, -⟩ := (hlists.mem_iff other).1 hother
        obtain ⟨stop, hspan, -⟩ := exists_span_of_readDeclaration hread
        obtain ⟨span, hmem, hlt, hstop⟩ := hencloses
        obtain rfl := Option.some.inj (hmem.symm.trans hspan)
        have hstart : header.start < place := Int.ofNat_lt.1 hlt
        exact hfree other (htransfer header other hstart hstands hread hother) ⟨_, hmem, hlt, hstop⟩
      rintro header e rfl hstands hread
      have hkey : ∀ {enums : List Enumeration}, Lists text allowRepeats enums →
          (e ∈ enums ↔ ∀ other ∈ enums, ¬other.Encloses header.start) := by
        intro enums hlists
        refine (hlists.mem_iff e).trans ⟨?_, fun hfree => ⟨header, hstands, hread, hfree⟩⟩
        rintro ⟨header', -, hread', hfree⟩
        -- The span of an enumeration tells the place of its header.
        obtain ⟨stop, hspan, -⟩ := exists_span_of_readDeclaration hread
        obtain ⟨stop', hspan', -⟩ := exists_span_of_readDeclaration hread'
        have hstart := congrArg Span.start (Option.some.inj (hspan.symm.trans hspan'))
        rwa [Int.ofNat.inj hstart]
      rw [hkey h, hkey h']
      exact ⟨henclosed h' fun header e hlt hstands hread =>
          (ih _ hlt header e rfl hstands hread).2,
        henclosed h fun header e hlt hstands hread => (ih _ hlt header e rfl hstands hread).1⟩
  obtain ⟨header, hstands, hread, -⟩ := (h.mem_iff e).1 hmem
  exact (hsame _ header e rfl hstands hread).1 hmem

theorem nodup (h : Lists text allowRepeats enums) : enums.Nodup :=
  h.ordered.imp fun hprecedes => by
    rintro rfl
    exact hprecedes.asymm hprecedes

/-- Of two that are listed, one precedes the other. -/
theorem eq_or_precedes (h : Lists text allowRepeats enums) {e other : Enumeration}
    (hmem : e ∈ enums) (hother : other ∈ enums) :
    e = other ∨ e.Precedes other ∨ other.Precedes e := by
  let Compares (e other : Enumeration) : Prop := e = other ∨ e.Precedes other ∨ other.Precedes e
  have hordered : enums.Pairwise Compares := h.ordered.imp fun h => .inr (.inl h)
  have hreversed : enums.Pairwise (flip Compares) := h.ordered.imp fun h => .inr (.inr h)
  exact hordered.forall_of_forall_of_flip (fun _ _ => .inl rfl) hreversed hmem hother

/-- There is only one list. -/
theorem unique (h : Lists text allowRepeats enums) (h' : Lists text allowRepeats enums') :
    enums = enums' := by
  have hperm : enums.Perm enums' := (List.perm_ext_iff_of_nodup h.nodup h'.nodup).2 fun e =>
    ⟨h.mem_of_mem h', h'.mem_of_mem h⟩
  refine hperm.eq_of_pairwise (fun e later _ _ hprecedes hpreceded => ?_) h.ordered h'.ordered
  exact absurd hpreceded hprecedes.asymm

end Lists

/-! ### All declarations -/

section

variable {text : Text} {allowRepeats : Bool} {header : Header} {e : Enumeration}

/-- An attempt that gives an enumeration has read it behind its header. -/
theorem exists_of_enumeration?_eq_some {attempt : Attempt}
    (htried : attempt ∈ attempts text allowRepeats) (he : attempt.enumeration? = some e) :
    ∃ header, attempt = .at (readDeclaration text text.masked allowRepeats) header ∧
      readDeclaration text text.masked allowRepeats header = .ok e := by
  obtain ⟨-, hattempt⟩ := of_mem_attemptsFrom htried
  refine ⟨attempt.header, hattempt, ?_⟩
  rw [hattempt, Attempt.enumeration?, Attempt.at] at he
  cases hread : readDeclaration text text.masked allowRepeats attempt.header with
  | error failure =>
    rw [hread] at he
    exact absurd he (Option.some_ne_none _).symm
  | ok other =>
    rw [hread] at he
    exact congrArg _ (Option.some.inj he)

/-- What is listed is read behind the headers that are tried. -/
theorem mem_parseAll_iff : e ∈ parseAll text allowRepeats ↔ ∃ header,
    .at (readDeclaration text text.masked allowRepeats) header ∈ attempts text allowRepeats ∧
      readDeclaration text text.masked allowRepeats header = .ok e := by
  rw [parseAll, List.mem_filterMap]
  constructor
  · rintro ⟨attempt, htried, he⟩
    obtain ⟨header, rfl, hread⟩ := exists_of_enumeration?_eq_some htried he
    exact ⟨header, htried, hread⟩
  · rintro ⟨header, htried, hread⟩
    exact ⟨_, htried, by rw [Attempt.enumeration?, Attempt.at, hread]; rfl⟩

/-- Behind a declaration that was read, the search goes on at its end. -/
theorem resumeAt_eq_of_ok {stop : Nat}
    (hread : readDeclaration text text.masked allowRepeats header = .ok e)
    (hspan : e.span = some (.ofOffsets text header.start stop)) :
    (Attempt.at (readDeclaration text text.masked allowRepeats) header).resumeAt = stop := by
  simp only [Attempt.at, Attempt.resumeAt, hread, hspan, Option.map_some, Option.getD_some,
    Span.ofOffsets]

/-- A header that can be read is tried, unless an enumeration that is listed
    takes it in. -/
theorem mem_attempts_iff (hstands : header.StandsIn text.masked) :
    .at (readDeclaration text text.masked allowRepeats) header ∈ attempts text allowRepeats ↔
      ∀ other ∈ parseAll text allowRepeats, ¬other.Encloses header.start := by
  have hmem := Header.mem_headers_iff.2 hstands
  rw [attempts, mem_attemptsFrom_iff (advances_readDeclaration text allowRepeats)
    (pairwise_headers text.masked) hmem]
  constructor
  · rintro ⟨-, hresume⟩ other hother ⟨span, hspan, hlt, hstop⟩
    obtain ⟨header', htried, hread⟩ := mem_parseAll_iff.1 hother
    obtain ⟨stop, hspan', -⟩ := exists_span_of_readDeclaration hread
    obtain rfl := Option.some.inj (hspan.symm.trans hspan')
    have hle := hresume _ htried (Int.ofNat_lt.1 hlt)
    rw [resumeAt_eq_of_ok hread hspan'] at hle
    exact absurd hstop (Int.not_lt.2 hle)
  · refine fun hfree => ⟨Int.natCast_nonneg _, fun attempt htried hlt => ?_⟩
    obtain ⟨hmem', hattempt⟩ := of_mem_attemptsFrom htried
    cases hread : readDeclaration text text.masked allowRepeats attempt.header with
    | ok other =>
      obtain ⟨stop, hspan, -⟩ := exists_span_of_readDeclaration hread
      have hother := mem_parseAll_iff.2 ⟨_, hattempt ▸ htried, hread⟩
      rw [hattempt, resumeAt_eq_of_ok hread hspan]
      -- Otherwise its span would take in the header.
      by_contra hover
      exact hfree other hother ⟨_, hspan, Int.ofNat_lt.2 hlt, Int.not_le.1 hover⟩
    | error failure =>
      -- The search goes on at the body, which comes before the next header.
      have hbrace := brace_lt_start_of_mem hmem' hmem hlt
      rw [hattempt]
      simp only [Attempt.at, Attempt.resumeAt, hread]
      omega

/-- All enumerations of a text are its list. -/
theorem lists_parseAll (text : Text) (allowRepeats : Bool) :
    Lists text allowRepeats (parseAll text allowRepeats) where
  ordered := by
    rw [parseAll, List.pairwise_filterMap]
    have hordered := @pairwise_attemptsFrom _ 0 _ (advances_readDeclaration text allowRepeats)
    refine hordered.imp_of_mem fun htried htried' hresume e he later hlater => ?_
    obtain ⟨header, rfl, hread⟩ := exists_of_enumeration?_eq_some htried he
    obtain ⟨header', rfl, hread'⟩ := exists_of_enumeration?_eq_some htried' hlater
    obtain ⟨stop, hspan, -⟩ := exists_span_of_readDeclaration hread
    obtain ⟨stop', hspan', -⟩ := exists_span_of_readDeclaration hread'
    rw [resumeAt_eq_of_ok hread hspan] at hresume
    exact ⟨_, hspan, _, hspan', hresume⟩
  mem_iff e := by
    rw [mem_parseAll_iff]
    refine exists_congr fun header => ?_
    constructor
    · rintro ⟨htried, hread⟩
      have hstands := Header.mem_headers_iff.1 (of_mem_attemptsFrom htried).1
      exact ⟨hstands, hread, (mem_attempts_iff hstands).1 htried⟩
    · rintro ⟨hstands, hread, hfree⟩
      exact ⟨(mem_attempts_iff hstands).2 hfree, hread⟩

end

/-! ### The loop -/

/-- A run of the search for declarations: the first header at or after a place
    is tried and the search goes on where the attempt says, until there is no
    further header. -/
inductive Runs (text : Text) (allowRepeats : Bool) : Nat → List Attempt → Prop
  | done {position : Nat} (h : firstHeader? text.masked position = none) :
    Runs text allowRepeats position []
  | next {position position' : Nat} {header : Header} {attempts : List Attempt}
    (h : firstHeader? text.masked position = some header)
    (hresume : (Attempt.at (readDeclaration text text.masked allowRepeats) header).resumeAt =
      position')
    (hrun : Runs text allowRepeats position' attempts) :
    Runs text allowRepeats position
      (.at (readDeclaration text text.masked allowRepeats) header :: attempts)

/-- From a place on, the first header there is tried first. -/
theorem attemptsFrom_of_firstHeader? (text : Text) (allowRepeats : Bool) (position : Nat) :
    let read := readDeclaration text text.masked allowRepeats
    attemptsFrom read position (headers text.masked) =
      match firstHeader? text.masked position with
      | none => []
      | some header =>
        .at read header :: attemptsFrom read (Attempt.at read header).resumeAt (headers text.masked) := by
  intro read
  rw [attemptsFrom_eq_loop (advances_readDeclaration text allowRepeats)
    (pairwise_headers text.masked)]
  simp only [Int.ofNat_le]
  rfl

/-- The search ends, wherever it starts. -/
theorem runs_attemptsFrom (text : Text) (allowRepeats : Bool) (position : Nat) :
    Runs text allowRepeats position
      (attemptsFrom (readDeclaration text text.masked allowRepeats) position
        (headers text.masked)) := by
  have hadvances := advances_readDeclaration text allowRepeats
  -- By induction on what of the text is left.
  induction hleft : text.length - position using Nat.strong_induction_on generalizing position with
  | _ left ih =>
    rw [attemptsFrom_of_firstHeader?]
    cases hfirst : firstHeader? text.masked position with
    | none => exact .done hfirst
    | some header =>
      have hle : position ≤ header.start := by
        rw [firstHeader?] at hfirst
        have := List.find?_some hfirst
        exact of_decide_eq_true this
      have hmem : header ∈ headers text.masked := List.mem_of_find?_eq_some hfirst
      have hlt := (Header.mem_headers_iff.1 hmem).start_lt.2
      have hadvance := hadvances header hmem
      obtain ⟨position', hresume⟩ := Int.eq_ofNat_of_zero_le
        (Int.le_trans (Int.natCast_nonneg header.start) (Int.le_of_lt hadvance))
      rw [Text.length_masked] at hlt
      refine .next hfirst hresume ?_
      rw [hresume] at hadvance ⊢
      exact ih _ (by omega) position' rfl

/-- No more headers are tried than there are. -/
theorem length_attemptsFrom_le {read : Header → Except Failure Enumeration} {position : Int}
    {headers : List Header} : (attemptsFrom read position headers).length ≤ headers.length := by
  induction headers generalizing position with
  | nil => exact Nat.le_refl _
  | cons header headers ih =>
    rw [attemptsFrom]
    split_ifs
    · exact Nat.le_succ_of_le ih
    · exact Nat.succ_le_succ ih

/-- A text has no more headers than places. -/
theorem Header.length_headersFrom_le {previous : Option Char} {offset : Nat} {text : Text} :
    (headersFrom previous offset text).length ≤ text.length := by
  induction text generalizing previous offset with
  | nil => exact Nat.le_refl _
  | cons c text ih =>
    have hhead : (headerAt? previous offset (c :: text)).toList.length ≤ 1 := by
      cases headerAt? previous offset (c :: text) with
      | none => exact Nat.zero_le 1
      | some header => exact Nat.le_refl 1
    have hrest := @ih (some c) (offset + 1)
    rw [headersFrom, List.length_append, List.length_cons]
    omega

/-- What `parse` reads is listed first. -/
theorem head?_parseAll {text : Text} {allowRepeats : Bool} {e : Enumeration}
    (h : parse text allowRepeats = .ok e) : (parseAll text allowRepeats).head? = some e := by
  have hattempts := attemptsFrom_of_firstHeader? text allowRepeats 0
  simp only [parse] at h
  cases hfirst : firstHeader? text.masked 0 with
  | none =>
    rw [hfirst] at h
    cases h
  | some header =>
    -- The first attempt is at this header, too, and has read the enumeration.
    rw [hfirst] at h hattempts
    rw [parseAll, attempts]
    dsimp only at hattempts
    rw [show ((0 : Int)) = ((0 : Nat) : Int) from rfl, hattempts, List.filterMap_cons]
    simp only [Attempt.at, Attempt.enumeration?, h]
    rfl

/-- The list of the declarations of a text is `parseAll`, and no other. The search
    for them comes to an end, moving on with each header, and what `parse` reads
    comes first. -/
theorem lists_iff_eq_parseAll (text : Text) (allowRepeats : Bool) :
    (∀ enums, Lists text allowRepeats enums ↔ enums = parseAll text allowRepeats) ∧
      Runs text allowRepeats 0 (attempts text allowRepeats) ∧
      (attempts text allowRepeats).length ≤ text.length ∧
      ∀ e, parse text allowRepeats = .ok e → (parseAll text allowRepeats).head? = some e := by
  refine ⟨fun enums => ⟨fun h => h.unique (lists_parseAll text allowRepeats), ?_⟩,
    runs_attemptsFrom text allowRepeats 0, ?_, fun e h => head?_parseAll h⟩
  · rintro rfl
    exact lists_parseAll text allowRepeats
  · refine length_attemptsFrom_le.trans (Header.length_headersFrom_le.trans ?_)
    exact Nat.le_of_eq text.length_masked

end EnumCompanion
