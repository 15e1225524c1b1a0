import EnumCompanion.Proofs.Declaration.Part
import Mathlib.Order.Lattice.Nat

/-!
# The search for a header

A header may be looked for mention by mention: behind each one the next place is
sought that can end a header, and unless a brace stands there the search resumes
behind the mention. It is given up at once behind a mention that nothing follows
which could end a header. Mentions do not overlap, and what ends the header of a
later one lies behind the earlier one too, so that no header is passed over: the
search finds the leftmost one of all headers there are.

* `Header.MentionAt`, `Header.StopAt`, `Header.CompleteAt`: mentions, what can end
  a header, and headers, by their places alone;
* `Header.Search`: the search, mention by mention;
* `Header.standsIn_iff_completeAt`: the headers of a text by their places;
* `Header.MentionAt.stop_le`: mentions do not overlap;
* `firstHeader?_leftmost`: the first header is the leftmost one, and it is what the
  search finds.
-/

namespace EnumCompanion

open Text

namespace Header

/-! ### Places -/

/-- Whether a word starts or ends at a place of a text. -/
def boundaryAt (text : Text) (place : Nat) : Bool :=
  isBoundary (text.take place).getLast? text[place]?

/-- A declaration of an enum is mentioned from `start` up to `stop`: the word
    `enum`, blanks, and the name of a type as a whole word. -/
structure MentionAt (text : Text) (start : Nat) (name : Text) (stop : Nat) : Prop where
  starts : boundaryAt text start = true
  reads : ∃ gap, gap ≠ [] ∧ (∀ c ∈ gap, isBlank c = true) ∧
    keyword ++ (gap ++ name) <+: text.drop start ∧ start + (keyword ++ (gap ++ name)).length = stop
  name : isTypeName name = true
  ends : boundaryAt text stop = true

/-- At a place of a text stands what can end a header: a brace or another such
    character, or the word `enum`. -/
def StopAt (text : Text) (place : Nat) : Prop :=
  (∃ c ∈ text[place]?, c ∈ ['{', '}', ';', '(', ')', '=']) ∨
    boundaryAt text place = true ∧ keyword <+: text.drop place ∧
      boundaryAt text (place + keyword.length) = true

/-- The places from one on that can end a header. -/
def stopsFrom (text : Text) (stop : Nat) : Set Nat := {place | stop ≤ place ∧ StopAt text place}

/-- The places of the mentions from one on. -/
def mentionsFrom (text : Text) (position : Nat) : Set Nat :=
  {start | position ≤ start ∧ ∃ name stop, MentionAt text start name stop}

/-- A header: a mention, and a brace at the first place behind it that can end
    a header. -/
def CompleteAt (text : Text) (start : Nat) (name : Text) (brace : Nat) : Prop :=
  ∃ stop, MentionAt text start name stop ∧ IsLeast (stopsFrom text stop) brace ∧
    text[brace]? = some '{'

/-- The search for a header from a place on, and what it comes to. It is given up
    behind a mention that nothing can end as a header, and resumed behind one
    that something else than a brace ends. -/
inductive Search (text : Text) : Nat → Option (Text × Nat × Nat) → Prop
  | noMention {position : Nat} (last : mentionsFrom text position = ∅) : Search text position none
  | noStop {position start stop : Nat} {name : Text}
      (first : IsLeast (mentionsFrom text position) start)
      (mention : MentionAt text start name stop) (last : stopsFrom text stop = ∅) :
      Search text position none
  | found {position start stop brace : Nat} {name : Text}
      (first : IsLeast (mentionsFrom text position) start)
      (mention : MentionAt text start name stop) (least : IsLeast (stopsFrom text stop) brace)
      (found : text[brace]? = some '{') : Search text position (some (name, start, brace))
  | next {position start stop place : Nat} {name : Text} {outcome : Option (Text × Nat × Nat)}
      (first : IsLeast (mentionsFrom text position) start)
      (mention : MentionAt text start name stop) (least : IsLeast (stopsFrom text stop) place)
      (other : text[place]? ≠ some '{') (resumed : Search text stop outcome) :
      Search text position outcome

/-! ### Scans -/

variable {text before behind name : Text} {start stop place position brace : Nat}

theorem boundaryAt_append (before behind : Text) :
    boundaryAt (before ++ behind) before.length = isBoundary before.getLast? behind.head? := by
  rw [boundaryAt, List.take_left, List.getElem?_append_right (Nat.le_refl _), Nat.sub_self,
    List.head?_eq_getElem?]

/-- A part that starts like a word starts one, unless it goes on with one. -/
theorem boundaryAt_head {part : Text} (h : part.head?.any isWordChar = true) (rest : Text) :
    boundaryAt (before ++ (part ++ rest)) before.length = true ↔
      before.getLast?.any isWordChar = false := by
  have hhead : (part ++ rest).head?.any isWordChar = true := by
    cases part with
    | nil => cases h
    | cons c part => exact h
  rw [boundaryAt_append, isBoundary, hhead]
  cases before.getLast?.any isWordChar <;> decide

/-- A part that ends like a word ends one, unless the text goes on with it. -/
theorem boundaryAt_getLast {part : Text} (h : part.getLast?.any isWordChar = true) (rest : Text) :
    boundaryAt (before ++ (part ++ rest)) (before.length + part.length) = true ↔
      rest.head?.any isWordChar = false := by
  have hlast : (before ++ part).getLast?.any isWordChar = true := by
    rw [List.getLast?_append]
    cases hpart : part.getLast? with
    | none =>
      rw [hpart] at h
      cases h
    | some c => rwa [hpart] at h
  rw [← List.append_assoc, ← List.length_append, boundaryAt_append, isBoundary, hlast]
  cases rest.head?.any isWordChar <;> decide

/-- A mention ends with a character of a word, that of its name. -/
theorem getLast?_mention_any {gap : Text} (hname : isTypeName name = true) :
    (keyword ++ (gap ++ name)).getLast?.any isWordChar = true := by
  have hne := ne_nil_of_isTypeName hname
  rw [← List.append_assoc, List.getLast?_append_of_ne_nil _ hne, List.getLast?_eq_some_getLast hne]
  exact isWordChar_of_isNameChar (isNameChar_of_isTypeName hname _ (List.getLast_mem hne))

/-- What is read as a mention at the head of a text is one. -/
theorem mentionAt_append_iff :
    MentionAt (before ++ behind) before.length name stop ↔
      ∃ hname rest, mention? before.getLast? behind = some (⟨name, hname⟩, rest) ∧
        stop + rest.length = (before ++ behind).length := by
  simp only [mention?_eq_some_iff]
  constructor
  · rintro ⟨hstarts, ⟨gap, hne, hblank, hreads, rfl⟩, hname, hends⟩
    rw [List.drop_left] at hreads
    obtain ⟨rest, rfl⟩ := hreads
    refine ⟨hname, rest, ⟨(boundaryAt_head rfl rest).1 hstarts,
      (boundaryAt_getLast (getLast?_mention_any hname) rest).1 hends, gap, hne, hblank, by simp⟩, ?_⟩
    simp only [List.length_append]
    omega
  · rintro ⟨hname, rest, ⟨hleft, hright, gap, hne, hblank, htext⟩, hstop⟩
    obtain rfl : behind = keyword ++ (gap ++ name) ++ rest := by simp [htext]
    obtain rfl : before.length + (keyword ++ (gap ++ name)).length = stop := by
      rw [List.length_append, List.length_append] at hstop
      omega
    refine ⟨(boundaryAt_head rfl rest).2 hleft, ⟨gap, hne, hblank, ?_, rfl⟩, hname,
      (boundaryAt_getLast (getLast?_mention_any hname) rest).2 hright⟩
    rw [List.drop_left]
    exact List.prefix_append _ _

/-- The word `enum` at the head of a text. -/
theorem keywordAt_append_iff : keywordAt before.getLast? behind = true ↔
    boundaryAt (before ++ behind) before.length = true ∧
      keyword <+: (before ++ behind).drop before.length ∧
        boundaryAt (before ++ behind) (before.length + keyword.length) = true := by
  rw [keywordAt_eq_true_iff, List.drop_left]
  constructor
  · rintro ⟨hleft, rest, rfl, hright⟩
    exact ⟨(boundaryAt_head rfl rest).2 hleft, List.prefix_append _ _,
      (boundaryAt_getLast rfl rest).2 hright⟩
  · rintro ⟨hstarts, ⟨rest, rfl⟩, hends⟩
    exact ⟨(boundaryAt_head rfl rest).1 hstarts, rest, rfl, (boundaryAt_getLast rfl rest).1 hends⟩

/-- What can end a header at the head of a text. -/
theorem stopAt_append_cons_iff {c : Char} : StopAt (before ++ c :: behind) before.length ↔
    c = '{' ∨ (closesHeader c || keywordAt before.getLast? (c :: behind)) = true := by
  have hchar : (before ++ c :: behind)[before.length]? = some c := by
    rw [List.getElem?_append_right (Nat.le_refl _), Nat.sub_self]
    rfl
  rw [StopAt, ← keywordAt_append_iff, hchar, Bool.or_eq_true, closesHeader, decide_eq_true_eq]
  simp only [Option.mem_some_iff, exists_eq_left', List.mem_cons (a := c) (b := '{'), or_assoc]

theorem isLeast_stopsFrom (h : StopAt text place) :
    IsLeast (stopsFrom text place) brace ↔ brace = place := by
  have hleast : IsLeast (stopsFrom text place) place := ⟨⟨Nat.le_refl _, h⟩, fun _ hlater => hlater.1⟩
  exact ⟨fun hbrace => hbrace.unique hleast, fun heq => heq ▸ hleast⟩

theorem stopsFrom_succ (h : ¬StopAt text place) :
    stopsFrom text place = stopsFrom text (place + 1) := by
  ext later
  refine and_congr_left fun hlater => ⟨fun hle => ?_, Nat.le_of_succ_le⟩
  rcases Nat.eq_or_lt_of_le hle with rfl | hlt
  · exact absurd hlater h
  · exact hlt

/-- A brace is ahead where it stands at the first place that can end a header. -/
theorem isLeast_stopsFrom_append_iff :
    IsLeast (stopsFrom (before ++ behind) before.length) brace ∧
        (before ++ behind)[brace]? = some '{' ↔
      ∃ distance, braceAhead? before.getLast? behind = some distance ∧
        before.length + distance = brace := by
  induction behind generalizing before with
  | nil =>
    refine iff_of_false ?_ (by rintro ⟨distance, ⟨⟩, -⟩)
    rintro ⟨⟨⟨hle, -⟩, -⟩, hbrace⟩
    rw [List.append_nil, List.getElem?_eq_none hle] at hbrace
    cases hbrace
  | cons c behind ih =>
    have hchar : (before ++ c :: behind)[before.length]? = some c := by simp
    rw [braceAhead?]
    split_ifs with hc hstop
    · rw [isLeast_stopsFrom (stopAt_append_cons_iff.2 (.inl hc))]
      constructor
      · rintro ⟨rfl, -⟩
        exact ⟨0, rfl, rfl⟩
      · rintro ⟨_, ⟨⟩, rfl⟩
        exact ⟨rfl, by rw [Nat.add_zero, hchar, hc]⟩
    · -- Something else that can end a header comes first.
      rw [isLeast_stopsFrom (stopAt_append_cons_iff.2 (.inr hstop))]
      refine iff_of_false ?_ (by rintro ⟨distance, ⟨⟩, -⟩)
      rintro ⟨rfl, hbrace⟩
      exact hc (Option.some.inj (hchar.symm.trans hbrace))
    · have hnot : ¬StopAt (before ++ c :: behind) before.length := fun h =>
        (stopAt_append_cons_iff.1 h).elim hc hstop
      have hih := @ih (before ++ [c])
      rw [List.append_assoc, List.singleton_append, List.length_append, List.length_singleton,
        List.getLast?_concat] at hih
      rw [stopsFrom_succ hnot, hih]
      simp only [Option.map_eq_some_iff, exists_exists_and_eq_and, Nat.add_right_comm _ 1,
        Nat.add_assoc]

/-! ### Headers by their places -/

theorem MentionAt.bounds (h : MentionAt text start name stop) :
    start < stop ∧ stop ≤ text.length := by
  obtain ⟨gap, -, -, hreads, rfl⟩ := h.reads
  have hle := hreads.length_le
  simp only [List.length_drop, List.length_append, keyword, List.length_cons] at hle ⊢
  omega

theorem exists_mentionAt_append (h : MentionAt text start name stop) :
    ∃ before behind, text = before ++ behind ∧ before.length = start :=
  exists_append_of_le (Nat.le_of_lt (Nat.lt_of_lt_of_le h.bounds.1 h.bounds.2))

/-- At one place there is one mention at most. -/
theorem MentionAt.unique {name' : Text} {stop' : Nat} (h : MentionAt text start name stop)
    (h' : MentionAt text start name' stop') : name = name' ∧ stop = stop' := by
  obtain ⟨before, behind, rfl, rfl⟩ := exists_mentionAt_append h
  obtain ⟨hname, rest, hmention, hstop⟩ := mentionAt_append_iff.1 h
  obtain ⟨hname', rest', hmention', hstop'⟩ := mentionAt_append_iff.1 h'
  obtain ⟨hsame, rfl⟩ := Prod.mk.inj (Option.some.inj (hmention.symm.trans hmention'))
  exact ⟨Subtype.mk.inj hsame, by omega⟩

/-- A mention ends as its name does. -/
theorem exists_front_of_mention? {rest : Text} {hname : isTypeName name = true}
    (h : mention? before.getLast? behind = some (⟨name, hname⟩, rest)) :
    ∃ front, before ++ behind = front ++ rest ∧ before.length ≤ front.length ∧
      front.getLast? = name.getLast? := by
  obtain ⟨-, -, gap, -, -, rfl⟩ := mention?_eq_some_iff.1 h
  refine ⟨before ++ (keyword ++ (gap ++ name)), by simp, by simp, ?_⟩
  simp only [← List.append_assoc]
  exact List.getLast?_append_of_ne_nil _ (ne_nil_of_isTypeName hname)

/-- A header is found at the head of a text where one is complete. -/
theorem headerAt?_eq_some_iff_completeAt {header : Header} :
    headerAt? before.getLast? before.length behind = some header ↔
      header.start = before.length ∧
        CompleteAt (before ++ behind) before.length header.name header.brace := by
  simp only [headerAt?, Option.bind_eq_bind, Option.bind_eq_some_iff, Option.pure_def,
    Option.some.injEq, CompleteAt, mentionAt_append_iff]
  constructor
  · rintro ⟨⟨⟨name, hname⟩, rest⟩, hmention, distance, hbrace, rfl⟩
    obtain ⟨front, hfront, hle, hlast⟩ := exists_front_of_mention? hmention
    have hlength := congrArg List.length hfront
    refine ⟨rfl, front.length, ⟨hname, rest, hmention, by rw [hfront, List.length_append]⟩, ?_⟩
    rw [hfront]
    refine isLeast_stopsFrom_append_iff.2 ⟨distance, hlast ▸ hbrace, ?_⟩
    simp only [List.length_append] at hlength
    dsimp only
    omega
  · rintro ⟨hstart, stop, ⟨hname, rest, hmention, hstop⟩, hleast⟩
    obtain ⟨front, hfront, hle, hlast⟩ := exists_front_of_mention? hmention
    have hlength := congrArg List.length hfront
    obtain rfl : stop = front.length := by
      rw [hfront, List.length_append] at hstop
      omega
    rw [hfront] at hleast
    obtain ⟨distance, hbrace, hdistance⟩ := isLeast_stopsFrom_append_iff.1 hleast
    refine ⟨(⟨header.name, hname⟩, rest), hmention, distance, hlast ▸ hbrace, ?_⟩
    cases header
    simp only [List.length_append, Header.mk.injEq, true_and] at hlength hstart hdistance ⊢
    omega

/-- The headers of a text by their places. -/
theorem standsIn_iff_completeAt {header : Header} :
    header.StandsIn text ↔ CompleteAt text header.start header.name header.brace := by
  rw [← mem_headers_iff, headers, mem_headersFrom]
  simp only [Option.or_none, Nat.zero_add, headerAt?_eq_some_iff_completeAt]
  constructor
  · rintro ⟨before, behind, rfl, hstart, hcomplete⟩
    rwa [hstart]
  · rintro hcomplete
    obtain ⟨stop, hmention, -⟩ := id hcomplete
    obtain ⟨before, behind, rfl, hstart⟩ := exists_mentionAt_append hmention
    exact ⟨before, behind, rfl, hstart.symm, hstart ▸ hcomplete⟩

/-! ### Mentions -/

/-- Within a mention, a word goes on where the keyword could start. -/
theorem word_of_mention_eq_append {gap front more : Text} (hblank : ∀ c ∈ gap, isBlank c = true)
    (hname : isTypeName name = true) (hfront : front ≠ [])
    (h : keyword ++ (gap ++ name) = front ++ 'e' :: more) :
    front.getLast?.any isWordChar = true := by
  obtain ⟨capital, body, rfl, hcapital, -⟩ := isTypeName_iff.1 hname
  rw [List.getLast?_eq_some_getLast hfront, Option.any_some]
  rcases List.append_eq_append_iff.1 h with ⟨behind, rfl, hbehind⟩ | ⟨later, hkeyword, -⟩
  · rcases List.append_eq_append_iff.1 hbehind with ⟨inside, rfl, hinside⟩ | ⟨later, rfl, hlater⟩
    · -- At the head of the name stands a capital, behind it the word goes on.
      rcases inside with _ | ⟨c, inside⟩
      · rw [(List.cons.inj hinside).1] at hcapital
        exact absurd hcapital (by decide)
      · refine isWordChar_of_isNameChar (isNameChar_of_isTypeName hname _ ?_)
        rw [hinside, List.getLast_append_of_right_ne_nil _ _ (by simp),
          List.getLast_append_of_right_ne_nil _ _ (List.cons_ne_nil c inside)]
        exact List.mem_append_left _ (List.getLast_mem _)
    · -- No blank is a letter, and the capital behind them is another one.
      rcases later with _ | ⟨c, later⟩
      · rw [← (List.cons.inj hlater).1] at hcapital
        exact absurd hcapital (by decide)
      · rw [← (List.cons.inj hlater).1] at hblank
        exact absurd (hblank 'e' (by simp)) (by decide)
  · refine isWordChar_of_mem_keyword _ ?_
    rw [hkeyword]
    exact List.mem_append_left _ (List.getLast_mem hfront)

/-- Within a mention no further one starts. -/
theorem MentionAt.stop_le {start' stop' : Nat} {name' : Text} (h : MentionAt text start name stop)
    (h' : MentionAt text start' name' stop') (hlt : start < start') : stop ≤ start' := by
  by_contra hstop
  obtain ⟨before, behind, rfl, rfl⟩ := exists_mentionAt_append h
  obtain ⟨before', behind', hsplit, rfl⟩ := exists_mentionAt_append h'
  obtain ⟨gap, -, hblank, hreads, rfl⟩ := h.reads
  rw [hsplit] at h'
  obtain ⟨hname', rest', hmention, -⟩ := mentionAt_append_iff.1 h'
  obtain ⟨hword, -, gap', -, -, rfl⟩ := mention?_eq_some_iff.1 hmention
  rw [List.drop_left] at hreads
  obtain ⟨rest, rfl⟩ := hreads
  -- The second keyword stands behind some of the first mention.
  obtain ⟨front, rfl, hrest⟩ : ∃ front, before' = before ++ front ∧
      keyword ++ (gap ++ name) ++ rest = front ++ (keyword ++ (gap' ++ (name' ++ rest'))) := by
    rcases List.append_eq_append_iff.1 hsplit with ⟨front, hfront⟩ | ⟨more, rfl, -⟩
    · exact ⟨front, hfront⟩
    · rw [List.length_append] at hlt
      omega
  have hne : front ≠ [] := by
    rintro rfl
    simp at hlt
  rcases List.append_eq_append_iff.1 hrest with ⟨later, rfl, -⟩ | ⟨later, hfront, hlater⟩
  · simp only [List.length_append] at hstop
    omega
  rcases later with _ | ⟨c, later⟩
  · rw [List.append_nil] at hfront
    simp [hfront] at hstop
  · obtain rfl : 'e' = c := (List.cons.inj hlater).1
    have hgoes := word_of_mention_eq_append hblank h.name hne hfront
    rw [List.getLast?_append_of_ne_nil _ hne, hgoes] at hword
    exact Bool.noConfusion hword

/-- A header from a place on is that of the first mention or starts behind it. -/
theorem cases_of_isLeast (hfirst : IsLeast (mentionsFrom text position) start)
    (hmention : MentionAt text start name stop) {start' : Nat} {name' : Text}
    (hle : position ≤ start') (h : CompleteAt text start' name' brace) :
    stop ≤ start' ∨ IsLeast (stopsFrom text stop) brace ∧ text[brace]? = some '{' := by
  obtain ⟨stop', hmention', hleast, hbrace⟩ := h
  rcases Nat.eq_or_lt_of_le (hfirst.2 ⟨hle, name', stop', hmention'⟩) with rfl | hlt
  · obtain ⟨-, rfl⟩ := hmention.unique hmention'
    exact .inr ⟨hleast, hbrace⟩
  · exact .inl (hmention.stop_le hmention' hlt)

theorem CompleteAt.unique {name' : Text} {brace' : Nat} (h : CompleteAt text start name brace)
    (h' : CompleteAt text start name' brace') : name = name' ∧ brace = brace' := by
  obtain ⟨stop, hmention, hleast, -⟩ := h
  obtain ⟨stop', hmention', hleast', -⟩ := h'
  obtain ⟨rfl, rfl⟩ := hmention.unique hmention'
  exact ⟨rfl, hleast.unique hleast'⟩

/-! ### The search -/

/-- The places of the headers from a place on. -/
def startsFrom (text : Text) (position : Nat) : Set Nat :=
  {start | position ≤ start ∧ ∃ name brace, CompleteAt text start name brace}

/-- What the search is for: the leftmost header, or nothing where there is none. -/
def IsLeftmost (text : Text) (position : Nat) : Option (Text × Nat × Nat) → Prop
  | some (name, start, brace) =>
    CompleteAt text start name brace ∧ IsLeast (startsFrom text position) start
  | none => startsFrom text position = ∅

theorem IsLeftmost.unique {outcome outcome' : Option (Text × Nat × Nat)}
    (h : IsLeftmost text position outcome) (h' : IsLeftmost text position outcome') :
    outcome = outcome' := by
  match outcome, outcome', h, h' with
  | none, none, _, _ => rfl
  | none, some _, hnone, ⟨_, hleast⟩ => exact absurd (hnone ▸ hleast.1) (Set.notMem_empty _)
  | some _, none, ⟨_, hleast⟩, hnone => exact absurd (hnone ▸ hleast.1) (Set.notMem_empty _)
  | some (_, _, _), some (_, _, _), ⟨hcomplete, hleast⟩, ⟨hcomplete', hleast'⟩ =>
    obtain rfl := hleast.unique hleast'
    obtain ⟨rfl, rfl⟩ := hcomplete.unique hcomplete'
    rfl

/-- A mention that is no header is passed over. -/
theorem startsFrom_eq_of_isLeast (hfirst : IsLeast (mentionsFrom text position) start)
    (hmention : MentionAt text start name stop) (hleast : IsLeast (stopsFrom text stop) place)
    (hother : text[place]? ≠ some '{') : startsFrom text position = startsFrom text stop := by
  ext later
  constructor
  · rintro ⟨hle, name', brace, hcomplete⟩
    rcases cases_of_isLeast hfirst hmention hle hcomplete with hbehind | ⟨hleast', hbrace⟩
    · exact ⟨hbehind, name', brace, hcomplete⟩
    · exact absurd (hleast'.unique hleast ▸ hbrace) hother
  · rintro ⟨hle, hcomplete⟩
    exact ⟨hfirst.1.1.trans (hmention.bounds.1.le.trans hle), hcomplete⟩

/-- Behind a mention that nothing can end as a header there is no header, as what
    ends the header of a later mention lies behind the earlier one, too. -/
theorem startsFrom_eq_empty_of_isLeast (hfirst : IsLeast (mentionsFrom text position) start)
    (hmention : MentionAt text start name stop) (hlast : stopsFrom text stop = ∅) :
    startsFrom text position = ∅ := by
  refine Set.eq_empty_iff_forall_notMem.2 ?_
  rintro later ⟨hle, name', brace, hcomplete⟩
  refine Set.eq_empty_iff_forall_notMem.1 hlast brace ?_
  rcases cases_of_isLeast hfirst hmention hle hcomplete with hbehind | ⟨hleast, -⟩
  · obtain ⟨stop', hmention', hleast, -⟩ := hcomplete
    exact ⟨hbehind.trans (hmention'.bounds.1.le.trans hleast.1.1), hleast.1.2⟩
  · exact hleast.1

/-- The search comes to the leftmost header. -/
theorem Search.isLeftmost {outcome : Option (Text × Nat × Nat)}
    (h : Search text position outcome) : IsLeftmost text position outcome := by
  induction h with
  | noMention last =>
    refine Set.eq_empty_iff_forall_notMem.2 ?_
    rintro start ⟨hle, name, brace, stop, hmention, -⟩
    exact Set.eq_empty_iff_forall_notMem.1 last start ⟨hle, name, stop, hmention⟩
  | noStop first mention last => exact startsFrom_eq_empty_of_isLeast first mention last
  | @found position start stop brace name first mention least found =>
    have hcomplete : CompleteAt text start name brace := ⟨stop, mention, least, found⟩
    refine ⟨hcomplete, ⟨first.1.1, name, brace, hcomplete⟩, ?_⟩
    rintro other ⟨hle, name', brace', stop', hmention', -⟩
    exact first.2 ⟨hle, name', stop', hmention'⟩
  | @next position start stop place name outcome first mention least other resumed ih =>
    have hstarts := startsFrom_eq_of_isLeast first mention least other
    cases outcome with
    | none => exact hstarts.trans ih
    | some found =>
      obtain ⟨hcomplete, hleast⟩ := ih
      exact ⟨hcomplete, hstarts ▸ hleast⟩

theorem exists_isLeast {places : Set Nat} (h : places ≠ ∅) : ∃ place, IsLeast places place := by
  classical
  exact ⟨_, Nat.isLeast_find (Set.nonempty_iff_ne_empty.2 h)⟩

/-- The search comes to an end, as it is resumed further on. -/
theorem exists_search (text : Text) (position : Nat) : ∃ outcome, Search text position outcome := by
  by_cases hlast : mentionsFrom text position = ∅
  · exact ⟨none, .noMention hlast⟩
  obtain ⟨start, hfirst⟩ := exists_isLeast hlast
  obtain ⟨hle, name, stop, hmention⟩ := hfirst.1
  by_cases hstop : stopsFrom text stop = ∅
  · exact ⟨none, .noStop hfirst hmention hstop⟩
  obtain ⟨place, hleast⟩ := exists_isLeast hstop
  by_cases hbrace : text[place]? = some '{'
  · exact ⟨some (name, start, place), .found hfirst hmention hleast hbrace⟩
  have := hmention.bounds
  obtain ⟨outcome, hresumed⟩ := exists_search text stop
  exact ⟨outcome, .next hfirst hmention hleast hbrace hresumed⟩
termination_by text.length - position

/-- The first header is the leftmost one. -/
theorem isLeftmost_firstHeader? (masked : Text) (position : Nat) :
    IsLeftmost masked position ((firstHeader? masked position).map fun header =>
      (header.name, header.start, header.brace)) := by
  cases hfirst : firstHeader? masked position with
  | none =>
    refine Set.eq_empty_iff_forall_notMem.2 ?_
    rintro start ⟨hle, name, brace, hcomplete⟩
    obtain ⟨stop, hmention, -⟩ := id hcomplete
    have hmem : (⟨name, start, brace, hmention.name⟩ : Header) ∈ headers masked :=
      mem_headers_iff.2 (standsIn_iff_completeAt.2 hcomplete)
    exact List.find?_eq_none.1 hfirst _ hmem (decide_eq_true hle)
  | some header =>
    obtain ⟨hstands, hle, hleast⟩ := firstHeader?_eq_some_iff.1 hfirst
    have hcomplete := standsIn_iff_completeAt.1 hstands
    refine ⟨hcomplete, ⟨hle, header.name, header.brace, hcomplete⟩, ?_⟩
    rintro start ⟨hle', name, brace, hother⟩
    obtain ⟨stop, hmention, -⟩ := id hother
    exact hleast ⟨name, start, brace, hmention.name⟩ (standsIn_iff_completeAt.2 hother) hle'

end Header

/-- The first header from a place on is the leftmost mention that is a header;
    there is none exactly where no mention is. It is what the search, mention by
    mention and given up early, comes to. -/
theorem firstHeader?_leftmost (masked : Text) (position : Nat) :
    let found := (firstHeader? masked position).map fun header =>
      (header.name, header.start, header.brace)
    (∀ name start brace, found = some (name, start, brace) ↔
      Header.CompleteAt masked start name brace ∧
        IsLeast {place | position ≤ place ∧
          ∃ name brace, Header.CompleteAt masked place name brace} start) ∧
      (found = none ↔ ∀ place name brace, position ≤ place →
        ¬Header.CompleteAt masked place name brace) ∧
      ∀ outcome, Header.Search masked position outcome ↔ outcome = found := by
  intro found
  have hfound : Header.IsLeftmost masked position found := Header.isLeftmost_firstHeader? _ _
  have hiff : ∀ outcome, Header.IsLeftmost masked position outcome ↔ found = outcome :=
    fun outcome => ⟨hfound.unique, fun heq => heq ▸ hfound⟩
  refine ⟨fun name start brace => (hiff _).symm, (hiff none).symm.trans ?_, fun outcome => ?_⟩
  · rw [Header.IsLeftmost, Set.eq_empty_iff_forall_notMem]
    exact ⟨fun h place name brace hle hcomplete => h place ⟨hle, name, brace, hcomplete⟩,
      fun h place ⟨hle, name, brace, hcomplete⟩ => h place name brace hle hcomplete⟩
  · obtain ⟨other, hother⟩ := Header.exists_search masked position
    obtain rfl : found = other := hfound.unique hother.isLeftmost
    exact ⟨fun h => (hfound.unique h.isLeftmost).symm, fun heq => heq ▸ hother⟩

end EnumCompanion
