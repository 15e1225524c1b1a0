import EnumCompanion.Declaration.Header
import EnumCompanion.Proofs.Text.Characters

/-!
# The grammar of headers

A header is the word `enum`, blanks, the name of a type, a *clause* and an
opening brace. The clause holds type parameters, mixins and interfaces: it
starts with no word character and holds neither a further word `enum` nor a
character that ends a header.

* `Header.LacksKeyword`: the texts without a word `enum`;
* `Header.IsClause`: what may stand between a name and its brace;
* `Header.Heads`: the texts that start with a header;
* `Header.headerAt?_eq_some_iff`: a header is found exactly where one stands;
* `Header.headersFrom_append`: none is found where the keyword is missing;
* `Header.headersFrom_of_heads`: it is missing within a header.
-/

namespace EnumCompanion

open Text

namespace Header

/-- No word `enum` stands in a text, where `previous` is the character before
    it. -/
def LacksKeyword (previous : Option Char) (text : Text) : Prop :=
  ∀ before behind, text = before ++ keyword ++ behind →
    (before.getLast?.or previous).any isWordChar = true ∨ behind.head?.any isWordChar = true

/-- What may stand between the name of an enum and its brace. -/
structure IsClause (clause : Text) : Prop where
  head : clause.head?.any isWordChar = false
  plain : ∀ c ∈ clause, c ≠ '{' ∧ closesHeader c = false
  lacksKeyword : LacksKeyword none clause

/-! ### Words -/

/-- A keyword does not reach over a character that is none of a word. -/
theorem keywordAt_append {x : Char} (hx : isWordChar x = false) (previous : Option Char)
    (text rest : Text) : keywordAt previous (text ++ x :: rest) = keywordAt previous text := by
  have he : ('e' == x) = false := beq_eq_false_iff_ne.2 (by rintro rfl; exact absurd hx (by decide))
  have hn : ('n' == x) = false := beq_eq_false_iff_ne.2 (by rintro rfl; exact absurd hx (by decide))
  have hu : ('u' == x) = false := beq_eq_false_iff_ne.2 (by rintro rfl; exact absurd hx (by decide))
  have hm : ('m' == x) = false := beq_eq_false_iff_ne.2 (by rintro rfl; exact absurd hx (by decide))
  rcases text with _ | ⟨a, _ | ⟨b, _ | ⟨c, _ | ⟨d, _ | ⟨f, text⟩⟩⟩⟩⟩ <;>
    simp only [keywordAt, keyword, List.isPrefixOf?, List.nil_append, List.cons_append, he, hn, hu,
      hm, Bool.false_eq_true, if_false, ite_self]
  · split_ifs <;> simp [hx]
  · split_ifs <;> rfl

/-- Where the keyword stands. -/
theorem keywordAt_eq_true_iff {previous : Option Char} {text : Text} :
    keywordAt previous text = true ↔ previous.any isWordChar = false ∧
      ∃ behind, text = keyword ++ behind ∧ behind.head?.any isWordChar = false := by
  simp only [keywordAt, Bool.and_eq_true, Bool.not_eq_true', Option.any_eq_true,
    isPrefixOf?_eq_some_iff]
  exact and_congr_right fun _ =>
    ⟨fun ⟨behind, h, hb⟩ => ⟨behind, h.symm, hb⟩, fun ⟨behind, h, hb⟩ => ⟨behind, h.symm, hb⟩⟩

theorem lacksKeyword_nil (previous : Option Char) : LacksKeyword previous [] :=
  fun before behind h => by simp [keyword] at h

theorem lacksKeyword_cons_iff {previous : Option Char} {c : Char} {rest : Text} :
    LacksKeyword previous (c :: rest) ↔
      keywordAt previous (c :: rest) = false ∧ LacksKeyword (some c) rest := by
  constructor
  · intro h
    refine ⟨?_, fun before behind hrest => ?_⟩
    · rw [Bool.eq_false_iff]
      intro hk
      obtain ⟨hp, behind, htext, hb⟩ := keywordAt_eq_true_iff.1 hk
      rcases h [] behind htext with hp' | hb'
      · simp [hp] at hp'
      · simp [hb] at hb'
    · rw [← getLast?_cons_or c before previous]
      exact h (c :: before) behind (by rw [hrest]; rfl)
  · rintro ⟨hk, h⟩ before behind htext
    cases before with
    | nil =>
      -- The keyword is at the head, so that a word goes on before or behind it.
      by_contra hne
      rw [not_or, Bool.not_eq_true, Bool.not_eq_true] at hne
      rw [keywordAt_eq_true_iff.2 ⟨by simpa using hne.1, behind, htext, hne.2⟩] at hk
      exact Bool.noConfusion hk
    | cons b before =>
      obtain ⟨rfl, hrest⟩ := List.cons.inj htext
      rw [getLast?_cons_or]
      exact h before behind hrest

instance decidableLacksKeyword :
    ∀ previous text, Decidable (LacksKeyword previous text)
  | previous, [] => .isTrue (lacksKeyword_nil previous)
  | previous, c :: rest =>
    have := decidableLacksKeyword (some c) rest
    decidable_of_iff _ (@lacksKeyword_cons_iff previous c rest).symm

instance (clause : Text) : Decidable (IsClause clause) :=
  decidable_of_iff (clause.head?.any isWordChar = false ∧
      (clause.all fun c => decide (c ≠ '{' ∧ closesHeader c = false)) = true ∧
        LacksKeyword none clause)
    ⟨fun h => ⟨h.1, forall_mem_of_all h.2.1, h.2.2⟩,
      fun h => ⟨h.head, by simpa using h.plain, h.lacksKeyword⟩⟩

/-- Whether the keyword is missing from a text that starts with no word character
    does not depend on what stands before it. -/
theorem LacksKeyword.of_head {other : Option Char} {clause : Text} (h : LacksKeyword other clause)
    (hhead : clause.head?.any isWordChar = false) (previous : Option Char) :
    LacksKeyword previous clause := by
  intro before behind htext
  cases before with
  | nil =>
    rw [htext] at hhead
    exact absurd (show isWordChar 'e' = false from hhead) (by decide)
  | cons b before =>
    rw [getLast?_cons_or, ← getLast?_cons_or b before other]
    exact h (b :: before) behind htext

/-! ### Clauses -/

/-- A brace ends a header exactly behind a text that holds nothing else that
    would end it. -/
theorem braceAhead?_eq_some_iff {previous : Option Char} {text : Text} {n : Nat} :
    braceAhead? previous text = some n ↔ ∃ clause rest, text = clause ++ '{' :: rest ∧
      clause.length = n ∧ (∀ c ∈ clause, c ≠ '{' ∧ closesHeader c = false) ∧
      LacksKeyword previous clause := by
  have hbrace : isWordChar '{' = false := by decide
  induction text generalizing previous n with
  | nil => simp [braceAhead?]
  | cons c text ih =>
    rw [braceAhead?]
    split_ifs with hc hstop
    · -- The brace is here.
      subst hc
      rw [Option.some.injEq]
      constructor
      · rintro rfl
        exact ⟨[], text, rfl, rfl, nofun, lacksKeyword_nil _⟩
      · rintro ⟨_ | ⟨d, clause⟩, rest, htext, rfl, hplain, _⟩
        · rfl
        · exact absurd (List.cons.inj htext).1.symm (hplain d List.mem_cons_self).1
    · -- Something else ends the header.
      refine iff_of_false nofun ?_
      rintro ⟨_ | ⟨d, clause⟩, rest, htext, _, hplain, hlacks⟩
      · exact hc (List.cons.inj htext).1
      · rw [List.cons_append] at htext
        obtain ⟨rfl, rfl⟩ := List.cons.inj htext
        rw [(hplain c List.mem_cons_self).2, Bool.false_or, ← List.cons_append,
          keywordAt_append hbrace, (lacksKeyword_cons_iff.1 hlacks).1] at hstop
        exact Bool.noConfusion hstop
    · rw [Option.map_eq_some_iff]
      rw [Bool.or_eq_true, not_or, Bool.not_eq_true, Bool.not_eq_true] at hstop
      constructor
      · rintro ⟨m, hm, rfl⟩
        obtain ⟨clause, rest, rfl, rfl, hplain, hlacks⟩ := ih.1 hm
        refine ⟨c :: clause, rest, rfl, rfl, ?_, lacksKeyword_cons_iff.2 ⟨?_, hlacks⟩⟩
        · rintro d (_ | ⟨_, hd⟩)
          exacts [⟨hc, hstop.1⟩, hplain d hd]
        · rw [← keywordAt_append hbrace previous (c :: clause) rest]
          exact hstop.2
      · rintro ⟨_ | ⟨d, clause⟩, rest, htext, rfl, hplain, hlacks⟩
        · exact absurd (List.cons.inj htext).1 hc
        · rw [List.cons_append] at htext
          obtain ⟨rfl, rfl⟩ := List.cons.inj htext
          exact ⟨clause.length, ih.2 ⟨clause, rest, rfl, rfl,
            fun d hd => hplain d (List.mem_cons_of_mem _ hd),
            (lacksKeyword_cons_iff.1 hlacks).2⟩, rfl⟩

/-! ### Headers -/

/-- The name of a type and what follows it as another word. -/
theorem nameAt?_eq_some_iff {text rest : Text} {name : { name : Text // isTypeName name = true }} :
    nameAt? text = some (name, rest) ↔
      text = name ++ rest ∧ rest.head?.any isWordChar = false := by
  obtain ⟨name, hname⟩ := name
  constructor
  · intro h
    cases text with
    | nil => exact absurd h nofun
    | cons c text =>
      rw [nameAt?] at h
      split_ifs at h with hc hword
      obtain ⟨hn, rfl⟩ := Prod.mk.inj (Option.some.inj h)
      obtain rfl := Subtype.mk.inj hn
      exact ⟨by rw [List.cons_append, List.takeWhile_append_dropWhile], by simpa using hword⟩
  · rintro ⟨rfl, hrest⟩
    obtain ⟨c, body, rfl, hc, hbody⟩ := isTypeName_iff.1 hname
    have hstop : rest.head?.any isNameChar = false := by
      cases rest with
      | nil => rfl
      | cons d rest =>
        rw [Bool.eq_false_iff]
        exact fun hd => Bool.noConfusion ((isWordChar_of_isNameChar hd).symm.trans hrest)
    have hdrop : (body ++ rest).dropWhile isNameChar = rest := dropWhile_append_exact hbody hstop
    have htake : (body ++ rest).takeWhile isNameChar = body := takeWhile_append_exact hbody hstop
    simp only [List.cons_append, nameAt?, hc, dif_pos, hdrop, htake, hrest, Bool.false_eq_true,
      if_false]

/-- A text that starts with a header, where `previous` is the character before
    it: the keyword, a gap of blanks, a name, a clause, a brace and the rest. -/
structure Heads (previous : Option Char) (text gap name clause rest : Text) : Prop where
  text_eq : text = keyword ++ (gap ++ (name ++ (clause ++ '{' :: rest)))
  previous : previous.any isWordChar = false
  gap_ne_nil : gap ≠ []
  gap_blank : ∀ c ∈ gap, isBlank c = true
  name : isTypeName name = true
  clause : IsClause clause

/-- A mention is the keyword, a gap and a name. -/
theorem mention?_eq_some_iff {previous : Option Char} {text rest : Text}
    {name : { name : Text // isTypeName name = true }} :
    mention? previous text = some (name, rest) ↔ previous.any isWordChar = false ∧
      rest.head?.any isWordChar = false ∧ ∃ gap, gap ≠ [] ∧ (∀ c ∈ gap, isBlank c = true) ∧
        text = keyword ++ (gap ++ (name ++ rest)) := by
  rw [mention?]
  split_ifs with hprevious
  · exact iff_of_false nofun fun h => Bool.noConfusion (hprevious.symm.trans h.1)
  rw [Bool.not_eq_true] at hprevious
  simp only [Option.bind_eq_bind, Option.bind_eq_some_iff, isPrefixOf?_eq_some_iff]
  constructor
  · rintro ⟨behind, rfl, h⟩
    split_ifs at h with hblank
    obtain ⟨htext, hrest⟩ := nameAt?_eq_some_iff.1 h
    refine ⟨hprevious, hrest, behind.takeWhile isBlank, ?_, fun c => of_mem_takeWhile, ?_⟩
    · cases behind with
      | nil => exact absurd hblank nofun
      | cons c behind =>
        rw [List.takeWhile_cons_of_pos (by simpa using hblank)]
        exact List.cons_ne_nil _ _
    · rw [← htext, List.takeWhile_append_dropWhile]
  · rintro ⟨_, hrest, gap, hne, hblank, rfl⟩
    refine ⟨_, rfl, ?_⟩
    obtain ⟨c, body, hname, hc, _⟩ := isTypeName_iff.1 name.2
    obtain ⟨b, gap, rfl⟩ := List.exists_cons_of_ne_nil hne
    have hstop : (name.1 ++ rest).head?.any isBlank = false := by
      rw [hname]
      exact isBlank_of_isNameChar (isNameChar_of_isUpper hc)
    have hhead : ((b :: gap) ++ (name.1 ++ rest)).head?.any isBlank = true :=
      hblank b List.mem_cons_self
    rw [if_pos hhead, dropWhile_append_exact hblank hstop]
    exact nameAt?_eq_some_iff.2 ⟨rfl, hrest⟩

/-- A header is found exactly where one stands. -/
theorem headerAt?_eq_some_iff {previous : Option Char} {offset : Nat} {text : Text}
    {header : Header} :
    headerAt? previous offset text = some header ↔ ∃ gap clause rest,
      Heads previous text gap header.name clause rest ∧ header.start = offset ∧
        header.brace + 1 + rest.length = offset + text.length := by
  simp only [headerAt?, Option.bind_eq_bind, Option.bind_eq_some_iff, Option.pure_def,
    Option.some.injEq]
  constructor
  · rintro ⟨⟨⟨name, hname⟩, behind⟩, hmention, distance, hbrace, rfl⟩
    obtain ⟨hprevious, hbehind, gap, hne, hblank, rfl⟩ := mention?_eq_some_iff.1 hmention
    obtain ⟨clause, rest, rfl, rfl, hplain, hlacks⟩ := braceAhead?_eq_some_iff.1 hbrace
    have hhead : clause.head?.any isWordChar = false := by
      cases clause with
      | nil => rfl
      | cons c clause => exact hbehind
    refine ⟨gap, clause, rest, ⟨rfl, hprevious, hne, hblank, hname, hhead, hplain, ?_⟩, rfl, ?_⟩
    · exact hlacks.of_head hhead none
    · simp only [List.length_append, List.length_cons]
      omega
  · rintro ⟨gap, clause, rest, h, rfl, hbrace⟩
    have hlast := h.clause.lacksKeyword.of_head h.clause.head header.name.getLast?
    refine ⟨⟨⟨header.name, h.name⟩, clause ++ '{' :: rest⟩, ?_, clause.length, ?_, ?_⟩
    · refine mention?_eq_some_iff.2 ⟨h.previous, ?_, gap, h.gap_ne_nil, h.gap_blank, h.text_eq⟩
      have := h.clause.head
      cases clause with
      | nil => exact (by decide : isWordChar '{' = false)
      | cons c clause => exact this
    · exact braceAhead?_eq_some_iff.2 ⟨clause, rest, rfl, rfl, h.clause.plain, hlast⟩
    · cases header with
      | mk name start brace isTypeName_name =>
        simp only [Header.mk.injEq, true_and]
        have := h.text_eq
        simp only [this, List.length_append, List.length_cons] at hbrace ⊢
        omega

/-! ### Searches -/

theorem isWordChar_of_mem_keyword : ∀ c ∈ keyword, isWordChar c = true :=
  forall_mem_of_all (by decide)

/-- No header starts in a text without the keyword, unless the text breaks off
    within a word. -/
theorem headerAt?_append_eq_none {previous : Option Char} {c : Char} {before : Text}
    (hlacks : LacksKeyword previous (c :: before))
    (hlast : (c :: before).getLast?.any isWordChar = false) (offset : Nat) (text : Text) :
    headerAt? previous offset (c :: before ++ text) = none := by
  rw [Option.eq_none_iff_forall_ne_some]
  intro header hheader
  obtain ⟨gap, clause, rest, h, -⟩ := headerAt?_eq_some_iff.1 hheader
  obtain ⟨b, gap, rfl⟩ := List.exists_cons_of_ne_nil h.gap_ne_nil
  rcases List.append_eq_append_iff.1 h.text_eq with ⟨more, hkeyword, -⟩ | ⟨more, hbefore, hmore⟩
  · -- The text breaks off within the keyword.
    have hmem := List.getLast_mem (List.cons_ne_nil c before)
    have hword := isWordChar_of_mem_keyword _ (hkeyword ▸ List.mem_append_left more hmem)
    rw [List.getLast?_eq_getLast_of_ne_nil (List.cons_ne_nil c before)] at hlast
    exact Bool.noConfusion (hword.symm.trans hlast)
  · rcases hlacks [] more hbefore with hprevious | hbehind
    · exact Bool.noConfusion (hprevious.symm.trans h.previous)
    · cases more with
      | nil => exact Bool.noConfusion hbehind
      | cons d more =>
        obtain rfl : b = d := (List.cons.inj hmore).1
        exact Bool.noConfusion
          (hbehind.symm.trans (isWordChar_of_isBlank (h.gap_blank b List.mem_cons_self)))

/-- Behind a text without the keyword the search for headers starts afresh. -/
theorem headersFrom_append {previous : Option Char} {before : Text}
    (hlacks : LacksKeyword previous before) (hlast : before.getLast?.any isWordChar = false)
    (offset : Nat) (text : Text) : headersFrom previous offset (before ++ text) =
      headersFrom (before.getLast?.or previous) (offset + before.length) text := by
  induction before generalizing previous offset with
  | nil => rfl
  | cons c before ih =>
    have hrest : before.getLast?.any isWordChar = false := by
      cases before with
      | nil => rfl
      | cons d before => rwa [List.getLast?_cons_cons] at hlast
    rw [List.cons_append, headersFrom, ← List.cons_append, headerAt?_append_eq_none hlacks hlast,
      ih (lacksKeyword_cons_iff.1 hlacks).2 hrest, getLast?_cons_or, List.length_cons,
      Nat.add_right_comm, Nat.add_assoc]
    rfl

/-! ### Within a header -/

theorem keywordAt_cons_of_ne {c : Char} (hc : c ≠ 'e') (previous : Option Char) (rest : Text) :
    keywordAt previous (c :: rest) = false := by
  rw [Bool.eq_false_iff]
  intro h
  obtain ⟨-, behind, htext, -⟩ := keywordAt_eq_true_iff.1 h
  exact hc (List.cons.inj htext).1

/-- The keyword is missing from a text if it is from what follows a run that goes
    on with a word. -/
theorem LacksKeyword.append_word {previous : Option Char} {run rest : Text}
    (hprevious : previous.any isWordChar = true) (hrun : ∀ c ∈ run, isWordChar c = true)
    (h : LacksKeyword (run.getLast?.or previous) rest) : LacksKeyword previous (run ++ rest) := by
  induction run generalizing previous with
  | nil => simpa using h
  | cons c run ih =>
    rw [getLast?_cons_or] at h
    have hc : (some c).any isWordChar = true := hrun c List.mem_cons_self
    refine lacksKeyword_cons_iff.2 ⟨?_, ih hc (fun d hd => hrun d (List.mem_cons_of_mem _ hd)) h⟩
    rw [keywordAt, hprevious]
    rfl

/-- So it is if the run has none of the letters with which the keyword starts. -/
theorem LacksKeyword.append_of_ne {previous : Option Char} {run rest : Text}
    (hrun : ∀ c ∈ run, c ≠ 'e') (h : LacksKeyword (run.getLast?.or previous) rest) :
    LacksKeyword previous (run ++ rest) := by
  induction run generalizing previous with
  | nil => simpa using h
  | cons c run ih =>
    rw [getLast?_cons_or] at h
    exact lacksKeyword_cons_iff.2 ⟨keywordAt_cons_of_ne (hrun c List.mem_cons_self) _ _,
      ih (fun d hd => hrun d (List.mem_cons_of_mem _ hd)) h⟩

/-- A character that is none of a word adds no keyword. -/
theorem LacksKeyword.concat {previous : Option Char} {text : Text} (h : LacksKeyword previous text)
    {c : Char} (hc : isWordChar c = false) : LacksKeyword previous (text ++ [c]) := by
  induction text generalizing previous with
  | nil =>
    refine lacksKeyword_cons_iff.2 ⟨?_, lacksKeyword_nil _⟩
    exact (keywordAt_append hc previous [] []).trans (Bool.and_false _)
  | cons d text ih =>
    obtain ⟨hhead, htail⟩ := lacksKeyword_cons_iff.1 h
    refine lacksKeyword_cons_iff.2 ⟨?_, ih htail⟩
    exact (keywordAt_append hc previous (d :: text) []).trans hhead

/-- Within a header there is no further keyword. -/
theorem Heads.lacksKeyword {previous : Option Char} {text gap name clause rest : Text}
    (h : Heads previous text gap name clause rest) :
    LacksKeyword (some 'e') (keyword.tail ++ (gap ++ (name ++ (clause ++ ['{'])))) := by
  obtain ⟨c, body, rfl, hc, hbody⟩ := isTypeName_iff.1 h.name
  have hcapital : c ≠ 'e' := by rintro rfl; exact absurd hc (by decide)
  have hclause := (h.clause.lacksKeyword.of_head h.clause.head
    (body.getLast?.or (some c))).concat (by decide : isWordChar '{' = false)
  have hbody' : LacksKeyword (some c) (body ++ (clause ++ ['{'])) := hclause.append_word
    (isWordChar_of_isNameChar (isNameChar_of_isUpper hc))
    fun d hd => isWordChar_of_isNameChar (hbody d hd)
  have hletters : ∀ previous, LacksKeyword previous ([c] ++ (body ++ (clause ++ ['{']))) := by
    refine fun previous => .append_of_ne ?_ hbody'
    rintro d (_ | ⟨_, ⟨⟩⟩)
    exact hcapital
  refine .append_word (by decide) (forall_mem_of_all (by decide)) (.append_of_ne ?_ (hletters _))
  rintro d hd rfl
  exact absurd (h.gap_blank _ hd) (by decide)

/-- Behind a header that stands at the head of a text, the next one comes after
    its brace. -/
theorem headersFrom_of_heads {previous : Option Char} {c : Char} {text gap name clause rest : Text}
    (h : Heads previous (c :: text) gap name clause rest) (offset : Nat) :
    headersFrom (some c) offset text =
      headersFrom (some '{') (offset + (text.length - rest.length)) rest := by
  let header := keyword.tail ++ (gap ++ (name ++ (clause ++ ['{'])))
  obtain ⟨rfl, htext⟩ := List.cons.inj h.text_eq
  have hsplit : text = header ++ rest := by
    simp only [header, List.append_assoc, List.cons_append, List.nil_append]
    exact htext
  have hlast : header.getLast? = some '{' := by
    simp only [header, ← List.append_assoc, List.getLast?_concat]
  have hbrace : header.getLast?.any isWordChar = false := by
    rw [hlast]
    decide
  have hlength : text.length - rest.length = header.length := by
    rw [hsplit, List.length_append, Nat.add_sub_cancel]
  rw [hlength, hsplit, headersFrom_append h.lacksKeyword hbrace, hlast]
  rfl

/-- The headers of a text are those at its places. -/
theorem mem_headersFrom {previous : Option Char} {offset : Nat} {text : Text} {header : Header} :
    header ∈ headersFrom previous offset text ↔ ∃ before behind, text = before ++ behind ∧
      headerAt? (before.getLast?.or previous) (offset + before.length) behind = some header := by
  induction text generalizing previous offset with
  | nil =>
    refine iff_of_false List.not_mem_nil ?_
    rintro ⟨before, behind, htext, hheader⟩
    obtain ⟨rfl, rfl⟩ := List.append_eq_nil_iff.1 htext.symm
    obtain ⟨gap, clause, rest, h, -⟩ := headerAt?_eq_some_iff.1 hheader
    exact List.cons_ne_nil _ _ h.text_eq.symm
  | cons c text ih =>
    rw [headersFrom, List.mem_append, Option.mem_toList, ih]
    constructor
    · rintro (hhere | ⟨before, behind, rfl, hheader⟩)
      · exact ⟨[], c :: text, rfl, hhere⟩
      · refine ⟨c :: before, behind, rfl, ?_⟩
        rwa [getLast?_cons_or, List.length_cons, Nat.add_comm before.length, ← Nat.add_assoc]
    · rintro ⟨_ | ⟨d, before⟩, behind, htext, hheader⟩
      · obtain rfl := htext
        exact .inl hheader
      · obtain ⟨rfl, rfl⟩ := List.cons.inj htext
        refine .inr ⟨before, behind, rfl, ?_⟩
        rwa [getLast?_cons_or, List.length_cons, Nat.add_comm before.length, ← Nat.add_assoc]
          at hheader

end Header

end EnumCompanion
