import EnumCompanion.Proofs.Declaration.Splice
import EnumCompanion.Proofs.Declaration.Tokens

/-!
# Declarations that stay

Declarations that can be read lie within one another or apart, and what is read of
a text are those that lie within none. A part of the text is exchanged for a block.
A declaration beside the part is read as before unless one around both of them is
read now, and one around the block only was read before.

* `Declares.length_lt_of_within`: a declaration within another one ends in it;
* `Reading.StandsIn`, `mem_readings_iff`: what is read are the outermost
  declarations;
* `Declares.exists_readHead?_exchange`: what is read around a block is read with
  another part in its place;
* `Exchange`, `Exchange.exists_mem_readings`: what is read beside a part that is
  exchanged is read still, where nothing new is read around it;
* `Exchange.preserves`, `Exchange.preserves_of_declarations`: where nothing is.
-/

namespace EnumCompanion

open Text

variable {allowRepeats : Bool} {previous : Option Char}

/-! ### Declarations within declarations -/

namespace Header.Heads

variable {text gap name clause rest : Text}

/-- No brace stands in a header before its own. -/
theorem notMem_opening (h : Heads previous text gap name clause rest) {c : Char}
    (hc : c = '{' ∨ c = '}') : c ∉ keyword ++ (gap ++ (name ++ clause)) := by
  have hbrace : c ∉ keyword ∧ isBlank c = false ∧ isNameChar c = false ∧
      (c ≠ '{' → closesHeader c = true) := by
    rcases hc with rfl | rfl <;> decide
  simp only [List.mem_append, not_or]
  refine ⟨hbrace.1, fun hmem => ?_, fun hmem => ?_, fun hmem => ?_⟩
  · exact Bool.noConfusion (hbrace.2.1.symm.trans (h.gap_blank _ hmem))
  · exact Bool.noConfusion (hbrace.2.2.1.symm.trans (isNameChar_of_isTypeName h.name _ hmem))
  · obtain ⟨hopen, hplain⟩ := h.clause.plain _ hmem
    exact Bool.noConfusion (hplain.symm.trans (hbrace.2.2.2 hopen))

/-- Behind a header one more brace is open. -/
theorem braceDepth_opening (h : Heads previous text gap name clause rest) (depth : Nat)
    (behind : Text) : braceDepth depth (keyword ++ (gap ++ (name ++ clause)) ++ '{' :: behind) =
      braceDepth (depth + 1) behind := by
  have hbalanced : Balanced (keyword ++ (gap ++ (name ++ clause))) :=
    balanced_of_notMem_braces (h.notMem_opening (.inl rfl)) (h.notMem_opening (.inr rfl))
  rw [braceDepth_append, hbalanced.braceDepth, Option.bind_some, braceDepth, if_pos rfl]

/-- No closing brace stands in a header, so that it ends before the first one. -/
theorem exists_start {front behind : Text} (h : Heads previous (front ++ '}' :: behind) gap name clause
    rest) : ∃ start, front = keyword ++ (gap ++ (name ++ clause)) ++ '{' :: start ∧
      rest = start ++ '}' :: behind := by
  have hnotMem : '}' ∉ keyword ++ (gap ++ (name ++ clause)) ++ ['{'] := by
    rw [List.mem_append, not_or]
    exact ⟨h.notMem_opening (.inr rfl), by decide⟩
  have htext : front ++ '}' :: behind = keyword ++ (gap ++ (name ++ clause)) ++ ['{'] ++ rest := by
    rw [h.text_eq_opening, List.append_cons]
  rcases List.append_eq_append_iff.1 htext with ⟨_ | ⟨c, more⟩, hopening, hmore⟩ | ⟨start, hfront, hstart⟩
  · exact ⟨[], by rw [hopening, List.append_nil], hmore.symm⟩
  · have hmem : '}' ∈ keyword ++ (gap ++ (name ++ clause)) ++ ['{'] := by
      rw [hopening, (List.cons.inj hmore).1]
      exact List.mem_append_right _ List.mem_cons_self
    exact absurd hmem hnotMem
  · exact ⟨start, by rw [hfront, ← List.append_cons], hstart⟩

/-- A declaration starts behind the brace of one that starts before. -/
theorem exists_start_of_within {before behind gap' name' clause' rest' : Text}
    (h : Heads previous (before ++ behind) gap name clause rest) (hne : before ≠ [])
    (h' : Heads (before.getLast?.or previous) behind gap' name' clause' rest') :
    ∃ start, before = keyword ++ (gap ++ (name ++ clause)) ++ '{' :: start ∧
      rest = start ++ behind := by
  obtain ⟨c, text, rfl⟩ := List.exists_cons_of_ne_nil hne
  let opening := keyword ++ (gap ++ (name ++ clause))
  have htext : c :: text ++ behind = opening ++ '{' :: rest := h.text_eq_opening
  let header : Header := ⟨name, 0, opening.length, h.name⟩
  have hheader : headerAt? previous 0 (c :: (text ++ behind)) = some header := by
    refine headerAt?_eq_some_iff.2 ⟨gap, clause, rest, h, rfl, ?_⟩
    rw [← List.cons_append, htext]
    simp only [header, List.length_append, List.length_cons]
    omega
  let later : Header := ⟨name', 1 + text.length, 1 + text.length + (behind.length - rest'.length - 1),
    h'.name⟩
  have hlater : later ∈ headersFrom (some c) 1 (text ++ behind) := by
    refine mem_headersFrom.2 ⟨text, behind, rfl, headerAt?_eq_some_iff.2
      ⟨gap', clause', rest', ?_, rfl, ?_⟩⟩
    · rwa [getLast?_cons_or] at h'
    · have := congrArg List.length h'.text_eq
      simp only [List.length_append, List.length_cons] at this
      simp only [later]
      omega
  have hlt : opening.length < 1 + text.length := brace_lt_start hheader hlater
  rcases List.append_eq_append_iff.1 htext with ⟨more, hopening, -⟩ | ⟨more, hbefore, hmore⟩
  · have := congrArg List.length hopening
    simp only [List.length_append, List.length_cons] at this
    omega
  · cases more with
    | nil =>
      have := congrArg List.length hbefore
      simp only [List.length_append, List.length_cons, List.length_nil] at this
      omega
    | cons d start =>
      obtain ⟨rfl, rfl⟩ := List.cons.inj hmore
      exact ⟨start, hbefore, rfl⟩

end Header.Heads

/-- A declaration that starts within another one ends within its body. -/
theorem Declares.length_lt_of_within {before behind gap name clause body rest gap' name' clause' body'
    rest' : Text} (h : Declares previous (before ++ behind) gap name clause body rest)
    (hne : before ≠ []) (hlt : rest.length < behind.length)
    (h' : Declares (before.getLast?.or previous) behind gap' name' clause' body' rest') :
    rest.length < rest'.length := by
  obtain ⟨start, -, hstart⟩ := h.heads.exists_start_of_within hne h'.heads
  obtain ⟨inner, rfl, rfl⟩ := exists_body_of_length_lt hstart hlt
  obtain ⟨start', rfl, hstart'⟩ := h'.heads.exists_start
  -- Otherwise a brace of the body would be open behind it.
  by_contra hover
  have hbalanced := h.balanced
  rw [Balanced, braceDepth_append, Option.bind_eq_some_iff] at hbalanced
  obtain ⟨depth, -, hinner⟩ := hbalanced
  rw [h'.heads.braceDepth_opening] at hinner
  obtain ⟨more, rfl⟩ : ∃ more, body' = start' ++ more := by
    rcases List.append_eq_append_iff.1 hstart' with ⟨more, rfl, hmore⟩ | ⟨more, hbody', -⟩
    · have hlength := congrArg List.length hmore
      rw [List.length_append, List.length_cons, List.length_cons] at hlength
      obtain rfl : more = [] := List.length_eq_zero_iff.1 (by omega)
      exact ⟨[], by rw [List.append_nil, List.append_nil]⟩
    · exact ⟨more, hbody'⟩
  have hclosed := h'.balanced
  rw [Balanced, braceDepth_append, Option.bind_eq_some_iff] at hclosed
  obtain ⟨depth', hdepth', -⟩ := hclosed
  have hopen := braceDepth_add hdepth' (depth + 1)
  rw [Nat.zero_add, hinner] at hopen
  exact absurd (Option.some.inj hopen) (by omega)

/-! ### The outermost declarations -/

/-- A reading of a declaration that can be read in a text that starts at
    `offset`, where `previous` is the character before it. -/
def Reading.StandsFrom (reading : Reading) (allowRepeats : Bool) (previous : Option Char) (offset : Nat)
    (text : Text) : Prop :=
  ∃ before rest length, text = before ++ rest ∧ reading.start = offset + before.length ∧
    reading.stop = reading.start + length ∧ readHead? allowRepeats (before.getLast?.or previous) rest =
      some (reading.name, reading.values, length)

/-- A reading of a declaration that can be read in a masked text. -/
def Reading.StandsIn (reading : Reading) (allowRepeats : Bool) (masked : Text) : Prop :=
  reading.StandsFrom allowRepeats none 0 masked

/-- A place within a reading, behind its start. -/
def Reading.Encloses (reading : Reading) (place : Nat) : Prop :=
  reading.start < place ∧ place < reading.stop

/-- What can be read behind the start of a declaration that can be read, and before
    its end, ends in it. -/
theorem length_le_of_readHead? {before behind name name' : Text} {values values' : List Text}
    {length length' : Nat} (hne : before ≠ []) (hlt : before.length < length)
    (h : readHead? allowRepeats previous (before ++ behind) = some (name, values, length))
    (h' : readHead? allowRepeats (before.getLast?.or previous) behind =
      some (name', values', length')) : before.length + length' ≤ length := by
  obtain ⟨gap, clause, body, rest, hdeclares, -, -, hlength⟩ := readHead?_eq_some_iff.1 h
  obtain ⟨gap', clause', body', rest', hdeclares', -, -, hlength'⟩ := readHead?_eq_some_iff.1 h'
  rw [List.length_append] at hlength
  have := hdeclares.length_lt_of_within hne (by omega) hdeclares'
  omega

section

variable {offset : Nat} {c : Char} {text : Text} {reading : Reading}

theorem Reading.standsFrom_cons : reading.StandsFrom allowRepeats previous offset (c :: text) ↔
    (reading.start = offset ∧ ∃ length, reading.stop = reading.start + length ∧
      readHead? allowRepeats previous (c :: text) = some (reading.name, reading.values, length)) ∨
    reading.StandsFrom allowRepeats (some c) (offset + 1) text := by
  constructor
  · rintro ⟨_ | ⟨d, before⟩, rest, length, htext, hstart, hstop, hread⟩
    · obtain rfl : c :: text = rest := htext
      exact .inl ⟨hstart, length, hstop, hread⟩
    · obtain ⟨rfl, rfl⟩ := List.cons.inj htext
      rw [getLast?_cons_or] at hread
      rw [List.length_cons, Nat.add_comm before.length, ← Nat.add_assoc] at hstart
      exact .inr ⟨before, rest, length, rfl, hstart, hstop, hread⟩
  · rintro (⟨hstart, length, hstop, hread⟩ | ⟨before, rest, length, rfl, hstart, hstop, hread⟩)
    · exact ⟨[], c :: text, length, rfl, hstart, hstop, hread⟩
    · refine ⟨c :: before, rest, length, rfl, ?_, hstop, by rwa [getLast?_cons_or]⟩
      rw [hstart, List.length_cons]
      omega

/-- Nothing that can be read behind the head of a text goes on behind what is read
    there. -/
theorem Reading.StandsFrom.stop_le {name : Text} {values : List Text} {length : Nat}
    (hhead : readHead? allowRepeats previous (c :: text) = some (name, values, length))
    (h : reading.StandsFrom allowRepeats (some c) (offset + 1) text)
    (hlt : reading.start < offset + length) : reading.stop ≤ offset + length := by
  obtain ⟨before, rest, length', rfl, hstart, hstop, hread⟩ := h
  have hle := @length_le_of_readHead? allowRepeats previous (c :: before) rest _ _ _ _ _ _
    (List.cons_ne_nil _ _) (by rw [List.length_cons]; omega) hhead
    (by rw [getLast?_cons_or]; exact hread)
  rw [List.length_cons] at hle
  omega

theorem Reading.StandsFrom.le_start
    (h : reading.StandsFrom allowRepeats previous offset text) : offset ≤ reading.start := by
  obtain ⟨before, rest, length, -, hstart, -⟩ := h
  omega

/-- A reading of a text that starts behind the first `skip` characters, and in no
    other one that does. -/
structure Reading.IsOutermost (reading : Reading) (allowRepeats : Bool) (skip : Nat)
    (previous : Option Char) (offset : Nat) (text : Text) : Prop where
  standsFrom : reading.StandsFrom allowRepeats previous offset text
  le_start : offset + skip ≤ reading.start
  free : ∀ outer : Reading, outer.StandsFrom allowRepeats previous offset text →
    offset + skip ≤ outer.start → ¬outer.Encloses reading.start

namespace Reading

/-- Nothing starts within what was read before. -/
theorem isOutermost_cons_of_skip {skip : Nat} (hskip : 0 < skip) :
    reading.IsOutermost allowRepeats skip previous offset (c :: text) ↔
      reading.IsOutermost allowRepeats (skip - 1) (some c) (offset + 1) text := by
  constructor
  · rintro ⟨hstands, hle, hfree⟩
    refine ⟨(standsFrom_cons.1 hstands).resolve_left fun h => ?_, ?_, fun outer houter hstart => ?_⟩
    · omega
    · omega
    · exact hfree outer (standsFrom_cons.2 (.inr houter)) (by omega)
  · rintro ⟨hstands, hle, hfree⟩
    refine ⟨standsFrom_cons.2 (.inr hstands), by omega, fun outer houter hstart => ?_⟩
    exact hfree outer ((standsFrom_cons.1 houter).resolve_left fun h => by omega) (by omega)

theorem isOutermost_cons_of_none (hhead : readHead? allowRepeats previous (c :: text) = none) :
    reading.IsOutermost allowRepeats 0 previous offset (c :: text) ↔
      reading.IsOutermost allowRepeats 0 (some c) (offset + 1) text := by
  have hcons : ∀ reading : Reading, reading.StandsFrom allowRepeats previous offset (c :: text) ↔
      reading.StandsFrom allowRepeats (some c) (offset + 1) text := fun reading => by
    rw [standsFrom_cons, hhead]
    simp
  constructor
  · rintro ⟨hstands, hle, hfree⟩
    have hstands' := (hcons reading).1 hstands
    exact ⟨hstands', hstands'.le_start, fun outer houter hstart =>
      hfree outer ((hcons outer).2 houter) (by omega)⟩
  · rintro ⟨hstands, hle, hfree⟩
    refine ⟨(hcons reading).2 hstands, by omega, fun outer houter _ => ?_⟩
    have houter' := (hcons outer).1 houter
    exact hfree outer houter' houter'.le_start

/-- What starts within the first reading ends in it. -/
theorem isOutermost_cons_of_some {name : Text} {values : List Text} {length : Nat}
    (hhead : readHead? allowRepeats previous (c :: text) = some (name, values, length)) :
    reading.IsOutermost allowRepeats 0 previous offset (c :: text) ↔
      reading = ⟨name, values, offset, offset + length⟩ ∨
        reading.IsOutermost allowRepeats (length - 1) (some c) (offset + 1) text := by
  have hpos : 0 < length := by
    obtain ⟨gap, clause, body, rest, hdeclares, -, -, hlength⟩ := readHead?_eq_some_iff.1 hhead
    have := hdeclares.length_rest_lt
    omega
  let first : Reading := ⟨name, values, offset, offset + length⟩
  have hcons : ∀ reading : Reading, reading.StandsFrom allowRepeats previous offset (c :: text) ↔
      reading = first ∨ reading.StandsFrom allowRepeats (some c) (offset + 1) text := fun reading => by
    rw [standsFrom_cons, hhead]
    cases reading
    simp only [first, Option.some.injEq, Prod.mk.injEq, Reading.mk.injEq]
    refine or_congr_left ⟨?_, ?_⟩
    · rintro ⟨rfl, length', rfl, rfl, rfl, rfl⟩
      exact ⟨rfl, rfl, rfl, rfl⟩
    · rintro ⟨rfl, rfl, rfl, rfl⟩
      exact ⟨rfl, length, rfl, rfl, rfl, rfl⟩
  constructor
  · rintro ⟨hstands, -, hfree⟩
    refine ((hcons reading).1 hstands).imp_right fun hstands => ?_
    have hbehind := hstands.le_start
    have hfirst := hfree first ((hcons first).2 (.inl rfl)) (Nat.le_refl _)
    simp only [first, Encloses, not_and, not_lt] at hfirst
    have hle := hfirst (by omega)
    exact ⟨hstands, by omega, fun outer houter hstart =>
      hfree outer ((hcons outer).2 (.inr houter)) (by omega)⟩
  · rintro (rfl | ⟨hstands, hle, hfree⟩)
    · exact ⟨(hcons first).2 (.inl rfl), Nat.le_refl _,
        fun outer _ hle hencloses => absurd hencloses.1 (Nat.not_lt.2 hle)⟩
    · refine ⟨(hcons reading).2 (.inr hstands), by omega, fun outer houter _ hencloses => ?_⟩
      obtain ⟨-, hstop⟩ := id hencloses
      rcases (hcons outer).1 houter with rfl | houter
      · dsimp only [first] at hstop
        omega
      · by_cases hwithin : outer.start < offset + length
        · have := houter.stop_le hhead hwithin
          omega
        · exact hfree outer houter (by omega) hencloses

end Reading

/-- What is read of a text behind what was read before are the outermost readings. -/
theorem mem_readingsFrom_iff {skip : Nat} :
    reading ∈ readingsFrom allowRepeats skip previous offset text ↔
      reading.IsOutermost allowRepeats skip previous offset text := by
  induction text generalizing skip previous offset with
  | nil =>
    refine iff_of_false List.not_mem_nil ?_
    rintro ⟨⟨before, rest, length, htext, -, -, hread⟩, -⟩
    obtain ⟨rfl, rfl⟩ := List.append_eq_nil_iff.1 htext.symm
    exact absurd (head?_of_readHead? hread) (Option.some_ne_none _).symm
  | cons c text ih =>
    rw [readingsFrom]
    split_ifs with hskip
    · rw [ih, Reading.isOutermost_cons_of_skip hskip]
    obtain rfl : skip = 0 := by omega
    cases hhead : readHead? allowRepeats previous (c :: text) with
    | none => rw [ih, Reading.isOutermost_cons_of_none hhead]
    | some read =>
      obtain ⟨name, values, length⟩ := read
      rw [List.mem_cons, ih, Reading.isOutermost_cons_of_some hhead]

end

/-- What is read of a masked text are the readings that no other one encloses. -/
theorem mem_readings_iff {masked : Text} {reading : Reading} :
    reading ∈ readings allowRepeats masked ↔ reading.StandsIn allowRepeats masked ∧
      ∀ outer : Reading, outer.StandsIn allowRepeats masked → ¬outer.Encloses reading.start := by
  rw [readings, mem_readingsFrom_iff]
  exact ⟨fun h => ⟨h.standsFrom, fun outer houter => h.free outer houter (Nat.zero_le _)⟩,
    fun h => ⟨h.1, Nat.zero_le _, fun outer houter _ => h.2 outer houter⟩⟩

/-! ### Declarations around a block -/

/-- A block closes the braces that it opens. -/
theorem IsMember.balanced {block filler : Text} (h : IsMember block filler) : Balanced block := by
  obtain ⟨head, inner, tail, rfl, -, hhead, htail, hinner⟩ := h.exists_group
  exact (balanced_of_notMem_signs hhead).append
    (hinner.balanced.group (show ('{', '}') ∈ bracketPairs by decide) (balanced_of_notMem_signs htail))

theorem IsMember.mem_brace {block filler : Text} (h : IsMember block filler) : '{' ∈ block := by
  obtain ⟨head, inner, tail, rfl, -⟩ := h.exists_group
  exact List.mem_append_right _ List.mem_cons_self

namespace Declares

variable {text block behind gap name clause body after start : Text}

/-- A declaration that goes on behind a block has its header before the block. -/
theorem exists_start (hne : text ≠ []) (hfits : Fits text block) (hblock : Balanced block)
    (hbrace : '{' ∈ block)
    (h : Declares previous (text ++ (block ++ behind)) gap name clause body after)
    (hlt : after.length < behind.length) :
    ∃ start, text = Header.keyword ++ (gap ++ (name ++ clause)) ++ '{' :: start := by
  rcases h.heads.cases_append hne (hfits.append behind) with ⟨start, rfl, -⟩ | ⟨clause', rfl, hclause'⟩
  · exact ⟨start, by simp only [List.append_assoc]⟩
  -- Otherwise its brace would be in the block, which closes it.
  exfalso
  have hopen : '{' ∉ Header.keyword ++ (gap ++ (name ++ clause')) :=
    (show Header.Heads previous _ gap name clause' [] from ⟨rfl, h.heads.previous, h.heads.gap_ne_nil,
      h.heads.gap_blank, h.heads.name, hclause'⟩).notMem_opening (.inl rfl)
  obtain ⟨more, hopening, hmore⟩ : ∃ more,
      Header.keyword ++ (gap ++ (name ++ clause)) =
        Header.keyword ++ (gap ++ (name ++ clause')) ++ more ∧
      block ++ behind = more ++ '{' :: (body ++ '}' :: after) := by
    rcases List.append_eq_append_iff.1 h.heads.text_eq_opening with h | ⟨_ | ⟨c, more⟩, htext, hmore⟩
    · exact h
    · exact ⟨[], by rw [htext, List.append_nil, List.append_nil], hmore.symm⟩
    · refine absurd ?_ hopen
      rw [htext, ← (List.cons.inj hmore).1]
      exact List.mem_append_right _ List.mem_cons_self
  have hnotMem : ∀ c, c = '{' ∨ c = '}' → c ∉ more := fun c hc hmem =>
    h.heads.notMem_opening hc (hopening ▸ List.mem_append_right _ hmem)
  obtain ⟨rest, rfl, hrest⟩ : ∃ rest, block = more ++ '{' :: rest ∧
      body ++ '}' :: after = rest ++ behind := by
    rcases List.append_eq_append_iff.1 hmore with ⟨tail, rfl, -⟩ | ⟨_ | ⟨c, rest⟩, rfl, hsplit⟩
    · exact absurd (List.mem_append_left _ hbrace) (hnotMem _ (.inl rfl))
    · rw [List.append_nil] at hbrace
      exact absurd hbrace (hnotMem _ (.inl rfl))
    · obtain ⟨rfl, hrest⟩ := List.cons.inj hsplit
      exact ⟨rest, rfl, hrest⟩
  obtain ⟨body', rfl, -⟩ := exists_body_of_length_lt hrest hlt
  have hbody := h.balanced
  rw [Balanced, braceDepth_append, Option.bind_eq_some_iff] at hbody
  obtain ⟨depth, hdepth, -⟩ := hbody
  rw [Balanced, braceDepth_append, (balanced_of_notMem_braces (hnotMem _ (.inl rfl))
    (hnotMem _ (.inr rfl))).braceDepth, Option.bind_some, braceDepth, if_pos rfl,
    braceDepth_add hdepth 1] at hblock
  exact absurd (Option.some.inj hblock) (Nat.succ_ne_zero depth)

variable (htext : text = Header.keyword ++ (gap ++ (name ++ clause)) ++ '{' :: start)

include htext

/-- What is read of a declaration around a block on a new line is read with another
    part in its place. -/
theorem exists_readHead?_exchange {part words filler : Text} (hblock : IsMember block filler)
    (hpart : CountsAs part words) (hbalanced : Balanced part) (hwords : ∀ c ∈ words, c ∉ cuts)
    (hfeed : text.getLast? = some '\n')
    (h : Declares previous (text ++ (block ++ behind)) gap name clause body after)
    (hreadable : isReadable allowRepeats (valueTokens body) = true)
    (hlt : after.length < (block ++ behind).length) : ∃ length,
      readHead? allowRepeats previous (text ++ (part ++ behind)) = some (name, valueTokens body, length) ∧
        length + after.length = (text ++ (part ++ behind)).length ∧ after.length < behind.length := by
  obtain ⟨body', depth, rfl, rfl, hdepth, hbody'⟩ := h.exists_around htext hblock.balanced hlt
  have hlast : start.getLast? = some '\n' := by
    rw [htext] at hfeed
    cases start with
    | nil => rw [List.getLast?_concat] at hfeed; exact absurd (Option.some.inj hfeed) (by decide)
    | cons c start => rwa [List.getLast?_append_of_ne_nil _ (by simp), List.getLast?_cons_cons] at hfeed
  -- The values are the same, since all of them are value names.
  have hnames : ∀ token ∈ valueTokens (start ++ (block ++ body')), isValueName token = true := by
    simp only [isReadable, Bool.and_eq_true, List.all_eq_true] at hreadable
    exact hreadable.1.2
  have hvalues := hblock.valueTokens hpart hwords hlast hnames
  have hclosed : braceDepth depth (part ++ body') = some 0 := by
    rw [braceDepth_append, hbalanced.braceDepth]
    exact hbody'
  refine ⟨(text ++ (part ++ (body' ++ ['}']))).length, readHead?_eq_some_iff.2 ⟨gap, clause, _, after,
    h.exchange htext (List.append_assoc part body' _).symm hdepth hclosed, hvalues, hreadable, ?_⟩, ?_, ?_⟩ <;>
  · simp only [List.length_append, List.length_cons, List.length_nil]
    omega

end Declares

/-! ### Readings beside an exchange -/

namespace Reading.StandsIn

variable {reading : Reading} {before behind : Text}

theorem start_lt (h : reading.StandsIn allowRepeats before) : reading.start < reading.stop ∧
    reading.stop ≤ before.length := by
  obtain ⟨front, rest, length, rfl, hstart, hstop, hread⟩ := h
  obtain ⟨gap, clause, body, after, hdeclares, -, -, hlength⟩ := readHead?_eq_some_iff.1 hread
  have := hdeclares.length_rest_lt
  rw [List.length_append]
  omega

theorem append (h : reading.StandsIn allowRepeats before) (behind : Text) :
    reading.StandsIn allowRepeats (before ++ behind) := by
  obtain ⟨front, rest, length, rfl, hstart, hstop, hread⟩ := h
  exact ⟨front, rest ++ behind, length, List.append_assoc _ _ _, hstart, hstop,
    readHead?_append hread behind⟩

/-- A reading that starts in a text, with what of the text is behind its start. -/
theorem exists_of_lt (h : reading.StandsIn allowRepeats (before ++ behind))
    (hlt : reading.start < before.length) : ∃ front text length, before = front ++ text ∧ text ≠ [] ∧
      reading.start = front.length ∧ reading.stop = reading.start + length ∧
      readHead? allowRepeats (front.getLast?.or none) (text ++ behind) =
        some (reading.name, reading.values, length) := by
  obtain ⟨front, rest, length, hsplit, hstart, hstop, hread⟩ := h
  rw [Nat.zero_add] at hstart
  rcases List.append_eq_append_iff.1 hsplit with ⟨more, rfl, -⟩ | ⟨text, rfl, rfl⟩
  · rw [List.length_append] at hstart
    omega
  · refine ⟨front, text, length, rfl, ?_, hstart, hstop, hread⟩
    rintro rfl
    rw [List.append_nil] at hlt
    omega

theorem of_append (h : reading.StandsIn allowRepeats (before ++ behind))
    (hle : reading.stop ≤ before.length) : reading.StandsIn allowRepeats before := by
  have hlt := Nat.lt_of_lt_of_le h.start_lt.1 hle
  obtain ⟨front, text, length, rfl, -, hstart, hstop, hread⟩ := h.exists_of_lt hlt
  rw [List.length_append] at hle
  exact ⟨front, text, length, rfl, by rwa [Nat.zero_add], hstop,
    readHead?_of_append hread (by dsimp only; omega)⟩

/-- A reading stands where it did with another text before, unless a word goes on
    from there. -/
theorem moved (h : reading.StandsIn allowRepeats behind)
    (hlast : behind ≠ [] → before.getLast?.any isWordChar = false) :
    (reading.moved before.length).StandsIn allowRepeats (before ++ behind) := by
  obtain ⟨front, rest, length, rfl, hstart, hstop, hread⟩ := h
  refine ⟨before ++ front, rest, length, (List.append_assoc _ _ _).symm, ?_, ?_,
    (readHead?_congr ?_ rest).trans hread⟩
  · rw [Reading.start_moved, hstart, List.length_append, Nat.zero_add, Nat.zero_add]
  · rw [Reading.stop_moved, Reading.start_moved, hstop, Nat.add_assoc]
  · rw [List.getLast?_append]
    cases front.getLast? with
    | some c => rfl
    | none =>
      rw [Option.none_or, Option.or_none]
      refine hlast fun hnil => ?_
      rw [(List.append_eq_nil_iff.1 hnil).2] at hread
      exact absurd (head?_of_readHead? hread) (Option.some_ne_none _).symm

theorem exists_moved (h : reading.StandsIn allowRepeats (before ++ behind))
    (hlast : behind ≠ [] → before.getLast?.any isWordChar = false) (hle : before.length ≤ reading.start) :
    ∃ origin : Reading, origin.StandsIn allowRepeats behind ∧ reading = origin.moved before.length := by
  have hbehind : behind ≠ [] := by
    rintro rfl
    have := h.start_lt
    rw [List.append_nil] at this
    omega
  obtain ⟨front, rest, length, hsplit, hstart, hstop, hread⟩ := h
  obtain ⟨more, rfl, rfl⟩ : ∃ more, front = before ++ more ∧ behind = more ++ rest := by
    rcases List.append_eq_append_iff.1 hsplit with h | ⟨more, rfl, rfl⟩
    · exact h
    · rw [List.length_append] at hle
      obtain rfl : more = [] := List.length_eq_zero_iff.1 (by omega)
      exact ⟨[], by simp, rfl⟩
  rw [List.length_append] at hstart
  refine ⟨⟨reading.name, reading.values, more.length, more.length + length⟩,
    ⟨more, rest, length, rfl, (Nat.zero_add _).symm, rfl, (readHead?_congr ?_ rest).trans hread⟩, ?_⟩
  · rw [List.getLast?_append]
    cases more.getLast? with
    | some c => rfl
    | none =>
      rw [Option.none_or, Option.or_none]
      exact (hlast hbehind).symm
  · cases reading
    simp only [Reading.moved, Reading.mk.injEq, true_and] at hstart hstop ⊢
    omega

end Reading.StandsIn

/-- A block that takes the place of a part between two masked texts: it mentions no
    enum, its braces are closed, and no word goes on at its ends. -/
structure Exchange (before part block behind : Text) : Prop where
  quiet : Quiet [Header.keyword] block
  balanced : Balanced block
  mem_brace : '{' ∈ block
  fits : Fits before block
  word_part : behind ≠ [] → (part.getLast?.or before.getLast?).any isWordChar = false
  word_block : behind ≠ [] → (block.getLast?.or before.getLast?).any isWordChar = false

/-- What can be read around the block was read around the part, if it takes in a
    place of the text with the part. -/
def Exchange.Preserves (allowRepeats : Bool) (before part block behind : Text) (place : Nat) : Prop :=
  ∀ outer : Reading, outer.StandsIn allowRepeats (before ++ (block ++ behind)) →
    outer.start < before.length → before.length + block.length < outer.stop →
    outer.start < place → place + block.length < outer.stop + part.length →
    ∃ outer' : Reading, outer'.StandsIn allowRepeats (before ++ (part ++ behind)) ∧
      outer'.name = outer.name ∧ outer'.values = outer.values ∧ outer'.start = outer.start ∧
      outer'.stop + block.length = outer.stop + part.length

/-- A reading as it is where a part of the text, from a place on, was exchanged: it
    starts before the part or is moved with the text behind it, and ends likewise. -/
structure Reading.Stays (reading reading' : Reading) (place part block : Nat) : Prop where
  name : reading'.name = reading.name
  values : reading'.values = reading.values
  start : reading'.start = reading.start ∨ reading'.start + part = reading.start + block
  stop : reading.stop ≤ place ∧ reading'.stop = reading.stop ∨
    place + part < reading.stop ∧ reading'.stop + part = reading.stop + block

namespace Exchange

variable {before part block behind : Text} (h : Exchange before part block behind)

include h

/-- What starts in the block cannot be read. -/
theorem not_standsIn {reading : Reading}
    (hreading : reading.StandsIn allowRepeats (before ++ (block ++ behind)))
    (hle : before.length ≤ reading.start) (hlt : reading.start < before.length + block.length) :
    False := by
  rw [← List.append_assoc] at hreading
  obtain ⟨front, text, length, hsplit, hne, hstart, -, hread⟩ :=
    hreading.exists_of_lt (by rwa [List.length_append])
  obtain ⟨more, rfl, hblock⟩ : ∃ more, front = before ++ more ∧ block = more ++ text := by
    rcases List.append_eq_append_iff.1 hsplit with h | ⟨more, rfl, hmore⟩
    · exact h
    · rw [List.length_append] at hle
      obtain rfl : more = [] := List.length_eq_zero_iff.1 (by omega)
      exact ⟨[], by simp, hmore.symm⟩
  obtain ⟨gap, clause, body, after, hdeclares, -⟩ := readHead?_eq_some_iff.1 hread
  rw [List.getLast?_append, Option.or_none] at hdeclares
  exact h.quiet.undeclared List.mem_cons_self before.getLast? behind more text hblock hne _ _ _ _ _
    hdeclares

theorem getLast?_part (hne : behind ≠ []) : (before ++ part).getLast?.any isWordChar = false := by
  rw [List.getLast?_append]
  exact h.word_part hne

theorem getLast?_block (hne : behind ≠ []) : (before ++ block).getLast?.any isWordChar = false := by
  rw [List.getLast?_append]
  exact h.word_block hne

/-- A reading that starts before the block, with another one that starts in it before
    the block, takes in the block if it goes on at its start. -/
theorem lt_stop {outer inner : Reading}
    (houter : outer.StandsIn allowRepeats (before ++ (block ++ behind)))
    (hinner : inner.StandsIn allowRepeats (before ++ (block ++ behind)))
    (hencloses : outer.start < inner.start) (hlt : inner.start < before.length)
    (hover : before.length < outer.stop) : before.length + block.length < outer.stop := by
  obtain ⟨front, text, length, rfl, hne, hstart, hstop, hread⟩ :=
    houter.exists_of_lt (Nat.lt_trans hencloses hlt)
  obtain ⟨front', text', length', hsplit, -, hstart', -, hread'⟩ := hinner.exists_of_lt hlt
  obtain ⟨between, rfl, rfl⟩ : ∃ between, front' = front ++ between ∧ text = between ++ text' := by
    rcases List.append_eq_append_iff.1 hsplit with h | ⟨more, rfl, -⟩
    · exact h
    · rw [List.length_append] at hstart
      omega
  have hbetween : between ≠ [] := by
    rintro rfl
    rw [List.append_nil] at hstart'
    omega
  obtain ⟨gap, clause, body, after, hdeclares, -, -, hlength⟩ := readHead?_eq_some_iff.1 hread
  obtain ⟨gap', clause', body', after', hdeclares', -⟩ := readHead?_eq_some_iff.1 hread'
  rw [List.append_assoc] at hdeclares
  rw [List.getLast?_append_of_ne_nil _ hbetween] at hdeclares'
  have hprevious : (between.getLast?.or none) = between.getLast?.or (front.getLast?.or none) := by
    obtain ⟨c, hc⟩ := Option.isSome_iff_exists.1 (List.getLast?_isSome.2 hbetween)
    rw [hc]
    rfl
  rw [hprevious] at hdeclares'
  obtain ⟨start, rfl, -⟩ := hdeclares.heads.exists_start_of_within hbetween hdeclares'.heads
  rw [← List.append_assoc] at hdeclares
  simp only [List.length_append, List.length_cons] at hlength hover hstart hstop ⊢
  obtain ⟨body', depth, -, hbehind, -⟩ := hdeclares.exists_around
    (by simp only [List.append_assoc, List.cons_append]; rfl) h.balanced (by
      simp only [List.length_append]; omega)
  have := congrArg List.length hbehind
  rw [List.length_append, List.length_cons] at this
  omega

/-- What no reading enclosed before the part, none encloses before the block. -/
theorem not_encloses_before {reading reading' : Reading}
    (hpreserves : Preserves allowRepeats before part block behind reading.start)
    (hfree : ∀ outer : Reading, outer.StandsIn allowRepeats (before ++ (part ++ behind)) →
      ¬outer.Encloses reading.start)
    (hstart : reading'.start = reading.start) (hlt : reading.start < before.length)
    (hreading' : reading'.StandsIn allowRepeats (before ++ (block ++ behind))) (outer : Reading)
    (houter : outer.StandsIn allowRepeats (before ++ (block ++ behind))) :
    ¬outer.Encloses reading'.start := by
  rintro ⟨hbefore, hbehind⟩
  rw [hstart] at hbehind
  by_cases hle : outer.stop ≤ before.length
  · exact hfree outer ((houter.of_append hle).append _) ⟨hstart ▸ hbefore, hbehind⟩
  · have hstop := h.lt_stop houter hreading' hbefore (by omega) (Nat.lt_of_not_le hle)
    obtain ⟨outer', houter', -, -, hsame, hmoved⟩ :=
      hpreserves outer houter (by omega) hstop (by omega) (by omega)
    exact hfree outer' houter' ⟨by omega, by omega⟩

/-- What no reading enclosed behind the part, none encloses behind the block. -/
theorem not_encloses_behind {place place' : Nat}
    (hpreserves : Preserves allowRepeats before part block behind place)
    (hfree : ∀ outer : Reading, outer.StandsIn allowRepeats (before ++ (part ++ behind)) →
      ¬outer.Encloses place)
    (hplace : place' + part.length = place + block.length)
    (hle : before.length + part.length ≤ place) (outer : Reading)
    (houter : outer.StandsIn allowRepeats (before ++ (block ++ behind))) :
    ¬outer.Encloses place' := by
  rintro ⟨hbefore, hbehind⟩
  by_cases hstart : outer.start < before.length
  · obtain ⟨outer', houter', -, -, hsame, hmoved⟩ :=
      hpreserves outer houter hstart (by omega) (by omega) (by omega)
    exact hfree outer' houter' ⟨by omega, by omega⟩
  by_cases hwithin : outer.start < before.length + block.length
  · exact h.not_standsIn houter (Nat.not_lt.1 hstart) hwithin
  rw [← List.append_assoc] at houter hfree
  obtain ⟨origin, horigin, rfl⟩ := houter.exists_moved h.getLast?_block
    (by rw [List.length_append]; omega)
  refine hfree _ (horigin.moved h.getLast?_part) ?_
  simp only [Reading.Encloses, Reading.start_moved, Reading.stop_moved, List.length_append]
    at hbefore hbehind ⊢
  omega

/-- What is read beside the part is read still, and so is what is read around it if
    it can be read around the block. -/
theorem exists_mem_readings {reading : Reading}
    (hpreserves : Preserves allowRepeats before part block behind reading.start)
    (hread : reading ∈ readings allowRepeats (before ++ (part ++ behind)))
    (hplace : reading.stop ≤ before.length ∨ before.length + part.length ≤ reading.start ∨
      reading.start < before.length ∧ before.length + part.length < reading.stop ∧
        Preserves allowRepeats before block part behind before.length) :
    ∃ reading' ∈ readings allowRepeats (before ++ (block ++ behind)),
      reading.Stays reading' before.length part.length block.length := by
  obtain ⟨hstands, hfree⟩ := mem_readings_iff.1 hread
  have hlt := hstands.start_lt.1
  rcases hplace with hle | hle | ⟨hbefore, hbehind, hback⟩
  · have hstands' := (hstands.of_append hle).append (block ++ behind)
    exact ⟨reading, mem_readings_iff.2 ⟨hstands', h.not_encloses_before hpreserves hfree rfl
      (by omega) hstands'⟩, rfl, rfl, .inl rfl, .inl ⟨hle, rfl⟩⟩
  · have hsplit := hstands
    rw [← List.append_assoc] at hsplit
    obtain ⟨origin, horigin, rfl⟩ := hsplit.exists_moved h.getLast?_part
      (by rwa [List.length_append])
    have hstands' := horigin.moved h.getLast?_block
    rw [List.append_assoc] at hstands'
    refine ⟨_, mem_readings_iff.2 ⟨hstands', h.not_encloses_behind hpreserves hfree ?_ hle⟩,
      rfl, rfl, .inr ?_, .inr ⟨?_, ?_⟩⟩ <;>
    · simp only [Reading.start_moved, Reading.stop_moved, List.length_append] at hlt ⊢
      omega
  · obtain ⟨reading', hstands', hname, hvalues, hstart, hstop⟩ :=
      hback reading hstands hbefore hbehind hbefore (by omega)
    exact ⟨reading', mem_readings_iff.2 ⟨hstands', h.not_encloses_before hpreserves hfree hstart
      hbefore hstands'⟩, hname, hvalues, .inl hstart, .inr ⟨hbehind, hstop⟩⟩

end Exchange

/-! ### What is read around a block -/

/-- What can be read around a block on a new line can be read with another part in
    its place. -/
theorem Exchange.preserves {before part block behind words filler : Text} {place : Nat}
    (hblock : IsMember block filler) (hfits : Fits before block) (hpart : CountsAs part words)
    (hbalanced : Balanced part) (hwords : ∀ c ∈ words, c ∉ cuts)
    (hfeed : behind ≠ [] → before.getLast? = some '\n') :
    Preserves allowRepeats before part block behind place := by
  intro outer houter hlt hover _ _
  have hne : behind ≠ [] := by
    rintro rfl
    have := houter.start_lt.2
    rw [List.append_nil, List.length_append] at this
    omega
  obtain ⟨front, text, length, rfl, htext, hstart, hstop, hread⟩ := houter.exists_of_lt hlt
  obtain ⟨gap, clause, body, after, hdeclares, hvalues, hreadable, hlength⟩ :=
    readHead?_eq_some_iff.1 hread
  simp only [List.length_append] at hlength hover
  obtain ⟨start, hopening⟩ := hdeclares.exists_start htext (hfits.of_append htext) hblock.balanced
    hblock.mem_brace (by omega)
  have hlast := hfeed hne
  rw [List.getLast?_append_of_ne_nil _ htext] at hlast
  obtain ⟨length', hread', hlength', -⟩ := hdeclares.exists_readHead?_exchange hopening hblock hpart
    hbalanced hwords hlast (by rwa [hvalues]) (by rw [List.length_append]; omega)
  rw [hvalues] at hread'
  refine ⟨⟨outer.name, outer.values, front.length, front.length + length'⟩,
    ⟨front, _, length', List.append_assoc _ _ _, (Nat.zero_add _).symm, rfl, hread'⟩, rfl, rfl,
    hstart.symm, ?_⟩
  simp only [List.length_append] at hlength'
  dsimp only
  omega

/-- Nothing can be read around the block and a place, if each declaration that starts
    before the place ends before the part or starts behind it, or else closes its
    braces behind the part and before the place. -/
theorem Exchange.preserves_of_declarations {before part block behind : Text} {place : Nat}
    (h : Exchange before part block behind) (hclosing : Closing part)
    (hapart : ∀ other ∈ declarations (before ++ (part ++ behind)), other.1 < place →
      other.2 ≤ before.length ∨ before.length ≤ other.1 ∨ Balanced part ∧ other.2 ≤ place) :
    Preserves allowRepeats before part block behind place := by
  intro outer houter hlt hover hplace hplace'
  exfalso
  obtain ⟨front, text, length, rfl, htext, hstart, hstop, hread⟩ := houter.exists_of_lt hlt
  obtain ⟨gap, clause, body, after, hdeclares, -, -, hlength⟩ := readHead?_eq_some_iff.1 hread
  simp only [List.length_append] at hlength hover hplace'
  obtain ⟨start, hopening⟩ := hdeclares.exists_start htext (h.fits.of_append htext) h.balanced
    h.mem_brace (by omega)
  have hafter : after.length < (block ++ behind).length := by
    rw [List.length_append]
    omega
  have hpos := List.length_pos_of_ne_nil htext
  by_cases hbalanced : Balanced part
  · -- The declaration ends behind the place, with the part in it as well.
    obtain ⟨body', depth, -, hbehind, hdepth, hbody'⟩ :=
      hdeclares.exists_around hopening h.balanced hafter
    have hclosed : braceDepth depth (part ++ body') = some 0 := by
      rw [braceDepth_append, hbalanced.braceDepth]
      exact hbody'
    have hdeclares' := hdeclares.exchange hopening
      (by rw [hbehind, List.append_assoc] : part ++ behind = (part ++ body') ++ '}' :: after)
      hdepth hclosed
    rw [Option.or_none] at hdeclares'
    have hmem := hdeclares'.mem_declarations
    rw [← List.append_assoc] at hmem
    have := hapart _ hmem (by dsimp only; omega)
    simp only [List.length_append] at this
    omega
  · obtain ⟨body', after', hdeclares', hlt'⟩ :=
      hdeclares.exists_of_closing hopening h.balanced hclosing hafter
    rw [Option.or_none] at hdeclares'
    have hmem := hdeclares'.mem_declarations
    rw [← List.append_assoc] at hmem
    have := hapart _ hmem (by dsimp only; omega)
    simp only [hbalanced, false_and, or_false, List.length_append] at this hlt'
    omega

end EnumCompanion
