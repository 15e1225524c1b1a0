import EnumCompanion.Span
import Mathlib.Data.List.TakeWhile
import Mathlib.Tactic.Common

/-!
# Places in texts put together

What the searches of a text find at the seam of two of its parts, and what
stands between two seams.

* `seek?_eq_some_iff`: the first place of a character behind a seam;
* `lineEnd_append`, `lastLineStart_eq`: the ends of the line that holds it;
* `exists_append_of_seek?_eq_some`: the line that a place is on;
* `unlines_append`, `unlines_take_prefix`: the text of some of its lines;
* `EndsLine`, `EndsLine.lines_append`, `exists_endsLine`: where lines start;
* `lines_map`, `unlines_map`: lines with other characters between the line feeds;
* `exists_parts`, `slice_natCast`, `slice_append`: the parts of a text between two seams;
* `Position.ofOffset_append`, `Position.line_ofOffset`: the positions of places.
-/

namespace EnumCompanion.Text

/-- The first place of a character behind a seam is one before which it does not
    stand there. -/
theorem seek?_eq_some_iff {before behind : Text} {c : Char} {place : Nat} :
    (before ++ behind).seek? c before.length = some place ↔ ∃ head rest,
      behind = head ++ c :: rest ∧ c ∉ head ∧ place = before.length + head.length := by
  have hfind : ∀ n, behind.findIdx? (· == c) = some n ↔ ∃ head rest,
      behind = head ++ c :: rest ∧ c ∉ head ∧ n = head.length := by
    induction behind with
    | nil => exact fun n => iff_of_false nofun (by rintro ⟨head, rest, h, -⟩; simp at h)
    | cons d behind ih =>
      intro n
      rw [List.findIdx?_cons]
      by_cases hd : d = c
      · rw [if_pos (beq_of_eq hd), Option.some.injEq]
        constructor
        · rintro rfl
          exact ⟨[], behind, by rw [hd]; rfl, List.not_mem_nil, rfl⟩
        · rintro ⟨_ | ⟨e, head⟩, rest, h, hmem, rfl⟩
          · rfl
          · exact absurd (by rw [← (List.cons.inj h).1, hd]; exact List.mem_cons_self) hmem
      · rw [if_neg (by simpa using hd), Option.map_eq_some_iff]
        constructor
        · rintro ⟨m, hm, rfl⟩
          obtain ⟨head, rest, rfl, hmem, rfl⟩ := (ih m).1 hm
          exact ⟨d :: head, rest, rfl, by simp [hmem, Ne.symm hd], rfl⟩
        · rintro ⟨_ | ⟨e, head⟩, rest, h, hmem, rfl⟩
          · exact absurd (List.cons.inj h).1 hd
          · obtain ⟨rfl, rfl⟩ := List.cons.inj h
            exact ⟨head.length, (ih _).2 ⟨head, rest, rfl, List.not_mem_of_not_mem_cons hmem, rfl⟩, rfl⟩
  simp only [seek?, List.drop_left, Option.map_eq_some_iff, hfind]
  constructor
  · rintro ⟨n, ⟨head, rest, h, hmem, rfl⟩, rfl⟩
    exact ⟨head, rest, h, hmem, rfl⟩
  · rintro ⟨head, rest, h, hmem, rfl⟩
    exact ⟨head.length, ⟨head, rest, h, hmem, rfl⟩, rfl⟩

theorem seek?_eq_none_iff {before behind : Text} {c : Char} :
    (before ++ behind).seek? c before.length = none ↔ c ∉ behind := by
  rw [seek?, List.drop_left, Option.map_eq_none_iff, List.findIdx?_eq_none_iff]
  simp only [beq_eq_false_iff_ne, ne_eq]
  exact ⟨fun h hmem => h c hmem rfl, fun h d hd hc => h (hc ▸ hd)⟩

/-! ### Lines -/

/-- The first line of a text. -/
def firstLine (text : Text) : Text := text.takeWhile (· != '\n')

theorem firstLine_append_of_mem {text : Text} (h : '\n' ∈ text) (rest : Text) :
    firstLine (text ++ rest) = firstLine text := by
  rw [firstLine, List.takeWhile_append, if_neg]
  · rfl
  · intro hlength
    have hself : text.takeWhile (· != '\n') = text :=
      (List.takeWhile_prefix _).eq_of_length hlength
    exact absurd (List.takeWhile_eq_self_iff.1 hself _ h) (by decide)

theorem firstLine_append {text : Text} (h : '\n' ∉ text) (rest : Text) :
    firstLine (text ++ rest) = text ++ firstLine rest :=
  List.takeWhile_append_of_pos fun c hc => by
    simpa using fun hfeed : c = '\n' => h (hfeed ▸ hc)

theorem firstLine_eq_self {text : Text} (h : '\n' ∉ text) : firstLine text = text :=
  List.takeWhile_eq_self_iff.2 fun c hc => by
    simpa using fun hfeed : c = '\n' => h (hfeed ▸ hc)

theorem not_mem_firstLine (text : Text) : '\n' ∉ firstLine text := fun h => by
  have hall : (text.takeWhile (· != '\n')).all (· != '\n') = true := by simp
  exact absurd (List.all_eq_true.1 hall _ h) (by decide)

/-- The line at a seam ends with the first line behind it. -/
theorem lineEnd_append (before behind : Text) :
    (before ++ behind).lineEnd before.length = before.length + (firstLine behind).length := by
  rw [lineEnd]
  cases hseek : (before ++ behind).seek? '\n' before.length with
  | none =>
    rw [Option.getD_none, firstLine_eq_self (seek?_eq_none_iff.1 hseek), List.length_append]
  | some place =>
    obtain ⟨head, rest, rfl, hmem, rfl⟩ := seek?_eq_some_iff.1 hseek
    rw [Option.getD_some, firstLine_append hmem]
    simp [firstLine]

/-- Behind a place without a line feed there is one line. -/
theorem firstLine_drop_of_seek?_eq_none {text : Text} {place : Nat} (hplace : place ≤ text.length)
    (h : text.seek? '\n' place = none) : firstLine (text.drop place) = text.drop place := by
  have hlength : (text.take place).length = place := List.length_take_of_le hplace
  have hseek : seek? (text.take place ++ text.drop place) '\n' (text.take place).length = none := by
    rwa [hlength, List.take_append_drop]
  exact firstLine_eq_self (seek?_eq_none_iff.1 hseek)

/-- The line of a place ends with the first line feed behind it. -/
theorem exists_append_of_seek?_eq_some {text : Text} {place lineFeed : Nat}
    (hplace : place ≤ text.length) (h : text.seek? '\n' place = some lineFeed) :
    ∃ before behind, text = before ++ behind ∧ lineFeed + 1 = before.length ∧
      before = text.take place ++ (firstLine (text.drop place) ++ ['\n']) := by
  have hlength : (text.take place).length = place := List.length_take_of_le hplace
  have hsplit := List.take_append_drop place text
  have hseek : seek? (text.take place ++ text.drop place) '\n' (text.take place).length =
      some lineFeed := by
    rwa [hlength, hsplit]
  obtain ⟨head, behind, hdrop, hhead, rfl⟩ := seek?_eq_some_iff.1 hseek
  have hline : firstLine (text.drop place) = head := by
    rw [hdrop, firstLine_append hhead]
    exact List.append_nil head
  refine ⟨_, behind, ?_, ?_, by rw [hline]⟩
  · rw [List.append_assoc, List.append_assoc, List.singleton_append, ← hdrop, hsplit]
  · rw [List.length_append, List.length_append, List.length_singleton, Nat.add_assoc]

/-- The last line of a text starts so far from its end as its mirror image has
    characters on its first line. -/
theorem lastLineStart_eq (text : Text) :
    text.lastLineStart = text.length - (firstLine text.reverse).length := rfl

/-! ### Lists of lines -/

/-- The lines of a text make the text. -/
theorem unlines_lines (text : Text) : unlines text.lines = text :=
  List.intercalate_splitOn '\n'

theorem unlines_cons (line : Text) {rest : List Text} (h : rest ≠ []) :
    unlines (line :: rest) = line ++ '\n' :: unlines rest := by
  obtain ⟨next, rest, rfl⟩ := List.exists_cons_of_ne_nil h
  simp [unlines]

/-- Lines that others follow end with a line feed. -/
theorem unlines_append (before : List Text) {behind : List Text} (h : behind ≠ []) :
    unlines (before ++ behind) = before.flatMap (fun line => line ++ ['\n']) ++ unlines behind := by
  induction before with
  | nil => rfl
  | cons line before ih =>
    rw [List.cons_append, unlines_cons line (List.append_ne_nil_of_right_ne_nil _ h), ih,
      List.flatMap_cons]
    simp only [List.append_assoc, List.cons_append, List.nil_append]

/-- The first lines of a text are a beginning of it. -/
theorem unlines_take_prefix (lines : List Text) (count : Nat) :
    unlines (lines.take count) <+: unlines lines := by
  induction lines generalizing count with
  | nil => simp only [List.take_nil, List.prefix_rfl]
  | cons line lines ih =>
    cases count with
    | zero => exact List.nil_prefix
    | succ count =>
      rw [List.take_succ_cons]
      cases hrest : lines.take count with
      | nil =>
        cases lines with
        | nil => exact List.prefix_rfl
        | cons next lines =>
          rw [unlines_cons line (List.cons_ne_nil _ _)]
          rw [unlines, List.intercalate_singleton]
          exact List.prefix_append _ _
      | cons next rest =>
        have hne : lines ≠ [] := by
          rintro rfl
          rw [List.take_nil] at hrest
          exact List.cons_ne_nil _ _ hrest.symm
        rw [unlines_cons line hne, ← hrest, unlines_cons line (hrest ▸ List.cons_ne_nil _ _)]
        exact (List.prefix_append_right_inj line).2 (List.cons_prefix_cons.2 ⟨rfl, ih count⟩)

/-! ### Where lines start -/

theorem lines_append_cons (front rest : Text) :
    (front ++ '\n' :: rest).lines = front.lines ++ rest.lines :=
  List.splitOn_append_cons_self front rest

theorem lines_cons (c : Char) (text : Text) : lines (c :: text) =
    if c = '\n' then [] :: lines text else (lines text).modifyHead (c :: ·) := by
  rw [lines, List.splitOn_cons_eq_if_modifyHead]
  simp only [beq_iff_eq, lines]

theorem head?_lines (text : Text) : text.lines.head? = some (firstLine text) := by
  induction text with
  | nil => rfl
  | cons c text ih =>
    obtain ⟨first, others, hsplit⟩ :=
      List.exists_cons_of_ne_nil (show lines text ≠ [] from List.splitOn_ne_nil '\n' text)
    rw [lines_cons, firstLine, List.takeWhile_cons]
    rw [hsplit, List.head?_cons, firstLine, Option.some.injEq] at ih
    by_cases hc : c = '\n'
    · rw [if_pos hc, if_neg (by simpa using hc)]
      rfl
    · rw [if_neg hc, if_pos (by simpa using hc), hsplit, ih]
      rfl

theorem length_lines (text : Text) : text.lines.length = text.count '\n' + 1 := by
  induction text with
  | nil => rfl
  | cons c text ih =>
    rw [lines_cons, List.count_cons]
    split_ifs with hc hfeed hfeed
    · rw [List.length_cons, ih]
    · exact absurd (beq_of_eq hc) hfeed
    · exact absurd (eq_of_beq hfeed) hc
    · rw [List.length_modifyHead, ih, Nat.add_zero]

/-- What stands in a part of a text between separators stands in the text and is
    no separator. -/
theorem mem_of_mem_splitOn {text part : Text} {c d : Char} (h : part ∈ text.splitOn c)
    (hd : d ∈ part) : d ∈ text ∧ d ≠ c := by
  induction text generalizing part with
  | nil =>
    obtain rfl := List.mem_singleton.1 h
    exact absurd hd List.not_mem_nil
  | cons e text ih =>
    obtain ⟨first, others, hsplit⟩ := List.exists_cons_of_ne_nil (List.splitOn_ne_nil c text)
    have hmem {part : Text} (hpart : part ∈ first :: others) (hd : d ∈ part) :
        d ∈ e :: text ∧ d ≠ c :=
      (ih (hsplit ▸ hpart) hd).imp_left (List.mem_cons_of_mem e)
    rw [List.splitOn_cons_eq_if_modifyHead, hsplit] at h
    split_ifs at h with he
    · rcases List.mem_cons.1 h with rfl | h
      exacts [absurd hd List.not_mem_nil, hmem h hd]
    · rcases List.mem_cons.1 h with rfl | h
      · rcases List.mem_cons.1 hd with rfl | hd
        exacts [⟨List.mem_cons_self, by simpa using he⟩, hmem List.mem_cons_self hd]
      · exact hmem (List.mem_cons_of_mem _ h) hd

theorem not_mem_of_mem_lines {text line : Text} (h : line ∈ text.lines) : '\n' ∉ line :=
  fun hfeed => (mem_of_mem_splitOn h hfeed).2 rfl

/-- A text behind which a line starts. -/
def EndsLine (text : Text) : Prop := text = [] ∨ text.getLast? = some '\n'

/-- A text in front of which a line ends. -/
def FollowsLine (text : Text) : Prop := text = [] ∨ text.head? = some '\n'

theorem endsLine_reverse {text : Text} : EndsLine text.reverse ↔ FollowsLine text := by
  rw [EndsLine, FollowsLine, List.reverse_eq_nil_iff, List.getLast?_reverse]

theorem endsLine_concat (text : Text) : EndsLine (text ++ ['\n']) :=
  .inr List.getLast?_concat

theorem EndsLine.eq_nil_or_concat {text : Text} (h : EndsLine text) :
    text = [] ∨ ∃ front, text = front ++ ['\n'] :=
  h.imp_right fun hlast => List.getLast?_eq_some_iff.1 hlast

variable {before : Text}

/-- Where a line starts, the lines are those before and those from there on. -/
theorem EndsLine.lines_append (h : EndsLine before) (rest : Text) :
    (before ++ rest).lines = before.lines.dropLast ++ rest.lines := by
  obtain rfl | ⟨front, rfl⟩ := h.eq_nil_or_concat
  · rfl
  · rw [lines_append_cons, List.append_assoc, List.singleton_append, lines_append_cons]
    exact congrArg (· ++ rest.lines) (List.dropLast_concat).symm

theorem length_dropLast_lines (before : Text) :
    before.lines.dropLast.length = before.count '\n' := by
  rw [List.length_dropLast, length_lines, Nat.add_sub_cancel]

/-- Behind the lines before it stands the line that starts there. -/
theorem EndsLine.getElem?_lines (h : EndsLine before) (rest : Text) :
    (before ++ rest).lines[before.count '\n']? = some (firstLine rest) := by
  rw [h.lines_append, ← length_dropLast_lines, List.getElem?_append_right (Nat.le_refl _),
    Nat.sub_self, ← List.head?_eq_getElem?, head?_lines]

/-- A text behind which a line starts is its lines, with their line feeds. -/
theorem EndsLine.flatMap_lines (h : EndsLine before) :
    before.lines.dropLast.flatMap (fun line => line ++ ['\n']) = before := by
  have hjoin := unlines_append before.lines.dropLast (List.splitOn_ne_nil '\n' ([] : Text))
  rw [← lines, ← h.lines_append, List.append_nil, unlines_lines, unlines_lines,
    List.append_nil] at hjoin
  exact hjoin.symm

/-- A line starts behind each number of line feeds of a text. -/
theorem exists_endsLine {text : Text} {line : Nat} (h : line ≤ text.count '\n') :
    ∃ before rest, text = before ++ rest ∧ EndsLine before ∧ before.count '\n' = line := by
  induction line with
  | zero => exact ⟨[], text, rfl, .inl rfl, rfl⟩
  | succ line ih =>
    obtain ⟨before, rest, rfl, -, hcount⟩ := ih (Nat.le_of_succ_le h)
    have hfeed : '\n' ∈ rest := by
      rw [← List.count_pos_iff]
      rw [List.count_append] at h
      omega
    obtain ⟨head, tail, rfl, hhead⟩ := List.eq_append_cons_of_mem hfeed
    refine ⟨before ++ head ++ ['\n'], tail, by simp, endsLine_concat _, ?_⟩
    rw [List.count_append, List.count_append, hcount, List.count_eq_zero.2 hhead]
    rfl

/-! ### Lines with other characters -/

section

variable {f : Char → Char}

theorem lines_map (hf : ∀ c, f c = '\n' ↔ c = '\n') (text : Text) :
    lines (text.map f) = text.lines.map (List.map f) := by
  induction text with
  | nil => rfl
  | cons c text ih =>
    rw [List.map_cons, lines_cons, lines_cons, ih]
    by_cases hc : c = '\n'
    · rw [if_pos ((hf c).2 hc), if_pos hc]
      rfl
    · rw [if_neg (mt (hf c).1 hc), if_neg hc]
      cases lines text <;> rfl

theorem unlines_map (hf : f '\n' = '\n') (lines : List Text) :
    (unlines lines).map f = unlines (lines.map (List.map f)) := by
  induction lines with
  | nil => rfl
  | cons line lines ih =>
    cases lines with
    | nil => simp [unlines]
    | cons next lines =>
      rw [List.map_cons, unlines_cons line (List.cons_ne_nil _ _),
        unlines_cons (line.map f) (by simp), ← ih, List.map_append, List.map_cons, hf]

end

/-! ### Slices -/

/-- A text has beginnings of all lengths that do not exceed its own. -/
theorem exists_append_of_le {text : Text} {place : Nat} (h : place ≤ text.length) :
    ∃ before behind, text = before ++ behind ∧ before.length = place :=
  ⟨text.take place, text.drop place, (List.take_append_drop _ _).symm, List.length_take_of_le h⟩

/-- A text has parts of all lengths that do not exceed its own. -/
theorem exists_parts {text : Text} {first second : Nat} (h : first + second ≤ text.length) :
    ∃ before part behind, text = before ++ (part ++ behind) ∧ before.length = first ∧
      part.length = second := by
  refine ⟨text.take first, (text.drop first).take second, (text.drop first).drop second, ?_, ?_, ?_⟩
  · rw [List.take_append_drop, List.take_append_drop]
  · rw [List.length_take]
    omega
  · rw [List.length_take, List.length_drop]
    omega

/-- The characters between two places. -/
theorem slice_natCast (text : Text) (start stop : Nat) :
    text.slice start stop = (text.take stop).drop start := by
  rw [slice, Text.before, place_natCast, place_natCast, ← List.take_eq_take_min]
  rcases Nat.le_total start text.length with hle | hge
  · rw [Nat.min_eq_left hle]
  · rw [Nat.min_eq_right hge, List.drop_eq_nil_of_le (List.length_take_le' _ _),
      List.drop_eq_nil_of_le ((List.length_take_le' _ _).trans hge)]

/-- What stands between two seams. -/
theorem slice_append (before part behind : Text) :
    (before ++ (part ++ behind)).slice before.length (before.length + part.length : Nat) = part := by
  rw [slice_natCast, List.take_length_add_append, List.take_left, List.drop_left]

/-! ### Runs -/

/-- A text holds each of its parts. -/
theorem holds_append (front part behind : Text) :
    holds (front ++ (part ++ behind)) part = true := by
  induction front with
  | nil =>
    rw [List.nil_append]
    cases hpart : part ++ behind with
    | nil => rw [(List.append_eq_nil_iff.1 hpart).1]; rfl
    | cons c rest =>
      rw [holds, List.isPrefixOf_iff_prefix.2 (hpart ▸ List.prefix_append _ _), Bool.true_or]
  | cons c front ih => rw [List.cons_append, holds, ih, Bool.or_true]

end EnumCompanion.Text

/-! ### Positions -/

namespace EnumCompanion

open Text

/-- The position of an offset depends on the text before it. -/
theorem Position.ofOffset_append {before behind : Text} {offset : Nat}
    (h : offset ≤ before.length) : ofOffset (before ++ behind) offset = ofOffset before offset := by
  have hplace : ∀ text : Text, offset ≤ text.length → text.before offset = text.take offset :=
    fun text hle => by rw [Text.before, place_natCast, Nat.min_eq_left hle]
  rw [ofOffset, ofOffset, hplace _ h, hplace _ (by rw [List.length_append]; omega),
    List.take_append_of_le_length h]

theorem Span.ofOffsets_append {before behind : Text} {start stop : Nat}
    (hstart : start ≤ before.length) (hstop : stop ≤ before.length) :
    ofOffsets (before ++ behind) start stop = ofOffsets before start stop := by
  rw [ofOffsets, ofOffsets, Position.ofOffset_append hstart, Position.ofOffset_append hstop]

theorem Position.line_ofOffset (text : Text) (place : Nat) :
    (ofOffset text place).line = (text.take place).count '\n' := by
  rw [ofOffset, Text.before, place_natCast, ← List.take_eq_take_min]

theorem Position.line_le (text : Text) {place place' : Nat} (h : place ≤ place') :
    (ofOffset text place).line ≤ (ofOffset text place').line := by
  rw [line_ofOffset, line_ofOffset]
  exact (List.take_sublist_take_left h).count_le _

theorem Position.line_le_count (text : Text) (place : Nat) :
    (ofOffset text place).line ≤ text.count '\n' := by
  rw [line_ofOffset]
  exact (List.take_sublist _ _).count_le _

end EnumCompanion
