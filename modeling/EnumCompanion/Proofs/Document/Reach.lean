import EnumCompanion.Document.Capture
import EnumCompanion.Proofs.Declaration.Masked
import EnumCompanion.Proofs.Text.Lines

/-!
# How far lines are captured

What is captured from a line that starts in code is masked by itself as it is in
the document. It ends at the first line end at which a brace has been opened and
none is left open, or with the document.

* `StartsInCode`, `le_line_iff`: starts of lines;
* `ShutsFirst`, `exists_linesBehind`: the lines that are captured;
* `exists_captureFrom_masked`: the text of them and its mask;
* `Captures`, `exists_captures`: the text of them, between what stands around it;
* `CaptureReaches`, `Captures.captureReaches_iff`: whether they reach up to a
  place.
-/

namespace EnumCompanion

open Text Mask

variable {text before rest : Text}

/-! ### Starts of lines -/

/-- The place where a line of a text starts. -/
def startOfLine (text : Text) (line : Nat) : Nat := lineStart (text.lines.take line)

/-- Whether a line of a text starts in code, outside of comments and literals. -/
def StartsInCode (text : Text) (line : Nat) : Prop :=
  (after (.code .clear) (text.take (startOfLine text line))).isCode = true

instance (text : Text) (line : Nat) : Decidable (StartsInCode text line) :=
  inferInstanceAs (Decidable (_ = true))

theorem Text.EndsLine.startOfLine_eq (h : EndsLine before) (rest : Text) :
    startOfLine (before ++ rest) (before.count '\n') = before.length := by
  rw [startOfLine, h.lines_append, ← length_dropLast_lines, List.take_left, lineStart,
    h.flatMap_lines]

/-- The places on a line and behind it are those from its start on. -/
theorem le_line_iff {line place : Nat} (h : line ≤ text.count '\n') :
    line ≤ (Position.ofOffset text place).line ↔ startOfLine text line ≤ place := by
  obtain ⟨before, rest, rfl, hends, rfl⟩ := exists_endsLine h
  rw [Position.line_ofOffset, hends.startOfLine_eq]
  constructor
  · intro hcount
    by_contra hlt
    -- The last line feed of the lines before it stands at the place or behind it.
    obtain rfl | ⟨front, rfl⟩ := hends.eq_nil_or_concat
    · exact hlt (Nat.zero_le _)
    · rw [List.length_append, List.length_singleton] at hlt
      have hprefix : (front ++ ['\n'] ++ rest).take place <+: front := by
        rw [List.append_assoc, List.take_append_of_le_length (by omega)]
        exact List.take_prefix _ _
      have := hprefix.sublist.count_le '\n'
      rw [List.count_append, List.count_singleton_self] at hcount
      omega
  · intro hle
    have hprefix : before <+: (before ++ rest).take place :=
      List.prefix_take_iff.2 ⟨List.prefix_append _ _, hle⟩
    exact hprefix.sublist.count_le _

/-- The mask of a text has its line ends. -/
theorem count_masked (text : Text) : text.masked.count '\n' = text.count '\n' := by
  rw [← count_map_blanked, masked, map_blanked_maskFrom, count_map_blanked]

theorem Text.EndsLine.masked (h : EndsLine text) : EndsLine text.masked := by
  refine h.imp (fun hnil => by rw [hnil]; rfl) fun hlast => map_blanked_eq_feed_iff.1 ?_
  rw [← List.getLast?_map, Text.masked, map_blanked_maskFrom, List.getLast?_map, hlast]
  rfl

/-- Texts with their line feeds at the same places follow a line both or none. -/
theorem Text.FollowsLine.congr {other : Text} (h : FollowsLine text)
    (heq : text.map blanked = other.map blanked) : FollowsLine other := by
  refine h.imp (fun hnil => ?_) fun hhead => map_blanked_eq_feed_iff.1 ?_
  · rw [hnil] at heq
    exact List.map_eq_nil_iff.1 heq.symm
  · rw [← List.head?_map, ← heq, List.head?_map, hhead]
    rfl

/-- A line end leaves the machine in code behind no word, if in code. -/
theorem Mask.Mode.step_feed {mode : Mode} (hproper : mode.IsProper) {next : Option Char}
    (h : (mode.step '\n' next).isCode = true) : mode.step '\n' next = .code .clear := by
  cases hresume : mode.resume? '\n' with
  | some trail =>
    rw [Mask.step_of_plain (by decide) hresume, Trail.next_of_not_isAlnum (by decide)]
  | none =>
    -- Within a comment or literal it is none of a delimiter.
    rw [Mode.step, hresume] at h ⊢
    rcases mode with _ | _ | ⟨depth, half⟩ | ⟨quote, raw, progress⟩
    · exact absurd hresume (Option.some_ne_none _)
    · exact absurd hresume (Option.some_ne_none _)
    · cases half <;> exact Bool.noConfusion h
    · have hquote : '\n' ≠ quote := by rcases hproper with rfl | rfl <;> decide
      cases progress <;> simp_all [Mode.absorb, Mode.absorbSingle, Mode.absorbTriple, Mode.isCode]

/-- Where a line starts in code, the machine is back where it started. -/
theorem Text.EndsLine.after_eq (h : EndsLine text)
    (hcode : (after (.code .clear) text).isCode = true) :
    after (.code .clear) text = .code .clear := by
  obtain rfl | ⟨front, rfl⟩ := h.eq_nil_or_concat
  · rfl
  · rw [after_append (seam_of_head? (by simp) front)] at hcode ⊢
    exact Mode.step_feed (isProper_after (show Mode.IsProper (.code .clear) from trivial) _) hcode

/-- Where a line starts, a text is masked from the mode behind the lines before it. -/
theorem Text.EndsLine.masked_eq (h : EndsLine before) (rest : Text) : (before ++ rest).masked =
    before.masked ++ maskFrom (after (.code .clear) before) rest := by
  have hlast : before.getLast? ≠ some '/' := by
    rcases h with rfl | hlast
    · exact nofun
    · rw [hlast]
      decide
  rw [Text.masked, maskFrom_append (seam_of_getLast? hlast _), ← Text.masked]

theorem Text.EndsLine.masked_append (h : EndsLine before)
    (hafter : after (.code .clear) before = .code .clear) :
    (before ++ rest).masked = before.masked ++ rest.masked := by
  rw [h.masked_eq, hafter, ← Text.masked]

/-- Before a line end a text is masked by itself as there. -/
theorem Text.FollowsLine.masked_append {behind : Text} (h : FollowsLine behind) (text : Text) :
    (text ++ behind).masked = text.masked ++ maskFrom (after (.code .clear) text) behind := by
  refine maskFrom_append (seam_of_head? ?_ text)
  rcases h with rfl | h
  · exact ⟨nofun, nofun⟩
  · rw [h]
    decide

/-! ### Captured lines -/

/-- Whether a brace is opened in a text and none is left open. -/
def IsShut (text : Text) : Prop := '{' ∈ text ∧ braceBalance text ≤ 0

instance (text : Text) : Decidable (IsShut text) := inferInstanceAs (Decidable (_ ∧ _))

theorem braceBalance_append (text rest : Text) :
    braceBalance (text ++ rest) = braceBalance text + braceBalance rest := by
  rw [braceBalance, braceBalance, braceBalance, List.count_append, List.count_append]
  omega

/-- A line end decides nothing about braces. -/
theorem braceBalance_concat (text : Text) : braceBalance (text ++ ['\n']) = braceBalance text := by
  rw [braceBalance_append]
  exact Int.add_zero _

/-- Behind some text, what ends at the first line end at which the text is shut,
    or does not end at all. -/
structure ShutsFirst (front captured behind : Text) : Prop where
  ends : behind = [] ∨ behind.head? = some '\n' ∧ IsShut (front ++ captured)
  not_isShut : ∀ head tail, captured = head ++ '\n' :: tail → ¬IsShut (front ++ head)

/-- How many lines are captured behind some text. -/
def linesBehind (front : Text) (lines : List Text) : Nat :=
  captureLength (braceBalance front) (decide ('{' ∈ front)) lines

theorem linesBehind_cons (front line : Text) (lines : List Text) :
    linesBehind front (line :: lines) =
      if IsShut (front ++ line) then 1 else linesBehind (front ++ (line ++ ['\n'])) lines + 1 := by
  have hopened : (decide ('{' ∈ front) || decide ('{' ∈ line)) =
      decide ('{' ∈ front ++ (line ++ ['\n'])) := by simp
  have hbalance : braceBalance (front ++ (line ++ ['\n'])) =
      braceBalance front + braceBalance line := by
    rw [braceBalance_append, braceBalance_concat]
  have hshut : ((decide ('{' ∈ front) || decide ('{' ∈ line)) = true ∧
      braceBalance front + braceBalance line ≤ 0) ↔ IsShut (front ++ line) := by
    rw [IsShut, braceBalance_append, List.mem_append, ← Bool.decide_or, decide_eq_true_eq]
  rw [linesBehind, linesBehind, captureLength, hbalance, ← hopened, if_congr hshut rfl rfl]

/-- The lines that are captured end where they are shut first. -/
theorem exists_linesBehind {lines : List Text} (hlines : ∀ line ∈ lines, '\n' ∉ line)
    (front : Text) : ∃ behind, unlines lines =
      unlines (lines.take (linesBehind front lines)) ++ behind ∧
        ShutsFirst front (unlines (lines.take (linesBehind front lines))) behind := by
  induction lines generalizing front with
  | nil => exact ⟨[], rfl, .inl rfl, fun head tail h => absurd h (by simp [unlines])⟩
  | cons line lines ih =>
    have hline := hlines line List.mem_cons_self
    -- One line holds no line end.
    have hone : ∀ head tail, line = head ++ '\n' :: tail → ¬IsShut (front ++ head) :=
      fun head tail heq => absurd (heq ▸ by simp) hline
    rw [linesBehind_cons]
    split_ifs with hshut
    · rw [List.take_succ_cons, List.take_zero, unlines, unlines, List.intercalate_singleton]
      cases lines with
      | nil => exact ⟨[], by simp, .inl rfl, hone⟩
      | cons next lines =>
        exact ⟨'\n' :: unlines (next :: lines), unlines_cons line (List.cons_ne_nil _ _),
          .inr ⟨rfl, hshut⟩, hone⟩
    · rw [List.take_succ_cons]
      cases lines with
      | nil =>
        rw [List.take_nil, unlines, List.intercalate_singleton]
        exact ⟨[], by simp, .inl rfl, hone⟩
      | cons next lines =>
        obtain ⟨behind, htext, hends, hopen⟩ :=
          ih (fun other hother => hlines other (List.mem_cons_of_mem _ hother))
            (front ++ (line ++ ['\n']))
        have htake : (next :: lines).take
            (linesBehind (front ++ (line ++ ['\n'])) (next :: lines)) ≠ [] := by
          rw [linesBehind_cons]
          split_ifs <;> exact List.cons_ne_nil _ _
        rw [unlines_cons line htake, unlines_cons line (List.cons_ne_nil _ _), htext]
        refine ⟨behind, by simp, ?_, fun head tail heq => ?_⟩
        · simpa only [List.append_assoc, List.singleton_append] using hends
        · -- The line end is the one behind the line, or one of those that follow.
          rcases List.append_eq_append_iff.1 heq with
            ⟨_ | ⟨c, more⟩, rfl, hrest⟩ | ⟨more, rfl, hrest⟩
          · rwa [List.append_nil]
          · obtain ⟨rfl, htail⟩ := List.cons.inj hrest
            have hmore := hopen more tail htail
            rwa [List.append_assoc, List.append_assoc, List.singleton_append] at hmore
          · cases more with
            | nil => rwa [List.append_nil] at hshut
            | cons c more =>
              obtain ⟨rfl, -⟩ := List.cons.inj hrest
              exact absurd (by simp) hline

/-! ### Captured text -/

/-- The same lines of texts with their line feeds at the same places have one
    length. -/
theorem length_unlines_take {other : Text} (h : text.map blanked = other.map blanked)
    (count : Nat) : (unlines (text.lines.take count)).length =
      (unlines (other.lines.take count)).length := by
  have hblanked : (unlines (text.lines.take count)).map blanked =
      (unlines (other.lines.take count)).map blanked := by
    rw [unlines_map rfl, unlines_map rfl, List.map_take, List.map_take,
      ← lines_map fun _ => blanked_eq_feed_iff, ← lines_map fun _ => blanked_eq_feed_iff, h]
  simpa only [List.length_map] using congrArg List.length hblanked

/-- What is captured from a line on, if the line mentions the keyword. -/
theorem capture?_eq_some_iff {line : Int} {capture : Text × Nat} :
    capture? text line = some capture ↔ 0 ≤ line ∧
      (∃ content, text.lines[line.toNat]? = some content ∧
        content.holds Header.keyword = true) ∧ captureFrom text line.toNat = capture := by
  rw [capture?]
  split_ifs with hneg
  · exact iff_of_false nofun fun h => absurd h.1 (Int.not_le.2 hneg)
  · rw [and_iff_right (Int.not_lt.1 hneg)]
    split
    · next content hcontent =>
      split_ifs with hholds
      · rw [Option.some.injEq, hcontent]
        exact (and_iff_right ⟨content, rfl, hholds⟩).symm
      · rw [hcontent]
        exact iff_of_false nofun fun ⟨⟨_, heq, h⟩, _⟩ => hholds (Option.some.inj heq ▸ h)
    · next hnone =>
      rw [hnone]
      exact iff_of_false nofun fun ⟨⟨_, heq, _⟩, _⟩ => absurd heq nofun

/-- A line that is captured from starts in the text. -/
theorem exists_endsLine_of_capture? {line : Int} {capture : Text × Nat}
    (h : capture? text line = some capture) : 0 ≤ line ∧ ∃ before rest, text = before ++ rest ∧
      EndsLine before ∧ before.count '\n' = line.toNat ∧
        captureFrom text line.toNat = capture := by
  obtain ⟨hline, ⟨content, hcontent, -⟩, hcapture⟩ := capture?_eq_some_iff.1 h
  obtain ⟨hlt, -⟩ := List.getElem?_eq_some_iff.1 hcontent
  rw [length_lines] at hlt
  obtain ⟨before, rest, htext, hends, hcount⟩ := exists_endsLine (Nat.le_of_lt_succ hlt)
  exact ⟨hline, before, rest, htext, hends, hcount, hcapture⟩

/-- Of the lines from a place on, those are captured whose masks are shut first. -/
theorem exists_captureFrom_masked (rest : Text) (hends : EndsLine before) :
    ∃ captured behind part maskedBehind, rest = captured ++ behind ∧
      maskFrom (after (.code .clear) before) rest = part ++ maskedBehind ∧
      part.map blanked = captured.map blanked ∧ maskedBehind.map blanked = behind.map blanked ∧
      captureFrom (before ++ rest) (before.count '\n') = (captured, before.length) ∧
      ShutsFirst [] part maskedBehind := by
  have hblanked := map_blanked_maskFrom (after (.code .clear) before) rest
  have hmasked := hends.masked_eq rest
  generalize maskFrom (after (.code .clear) before) rest = masked at hblanked hmasked ⊢
  obtain ⟨maskedBehind, htext, hshuts⟩ :=
    exists_linesBehind (show ∀ line ∈ masked.lines, '\n' ∉ line from
      fun _ => not_mem_of_mem_lines) []
  obtain ⟨behind, hbehind⟩ := unlines_take_prefix rest.lines (linesBehind [] masked.lines)
  rw [unlines_lines] at htext hbehind
  -- Both are cut at the same place, so that line feeds stand at the same places of the parts.
  have hparts := hblanked
  rw [htext, ← hbehind, List.map_append, List.map_append] at hparts
  obtain ⟨hpart, hrest⟩ := List.append_inj hparts (by
    rw [List.length_map, List.length_map, length_unlines_take hblanked])
  refine ⟨_, behind, _, maskedBehind, hbehind.symm, htext, hpart, hrest, ?_, hshuts⟩
  rw [captureFrom, hmasked, hends.lines_append, hends.masked.lines_append,
    ← length_dropLast_lines, List.drop_left, List.take_left, lineStart, hends.flatMap_lines,
    length_dropLast_lines, ← count_masked, ← length_dropLast_lines, List.drop_left]
  rfl

/-- What is captured from a line on that starts in code, between the lines
    before it and what is left out. -/
structure Captures (line : Nat) (before captured behind : Text) : Prop where
  endsLine : EndsLine before
  count_eq : before.count '\n' = line
  after_eq : after (.code .clear) before = .code .clear
  followsLine : FollowsLine behind
  /-- By its own mask, it ends where it is shut first. -/
  shutsFirst : ShutsFirst [] captured.masked (maskFrom (after (.code .clear) captured) behind)

/-- Of the lines from a place in code on, those that are shut first are captured. -/
theorem exists_captureFrom (rest : Text) (hends : EndsLine before)
    (hafter : after (.code .clear) before = .code .clear) : ∃ captured behind,
      rest = captured ++ behind ∧
        captureFrom (before ++ rest) (before.count '\n') = (captured, before.length) ∧
        Captures (before.count '\n') before captured behind := by
  obtain ⟨captured, behind, part, maskedBehind, rfl, hmask, hpart, hbehind, hcapture, hshuts⟩ :=
    exists_captureFrom_masked rest hends
  have hfollows : FollowsLine behind :=
    FollowsLine.congr (hshuts.ends.imp_right And.left) hbehind
  have hlength := congrArg List.length hpart
  rw [List.length_map, List.length_map] at hlength
  rw [hafter, ← Text.masked, hfollows.masked_append] at hmask
  obtain ⟨rfl, rfl⟩ := List.append_inj hmask (by rw [length_masked, hlength])
  exact ⟨captured, behind, rfl, hcapture, hends, rfl, hafter, hfollows, hshuts⟩

/-- So it is where lines are captured from a line of a text on. -/
theorem exists_captures {line : Int} {capture : Text × Nat} (hcode : StartsInCode text line.toNat)
    (h : capture? text line = some capture) : ∃ before captured behind,
      text = before ++ (captured ++ behind) ∧ capture = (captured, before.length) ∧
        Captures line.toNat before captured behind := by
  obtain ⟨-, before, rest, rfl, hends, hcount, rfl⟩ := exists_endsLine_of_capture? h
  rw [StartsInCode, ← hcount, hends.startOfLine_eq, List.take_left] at hcode
  obtain ⟨captured, behind, rfl, hcapture, hcaptures⟩ :=
    exists_captureFrom rest hends (hends.after_eq hcode)
  exact ⟨before, captured, behind, rfl, hcount ▸ hcapture, hcount ▸ hcaptures⟩

/-! ### How far lines are captured -/

/-- Whether lines that are captured of a masked text, from a place on, reach up
    to another place: at no line end before it has a brace been opened and none
    is left open. -/
def CaptureReaches (masked : Text) (start place : Nat) : Prop :=
  ∀ feed < place, start ≤ feed → masked[feed]? = some '\n' → ¬IsShut ((masked.take feed).drop start)

instance (masked : Text) (start place : Nat) : Decidable (CaptureReaches masked start place) :=
  inferInstanceAs (Decidable (∀ feed < place, _ → _ → _))

/-- Every place up to the end of what is captured is reached. -/
theorem ShutsFirst.captureReaches {captured behind : Text} (h : ShutsFirst [] captured behind)
    (before : Text) {place : Nat} (hle : place ≤ captured.length) :
    CaptureReaches (before ++ (captured ++ behind)) before.length (before.length + place) := by
  intro feed hfeed hstart hline
  obtain ⟨distance, rfl⟩ := Nat.exists_eq_add_of_le hstart
  have hdistance : distance < captured.length := by omega
  rw [List.getElem?_append_right hstart, Nat.add_sub_cancel_left,
    List.getElem?_append_left hdistance] at hline
  rw [List.take_length_add_append, List.drop_left,
    List.take_append_of_le_length (Nat.le_of_lt hdistance)]
  refine h.not_isShut _ (captured.drop (distance + 1)) ?_
  obtain ⟨hlt, hget⟩ := List.getElem?_eq_some_iff.1 hline
  rw [← hget, ← List.drop_eq_getElem_cons hlt, List.take_append_drop]

/-- A place between line ends is reached if it is captured. -/
theorem ShutsFirst.captureReaches_iff {before captured behind : Text} {place : Nat} {c : Char}
    (h : ShutsFirst [] captured behind)
    (hplace : (before ++ (captured ++ behind))[before.length + place]? = some c) (hc : c ≠ '\n') :
    CaptureReaches (before ++ (captured ++ behind)) before.length (before.length + place) ↔
      place < captured.length := by
  rw [List.getElem?_append_right (Nat.le_add_right _ _), Nat.add_sub_cancel_left] at hplace
  refine ⟨fun hreaches => ?_, fun hlt => h.captureReaches before (Nat.le_of_lt hlt)⟩
  by_contra hlt
  -- Otherwise something is left out, behind lines that are shut.
  rw [List.getElem?_append_right (Nat.not_lt.1 hlt)] at hplace
  rcases h.ends with rfl | ⟨hhead, hshut⟩
  · exact absurd hplace nofun
  rw [List.head?_eq_getElem?] at hhead
  have hne : place - captured.length ≠ 0 := fun hzero => by
    rw [hzero, hhead] at hplace
    exact hc (Option.some.inj hplace).symm
  refine hreaches (before.length + captured.length) (by omega) (Nat.le_add_right _ _) ?_ ?_
  · rw [List.getElem?_append_right (Nat.le_add_right _ _), Nat.add_sub_cancel_left,
      List.getElem?_append_right (Nat.le_refl _), Nat.sub_self, hhead]
  · rwa [List.take_length_add_append, List.drop_left, List.take_left]

namespace Captures

variable {line : Nat} {captured behind : Text} (h : Captures line before captured behind)

include h

theorem startOfLine_eq :
    startOfLine (before ++ (captured ++ behind)) line = before.masked.length := by
  rw [← h.count_eq, h.endsLine.startOfLine_eq, length_masked]

theorem masked_eq : (before ++ (captured ++ behind)).masked =
    before.masked ++ (captured ++ behind).masked :=
  h.endsLine.masked_append h.after_eq

/-- A place between line ends is reached if it is captured. -/
theorem captureReaches_iff {place : Nat} {c : Char} (hc : c ≠ '\n')
    (hplace : (before.masked ++ (captured ++ behind).masked)[before.masked.length + place]? =
      some c) :
    CaptureReaches (before.masked ++ (captured ++ behind).masked) before.masked.length
      (before.masked.length + place) ↔ place < captured.length := by
  rw [h.followsLine.masked_append] at hplace ⊢
  rw [h.shutsFirst.captureReaches_iff hplace hc, length_masked]

end Captures

end EnumCompanion
