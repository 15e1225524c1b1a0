import EnumCompanion.Proofs.Document.Line
import Mathlib

/-!
# Where failures point

Reading fails at the first header of what is read: the reason tells the name of the
enum, and the offset is the place of the keyword. What is read from a line on is
read as a text of its own, so that places in it are counted from the start of the
line. In the document the keyword stands as much further on.

* `Failure.IsAt`, `Failure.PointsInto`: a failure at a header, and at the first one
  from a place on;
* `pointsInto_of_parse`: reading a text fails at its first header;
* `exists_capture`: what is captured from a line on, between what stands around it;
* `failure_pointsInto`: where reading fails, of a text and from a line on.
-/

namespace EnumCompanion

open Text Mask

/-! ### Failures at headers -/

namespace Failure

variable {failure : Failure} {header : Header} {masked part before : Text}

/-- A failure is at a header: its reason starts with the name of the enum, and its
    offset is the place of the keyword. -/
structure IsAt (failure : Failure) (header : Header) : Prop where
  reason : "Enum ".toList ++ (header.name ++ [' ']) <+: failure.reason.toList
  offset : failure.offset? = some header.start

/-- A failure points into a masked text: it has no offset if it is that there is no
    keyword, and is at the first header from a position on if it is any other. -/
structure PointsInto (failure : Failure) (masked : Text) (position : Nat) : Prop where
  offset_eq_none : failure.kind = "NoEnumKeyword" → failure.offset? = none
  exists_isAt : failure.kind ≠ "NoEnumKeyword" →
    ∃ header, firstHeader? masked position = some header ∧ failure.IsAt header

/-- A failure with its offset moved by a distance. -/
def moved (distance : Nat) : Failure → Failure
  | unclosed name start => unclosed name (distance + start)
  | noValues name start => noValues name (distance + start)
  | invalidValue name value start => invalidValue name value (distance + start)
  | repeatedValues name values start => repeatedValues name values (distance + start)
  | failure => failure

/-- A failure with an offset tells a name, too. -/
def name? : Failure → Option Text
  | unclosed name _ | noValues name _ | invalidValue name _ _ | repeatedValues name _ _ => some name
  | noHeader | lineWithoutKeyword _ => none

theorem prefix_reason {name : Text} (h : failure.name? = some name) :
    "Enum ".toList ++ (name ++ [' ']) <+: failure.reason.toList := by
  cases failure <;> simp_all [name?, reason, str, toString]

theorem kind_eq_iff : failure.kind = "NoEnumKeyword" ↔ failure.offset? = none := by
  cases failure <;> simp [kind, offset?]

theorem kind_moved (failure : Failure) (distance : Nat) :
    (failure.moved distance).kind = failure.kind := by
  cases failure <;> rfl

theorem reason_moved (failure : Failure) (distance : Nat) :
    (failure.moved distance).reason = failure.reason := by
  cases failure <;> rfl

theorem offset?_moved (failure : Failure) (distance : Nat) :
    (failure.moved distance).offset? = failure.offset?.map (distance + ·) := by
  cases failure <;> rfl

theorem pointsInto_of_offset_eq_none (h : failure.offset? = none) (masked : Text) (position : Nat) :
    failure.PointsInto masked position :=
  ⟨fun _ => h, fun hkind => absurd (kind_eq_iff.2 h) hkind⟩

theorem IsAt.pointsInto {position : Nat} (h : failure.IsAt header)
    (hfirst : firstHeader? masked position = some header) : failure.PointsInto masked position := by
  refine ⟨fun hkind => ?_, fun _ => ⟨header, hfirst, h⟩⟩
  rw [kind_eq_iff, h.offset] at hkind
  exact absurd hkind (Option.some_ne_none _)

theorem IsAt.moved (h : failure.IsAt header) (distance : Nat) :
    (failure.moved distance).IsAt (header.moved distance) := by
  refine ⟨?_, ?_⟩
  · rw [reason_moved]
    exact h.reason
  · rw [offset?_moved, h.offset]
    rfl

/-- With more text behind it, a text has the same first header if that is in it. -/
theorem PointsInto.append (h : failure.PointsInto part 0) (behind : Text) :
    failure.PointsInto (part ++ behind) 0 := by
  refine ⟨h.offset_eq_none, fun hkind => ?_⟩
  obtain ⟨header, hfirst, hat⟩ := h.exists_isAt hkind
  rw [firstHeader?_of_append part behind, Option.filter_eq_some_iff] at hfirst
  exact ⟨header, hfirst.1, hat⟩

/-- Behind another text, the first header is moved, and the failure with it. -/
theorem PointsInto.moved_behind (hbefore : before.getLast?.any isWordChar = false)
    (h : failure.PointsInto part 0) :
    (failure.moved before.length).PointsInto (before ++ part) before.length := by
  refine ⟨fun hkind => ?_, fun hkind => ?_⟩
  · rw [kind_moved] at hkind
    rw [offset?_moved, h.offset_eq_none hkind]
    rfl
  · rw [kind_moved] at hkind
    obtain ⟨header, hfirst, hat⟩ := h.exists_isAt hkind
    refine ⟨header.moved before.length, ?_, hat.moved _⟩
    rw [firstHeader?_append hbefore, hfirst]
    rfl

end Failure

variable {text captured behind : Text} {allowRepeats : Bool} {failure : Failure} {line : Int}
  {start : Nat}

/-- Reading behind a header fails at this header. -/
theorem isAt_of_readDeclaration {masked : Text} {header : Header}
    (h : readDeclaration text masked allowRepeats header = .error failure) :
    failure.IsAt header := by
  cases hclose : closingBrace? masked header.brace with
  | none =>
    unfold readDeclaration at h
    rw [hclose] at h
    obtain rfl := Except.error.inj h
    exact ⟨Failure.prefix_reason rfl, rfl⟩
  | some close =>
    rw [readDeclaration_eq_error_iff hclose, Header.fault?] at h
    split at h
    · obtain rfl := Option.some.inj h
      exact ⟨Failure.prefix_reason rfl, rfl⟩
    · split at h
      · obtain rfl := Option.some.inj h
        exact ⟨Failure.prefix_reason rfl, rfl⟩
      · obtain ⟨-, h⟩ := Option.ite_none_right_eq_some.1 h
        obtain rfl := Option.some.inj h
        exact ⟨Failure.prefix_reason rfl, rfl⟩

/-- Reading a text fails at its first header. -/
theorem pointsInto_of_parse (h : parse text allowRepeats = .error failure) :
    failure.PointsInto text.masked 0 := by
  rw [parse] at h
  cases hfirst : firstHeader? text.masked 0 with
  | none =>
    rw [hfirst] at h
    obtain rfl := Except.error.inj h
    exact Failure.pointsInto_of_offset_eq_none rfl _ _
  | some header =>
    rw [hfirst] at h
    exact (isAt_of_readDeclaration h).pointsInto hfirst

/-! ### Failures from a line on -/

/-- What is captured from a line on starts there and ends before a line end or with
    the text. -/
theorem exists_capture (h : capture? text line = some (captured, start)) :
    ∃ before behind, text = before ++ (captured ++ behind) ∧ before.length = start ∧
      EndsLine before ∧ (before.count '\n' : Int) = line ∧ FollowsLine behind := by
  obtain ⟨hline, before, rest, rfl, hends, hcount, hcapture⟩ := exists_endsLine_of_capture? h
  obtain ⟨captured, behind, part, maskedBehind, rfl, -, -, hbehind, hfrom, hshuts⟩ :=
    exists_captureFrom_masked rest hends
  rw [← hcount, hfrom] at hcapture
  obtain ⟨rfl, rfl⟩ := Prod.mk.inj hcapture
  have hfollows : FollowsLine behind :=
    FollowsLine.congr (hshuts.ends.imp_right And.left) hbehind
  exact ⟨before, behind, rfl, rfl, hends, by omega, hfollows⟩

/-- Reading captured lines fails at the first header of the text from there on. -/
theorem pointsInto_of_readCapture (hdrop : text.drop start = captured ++ behind)
    (hbehind : FollowsLine behind)
    (h : (readCapture text line captured start allowRepeats).value = .error failure) :
    failure.PointsInto (captured ++ behind).masked 0 := by
  rw [value_readCapture] at h
  cases hparse : parse captured allowRepeats with
  | ok e =>
    rw [hparse] at h
    cases h
  | error other =>
    rw [hparse] at h
    dsimp only at h
    split_ifs at h
    · exact hdrop ▸ pointsInto_of_parse h
    · obtain rfl := Except.error.inj h
      rw [hbehind.masked_append]
      exact (pointsInto_of_parse hparse).append _

/-- What is at a header of the mask of a text stands at a keyword of the text. -/
theorem Failure.PointsInto.prefix_drop {offset : Nat} (h : failure.PointsInto text.masked 0)
    (hoffset : failure.offset? = some offset) : Header.keyword <+: text.drop offset := by
  have hkind : failure.kind ≠ "NoEnumKeyword" := fun hkind => by
    rw [Failure.kind_eq_iff, hoffset] at hkind
    exact absurd hkind (Option.some_ne_none _)
  obtain ⟨header, hfirst, hat⟩ := h.exists_isAt hkind
  obtain rfl : header.start = offset := Option.some.inj (hat.offset.symm.trans hoffset)
  have hkeyword := Header.StandsIn.keyword_prefix (firstHeader?_eq_some_iff.1 hfirst).1
  rw [masked, drop_maskFrom] at hkeyword
  exact prefix_of_prefix_maskFrom (forall_mem_of_all (by decide)) hkeyword

/-- Reading a text fails at its first header. Reading from a line on fails at the
    first header of what follows: in the text it stands further on by the start of
    the line, so that the offset is its place in the text on the first line only.
    Where the line starts in code, it is the first header of the text from there. -/
theorem failure_pointsInto (text : Text) (allowRepeats : Bool) (failure : Failure) :
    (parse text allowRepeats = .error failure → failure.PointsInto text.masked 0) ∧
      ∀ line : Int, (enumAtLine text line allowRepeats).value = .error failure →
        failure.PointsInto (masked (text.drop (startOfLine text line.toNat))) 0 ∧
        (StartsInCode text line.toNat →
          (failure.moved (startOfLine text line.toNat)).PointsInto text.masked
            (startOfLine text line.toNat)) ∧
        ∀ offset, failure.offset? = some offset →
          Header.keyword <+: text.drop (startOfLine text line.toNat + offset) ∧
            (startOfLine text line.toNat + offset = offset ↔ line = 0) := by
  refine ⟨pointsInto_of_parse, fun line h => ?_⟩
  cases hcapture : capture? text line with
  | none =>
    rw [enumAtLine, hcapture] at h
    obtain rfl := Except.error.inj h
    exact ⟨Failure.pointsInto_of_offset_eq_none rfl _ _,
      fun _ => Failure.pointsInto_of_offset_eq_none rfl _ _,
      fun _ hoffset => absurd hoffset.symm (Option.some_ne_none _)⟩
  | some capture =>
    obtain ⟨captured, start⟩ := capture
    rw [value_enumAtLine hcapture] at h
    obtain ⟨before, behind, rfl, rfl, hends, hcount, hbehind⟩ := exists_capture hcapture
    have hstart : startOfLine (before ++ (captured ++ behind)) line.toNat = before.length := by
      rw [← hcount, Int.toNat_natCast, hends.startOfLine_eq]
    have hread : (readCapture (before ++ (captured ++ behind)) line captured before.length
        allowRepeats).value = .error failure := by
      cases hread : (readCapture (before ++ (captured ++ behind)) line captured before.length
        allowRepeats).value with
      | ok e => rw [hread] at h; cases h
      | error other => rw [hread] at h; exact congrArg _ (Except.error.inj h)
    have hpoints := pointsInto_of_readCapture List.drop_left hbehind hread
    rw [hstart, List.drop_left]
    refine ⟨hpoints, fun hcode => ?_, fun offset hoffset => ⟨?_, ?_⟩⟩
    · rw [StartsInCode, hstart, List.take_left] at hcode
      have hword : before.masked.getLast?.any isWordChar = false := by
        rcases hends.masked with hnil | hlast
        · rw [hnil]
          rfl
        · rw [hlast]
          rfl
      rw [hends.masked_append (hends.after_eq hcode), ← length_masked before]
      exact hpoints.moved_behind hword
    · rw [List.drop_length_add_append]
      exact hpoints.prefix_drop hoffset
    · have hlength : before.length = 0 ↔ before.count '\n' = 0 := by
        rcases hends with rfl | hlast
        · simp
        · have hmem : '\n' ∈ before := List.mem_of_getLast? hlast
          have := List.count_pos_iff.2 hmem
          have := List.length_pos_of_mem hmem
          omega
      omega

/-- An enum without values on the line behind a class. -/
def emptyBelow : Text := "class C \x7b\x7d\nenum Shade \x7b\x7d\n".toList

theorem failure_pointsInto_emptyBelow : ∃ failure,
    (enumAtLine emptyBelow 1 false).value = .error failure ∧ failure.offset? = some 0 ∧
      StartsInCode emptyBelow 1 ∧ (failure.moved 11).PointsInto emptyBelow.masked 11 := by
  have hread : (enumAtLine emptyBelow 1 false).value = .error (.noValues "Shade".toList 0) := by
    cbv
  have hcode : StartsInCode emptyBelow 1 := by decide +kernel
  obtain ⟨-, hpoints, -⟩ := (failure_pointsInto emptyBelow false _).2 1 hread
  exact ⟨_, hread, rfl, hcode, hpoints hcode⟩

/-- What the failure gives as the place of the keyword is that of the class. -/
theorem offset_misses_emptyBelow : ∃ failure,
    (enumAtLine emptyBelow 1 false).value = .error failure ∧ failure.kind = "NoValues" ∧
      failure.offset? = some 0 ∧ ∀ header ∈ headers emptyBelow.masked, header.start = 11 := by
  refine ⟨.noValues "Shade".toList 0, by cbv, rfl, rfl, ?_⟩
  decide +kernel

end EnumCompanion
