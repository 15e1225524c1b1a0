import EnumCompanion.Proofs.Document.Reach

/-!
# Documents cut at lines

Where a document is cut at the ends of its lines, its parts have by themselves the
masks that they have in it. What comes before a line end is masked as it is
whatever follows, also where a comment or a literal goes on behind it. What
starts a line is masked as it is whatever comes before, provided that no comment
and no literal goes on there.

* `IsReached`: where neither a comment nor a literal goes on;
* `Text.EndsLine.resume?_modeAt`: there a line starts as a document does;
* `masked_take_drop`: the masks of the parts.
-/

namespace EnumCompanion

open Text Mask

/-- Whether a document is read as code from a place on: its character there is
    read as code, or none stands there. -/
def IsReached (text : Text) (place : Nat) : Prop :=
  ∀ c ∈ text[place]?, ((modeAt (.code .clear) text place).resume? c).isSome = true

instance (text : Text) (place : Nat) : Decidable (IsReached text place) :=
  decidable_of_iff ((text[place]?.all fun c =>
    ((modeAt (.code .clear) text place).resume? c).isSome) = true) (Option.all_eq_true _ _)

/-- A line that is read as code starts behind no word. -/
theorem Text.EndsLine.resume?_modeAt {before rest : Text} {c : Char} (h : EndsLine before)
    (hreached : IsReached (before ++ c :: rest) before.length) :
    (after (.code .clear) before).resume? c = some .clear := by
  have hseam : Seam before (c :: rest) := by
    refine seam_of_getLast? ?_ _
    rcases h with rfl | hlast
    · exact nofun
    · rw [hlast]
      decide
  have hfresh : (after (.code .clear) before).IsFresh := by
    cases hcode : (after (.code .clear) before).isCode with
    | true =>
      rw [h.after_eq hcode]
      exact Mode.isFresh_code
    | false => exact Mode.isFresh_of_not_isCode hcode
  obtain ⟨trail, hresume⟩ := Option.isSome_iff_exists.1 (hreached c (by simp))
  rw [modeAt_append hseam] at hresume
  rw [hresume, hfresh c trail hresume]

/-- What comes before a line end has the mask that it has in the text. -/
theorem Text.FollowsLine.masked_take {text : Text} {stop : Nat}
    (h : FollowsLine (text.drop stop)) : Text.masked (text.take stop) = text.masked.take stop := by
  have hmasked := h.masked_append (text.take stop)
  rw [List.take_append_drop] at hmasked
  calc Text.masked (text.take stop)
      = text.masked.take (Text.masked (text.take stop)).length :=
        List.prefix_iff_eq_take.1 ⟨_, hmasked.symm⟩
    _ = text.masked.take (min stop text.masked.length) := by
        rw [length_masked, length_masked, List.length_take]
    _ = text.masked.take stop := List.take_eq_take_min.symm

/-- What starts a line that is read as code has the mask that it has in the text. -/
theorem Text.EndsLine.masked_drop {text : Text} {start : Nat} (h : EndsLine (text.take start))
    (hreached : IsReached text start) :
    Text.masked (text.drop start) = text.masked.drop start := by
  rcases Nat.lt_or_ge start text.length with hlt | hge
  · obtain ⟨before, rest, rfl, rfl⟩ := exists_append_of_le hlt.le
    cases rest with
    | nil => exact absurd hlt (by simp)
    | cons c rest =>
      rw [List.take_left] at h
      rw [h.masked_eq, List.drop_left, List.drop_left' (length_masked before),
        maskFrom_of_resume? (h.resume?_modeAt hreached), ← Text.masked]
  · rw [List.drop_eq_nil_of_le hge, List.drop_eq_nil_of_le (by rwa [length_masked])]
    rfl

/-- Masking commutes with cutting at lines: what comes before a line end, or is all
    of the text, has the mask that it has in the text, and so has what follows
    from the start of a line on that is reached outside of comments and
    literals. -/
theorem masked_take_drop (text : Text) :
    (∀ stop, FollowsLine (text.drop stop) → masked (text.take stop) = text.masked.take stop) ∧
      ∀ start, EndsLine (text.take start) → IsReached text start →
        masked (text.drop start) = text.masked.drop start :=
  ⟨fun _ hfollows => hfollows.masked_take, fun _ hends hreached => hends.masked_drop hreached⟩

/-- A comment, a raw literal between triple delimiters and a literal behind a
    backslash, each open at the end of a line. -/
def openAtLineEnds : Text := "/*\x7b\n*/ r'''\x7d\\\n''' 'a\\\n\n\x7b b".toList

theorem masked_take_drop_openAtLineEnds :
    (FollowsLine (openAtLineEnds.drop 3) ∧ FollowsLine (openAtLineEnds.drop 13) ∧
      FollowsLine (openAtLineEnds.drop 21) ∧ EndsLine (openAtLineEnds.take 22) ∧
      IsReached openAtLineEnds 22) ∧
    masked (openAtLineEnds.take 3) = openAtLineEnds.masked.take 3 ∧
      masked (openAtLineEnds.take 13) = openAtLineEnds.masked.take 13 ∧
      masked (openAtLineEnds.take 21) = openAtLineEnds.masked.take 21 ∧
      masked (openAtLineEnds.drop 22) = openAtLineEnds.masked.drop 22 := by
  obtain ⟨hends, hstarts⟩ := masked_take_drop openAtLineEnds
  have hcomment : FollowsLine (openAtLineEnds.drop 3) := .inr rfl
  have htriple : FollowsLine (openAtLineEnds.drop 13) := .inr rfl
  have hescaped : FollowsLine (openAtLineEnds.drop 21) := .inr rfl
  -- The second line feed is not escaped, and the literal ends at it.
  have hstart : EndsLine (openAtLineEnds.take 22) := .inr rfl
  have hreached : IsReached openAtLineEnds 22 := by decide +kernel
  exact ⟨⟨hcomment, htriple, hescaped, hstart, hreached⟩, hends 3 hcomment, hends 13 htriple,
    hends 21 hescaped, hstarts 22 hstart hreached⟩

end EnumCompanion
