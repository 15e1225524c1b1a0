import EnumCompanion.Declaration.Parse
import EnumCompanion.Proofs.Declaration.Entries
import EnumCompanion.Proofs.Declaration.Header

/-!
# Reading what was written

A declaration that follows the grammar is read as the enumeration it writes,
from its keyword to its closing brace, whatever its masked text stands for and
whatever follows it.

* `readDeclaration_eq_ok`: what is read behind a header with a proper body;
* `exists_parse_eq_ok`: the first declaration of a text is read so.
-/

namespace EnumCompanion

open Text

/-- A body is what stands between its braces. -/
theorem drop_take_body (before body rest : Text) :
    ((before ++ '{' :: (body ++ '}' :: rest)).take (before.length + (body.length + 1))).drop
      (before.length + 1) = body := by
  rw [List.take_length_add_append, List.take_succ_cons, List.take_left, ← List.drop_drop,
    List.drop_left, List.drop_one, List.tail_cons]

/-- Behind a header with a proper body the enumeration is read that it writes. -/
theorem readDeclaration_eq_ok {text before body rest : Text} {names : List Text}
    (hmasked : text.masked = before ++ '{' :: (body ++ '}' :: rest)) (hbody : Body names body)
    {allowRepeats : Bool} (hdistinct : allowRepeats = true ∨ names.Nodup) {header : Header}
    (hbrace : header.brace = before.length) :
    ∃ e, readDeclaration text text.masked allowRepeats header = .ok e ∧ e.name = header.name ∧
      e.values = names ∧
      e.span = some (.ofOffsets text header.start (before.length + (body.length + 1) + 1 : Nat)) := by
  have hclose : closingBrace? text.masked header.brace =
      some (before.length + (body.length + 1)) := by
    rw [hmasked, hbrace]
    exact closingBrace?_eq_some_iff.2 ⟨body, rest, rfl, hbody.balanced, rfl⟩
  have hvalues : valueTokens ((text.masked.take (before.length + (body.length + 1))).drop
      (header.brace + 1)) = names := by
    rw [hmasked, hbrace, drop_take_body, hbody.valueTokens]
  have hvalid : names.find? (!isValueName ·) = none := by
    simpa using hbody.isValueName
  have hrepeats : (!allowRepeats && !decide names.Nodup) = false := by
    rcases hdistinct with h | h <;> simp [h]
  rw [readDeclaration, hclose]
  simp only [hvalues, dif_neg hbody.ne_nil]
  split
  · next hbad =>
      rw [hvalues, hvalid] at hbad
      cases hbad
  · simp only [hrepeats, Bool.false_eq_true, if_false]
    exact ⟨_, rfl, rfl, rfl, rfl⟩

/-- The first declaration of a text is read as the enumeration it writes, from
    its keyword to its closing brace. -/
theorem exists_parse_eq_ok {text pre gap name clause body post : Text} {names : List Text}
    {allowRepeats : Bool}
    (hmasked : text.masked =
      pre ++ Header.keyword ++ gap ++ name ++ clause ++ '{' :: body ++ '}' :: post)
    (hpre : Header.LacksKeyword none pre) (hlast : pre.getLast?.any isWordChar = false)
    (hgap : gap ≠ []) (hblank : ∀ c ∈ gap, isBlank c = true) (hname : isTypeName name = true)
    (hclause : Header.IsClause clause) (hbody : Body names body)
    (hdistinct : allowRepeats = true ∨ names.Nodup) :
    ∃ e, parse text allowRepeats = .ok e ∧ e.name = name ∧ e.values = names ∧
      e.span = some (.ofOffsets text pre.length (text.length - post.length : Nat)) := by
  let before := pre ++ Header.keyword ++ gap ++ name ++ clause
  let written := Header.keyword ++ (gap ++ (name ++ (clause ++ '{' :: (body ++ '}' :: post))))
  have hbefore : text.masked = before ++ '{' :: (body ++ '}' :: post) := by
    rw [hmasked]
    simp only [before, List.append_assoc, List.cons_append]
  have hwritten : text.masked = pre ++ written := by
    rw [hbefore]
    simp only [before, written, List.append_assoc]
  let header : Header :=
    { name, start := pre.length, brace := before.length, isTypeName_name := hname }
  have hheads : Header.Heads (pre.getLast?.or none) written gap name clause (body ++ '}' :: post) :=
    ⟨rfl, by simpa using hlast, hgap, hblank, hname, hclause⟩
  have hheader : Header.headerAt? (pre.getLast?.or none) (0 + pre.length) written = some header := by
    refine Header.headerAt?_eq_some_iff.2 ⟨gap, clause, _, hheads, (Nat.zero_add _).symm, ?_⟩
    simp only [header, before, written, List.length_append, List.length_cons]
    omega
  -- Nothing before the keyword is a header, so that this one is the first.
  have hfirst : firstHeader? text.masked 0 = some header := by
    have hne : written ≠ [] := List.append_ne_nil_of_left_ne_nil (List.cons_ne_nil _ _) _
    obtain ⟨c, rest, hcons⟩ := List.exists_cons_of_ne_nil hne
    rw [firstHeader?, headers, hwritten, Header.headersFrom_append hpre hlast, hcons,
      Header.headersFrom, ← hcons, hheader]
    simp
  have hbrace : header.brace = before.length := rfl
  obtain ⟨e, he, hename, hevalues, hespan⟩ := readDeclaration_eq_ok hbefore hbody hdistinct hbrace
  refine ⟨e, ?_, hename, hevalues, ?_⟩
  · simp only [parse, hfirst, he]
  · have hlength : text.length = before.length + (body.length + 1) + 1 + post.length := by
      rw [← Text.length_masked, hbefore]
      simp only [List.length_append, List.length_cons]
      omega
    rw [hespan, hlength, Nat.add_sub_cancel]

/-- An enum with type parameters, a constructor and members, behind a comment that
    mentions an enum and before another. -/
def shadeSource : Text :=
  ("// enum X\nenum Shade<T> \x7b dark<int>.of(1 < 2), light; get v => \x7b\x7d; \x7d " ++
    "enum Y \x7by\x7d").toList

theorem exists_parse_shadeSource : ∃ e, parse shadeSource false = .ok e ∧
    e.name = "Shade".toList ∧ e.values = ["dark".toList, "light".toList] ∧
      e.span = some (.ofOffsets shadeSource 10 68) := by
  have hdark : Entry "dark".toList " dark<int>.of(1 < 2)".toList :=
    @Entry.intro _ [' '] "<int>".toList ".of".toList "(1 < 2)".toList [] (by decide)
      (forall_mem_of_all (by decide))
      (.inr ⟨[], _, nofun, ⟨"int".toList, .char (by decide) (by decide) (.char (by decide)
        (by decide) (.char (by decide) (by decide) .nil)), rfl⟩, rfl⟩)
      (.inr ⟨[], _, nofun, ⟨[], "of".toList, nofun, by decide, rfl⟩, rfl⟩)
      (.inr ⟨[], _, nofun, ⟨"1 < 2".toList, .char (by decide) (.char (by decide)
        (.char (by decide) (.char (by decide) (.char (by decide) .nil)))), rfl⟩, rfl⟩) nofun
  have hlight : Entry "light".toList " light".toList :=
    @Entry.intro _ [' '] [] [] [] [] (by decide) (forall_mem_of_all (by decide)) (.inl rfl)
      (.inl rfl) (.inl rfl) nofun
  exact @exists_parse_eq_ok shadeSource "         \n".toList [' '] "Shade".toList "<T> ".toList
    " dark<int>.of(1 < 2), light; get v => \x7b\x7d; ".toList " enum Y \x7by\x7d".toList _ false
    (by decide) (by decide) (by decide) (by decide) (forall_mem_of_all (by decide)) (by decide)
    (by decide) (.members (.cons hdark (.last hlight)) (by decide)) (.inr (by decide))

end EnumCompanion
