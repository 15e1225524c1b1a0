import EnumCompanion.Code.Generator
import EnumCompanion.Declaration.Header
import EnumCompanion.Document.Block
import EnumCompanion.Proofs.Declaration.Brackets
import EnumCompanion.Proofs.Mask
import EnumCompanion.Proofs.Text.Quiet

/-!
# Tame code

Code is *tame* when it is read as code from its start to its end, and when its
mask mentions neither an enum nor a block. Tame pieces stay so when they are put
together, and the brackets that they open and close add up. All members that the
built-in templates write are tame, whatever the names of the values.

* `Tame`, `Tame.append`: tame code with the brackets that it opens and closes;
* `Tame.nested`: tame code that closes what it opens is properly nested;
* `Template.isTame`: a check for templates;
* `Template.tame_write`: what a template writes that passes it.
-/

namespace EnumCompanion

open Text Mask

/-- The words that introduce enums and blocks. -/
def mentionWords : List Text := Header.keyword :: Block.keywords

/-- Code that starts and ends as such, that mentions nothing, and that takes the
    closers of the open brackets from some to others. -/
structure Tame (awaited awaited' : Text) (text : Text) : Prop where
  after : after (.code .clear) text = .code .clear
  seam : text.getLast? ≠ some '/'
  quiet : Quiet mentionWords (maskFrom (.code .clear) text)
  brackets : openBrackets awaited (maskFrom (.code .clear) text) = some awaited'

namespace Tame

variable {awaited awaited' awaited'' text rest : Text}

theorem nil (awaited : Text) : Tame awaited awaited [] := ⟨rfl, nofun, quiet_nil, rfl⟩

/-- The mask of tame code, where something follows it. -/
theorem maskFrom_append (h : Tame awaited awaited' text) (rest : Text) :
    maskFrom (.code .clear) (text ++ rest) =
      maskFrom (.code .clear) text ++ maskFrom (.code .clear) rest := by
  rw [Mask.maskFrom_append (seam_of_getLast? h.seam rest), h.after]

/-- Tame code that closes the brackets it opens is properly nested. -/
theorem nested (h : Tame [] [] text) : Nested (maskFrom (.code .clear) text) :=
  nested_of_openBrackets h.brackets

theorem append (h : Tame awaited awaited' text) (hrest : Tame awaited' awaited'' rest) :
    Tame awaited awaited'' (text ++ rest) := by
  have hmask := h.maskFrom_append rest
  refine ⟨?_, ?_, ?_, ?_⟩
  · rw [after_append (seam_of_getLast? h.seam rest), h.after, hrest.after]
  · rw [List.getLast?_append]
    cases hlast : rest.getLast? with
    | none => exact h.seam
    | some c =>
      rw [Option.some_or, ← hlast]
      exact hrest.seam
  · rw [hmask]
    exact h.quiet.append hrest.quiet
  · rw [hmask, openBrackets_append, h.brackets]
    exact hrest.brackets

theorem flatMap {α : Type} {items : List α} {write : α → Text}
    (h : ∀ item ∈ items, Tame awaited awaited (write item)) :
    Tame awaited awaited (items.flatMap write) := by
  induction items with
  | nil => exact nil awaited
  | cons item items ih =>
    rw [List.flatMap_cons]
    exact (h item List.mem_cons_self).append
      (ih fun other hother => h other (List.mem_cons_of_mem _ hother))

/-- Behind plain code that does not end with an alphanumeric character the trail
    is clear. -/
theorem after_eq_clear (hplain : ∀ c ∈ text, IsPlain c)
    (hlast : text.getLast?.any (!isAlnum ·) = true) :
    Mask.after (.code .clear) text = .code .clear := by
  rcases List.eq_nil_or_concat' text with rfl | ⟨before, c, rfl⟩
  · rfl
  · rw [List.getLast?_concat] at hlast
    rw [after_of_plain hplain, foldl_next_append (by simpa using hlast)]

/-- Code without quotes and slashes is its own mask. -/
theorem of_plain (hplain : ∀ c ∈ text, IsPlain c) (hlast : text.getLast?.any (!isAlnum ·) = true)
    (hquiet : Quiet mentionWords text) (hbrackets : openBrackets awaited text = some awaited') :
    Tame awaited awaited' text := by
  have hmask := maskFrom_of_plain hplain .clear
  refine ⟨after_eq_clear hplain hlast, fun hslash => ?_, by rwa [hmask], by rwa [hmask]⟩
  exact (hplain '/' (List.mem_of_getLast? hslash)).1 rfl

end Tame

/-! ### Fixed texts and names -/

/-- Whether a fixed text is tame, where `previous` is the character before it. -/
def isTameText (previous : Option Char) (text : Text) : Bool :=
  text.all (fun c => decide (IsPlain c)) && text.getLast?.any (!isAlnum ·) &&
    isQuiet mentionWords previous text

variable {awaited awaited' text name : Text}

theorem tame_of_isTameText (h : isTameText none text = true)
    (hbrackets : openBrackets awaited text = some awaited') : Tame awaited awaited' text := by
  simp only [isTameText, Bool.and_eq_true, List.all_eq_true, decide_eq_true_eq] at h
  exact .of_plain h.1.1 h.1.2 (quiet_of_isQuiet h.2) hbrackets

theorem isPlain_of_isNameChar {c : Char} (h : isNameChar c = true) : IsPlain c := by
  refine ⟨?_, ?_, ?_⟩ <;> rintro rfl <;> exact absurd h (by decide)

theorem isPlain_of_isNameFragment (hname : isNameFragment name = true) :
    ∀ c ∈ name, IsPlain c := by
  intro c hc
  rcases isNameFragment_iff.1 hname c hc with hletter | rfl
  · exact isPlain_of_isNameChar hletter
  · exact ⟨by decide, by decide, by decide⟩

/-- Text without brackets leaves the open brackets as they are. -/
theorem openBrackets_of_notMem (h : ∀ c ∈ text, ∀ pair ∈ bracketPairs, c ≠ pair.1 ∧ c ≠ pair.2)
    (awaited : Text) : openBrackets awaited text = some awaited := by
  induction text with
  | nil => rfl
  | cons c text ih =>
    obtain ⟨hc, htext⟩ := List.forall_mem_cons.1 h
    have hnone : (bracketPairs.find? fun pair => pair.1 == c) = none :=
      List.find?_eq_none.2 fun pair hpair => by simpa using (hc pair hpair).1.symm
    rw [openBrackets, hnone]
    dsimp only
    rw [if_pos fun pair hpair => (hc pair hpair).2, ih htext]

theorem openBrackets_of_isNameFragment (hname : isNameFragment name = true) (awaited : Text) :
    openBrackets awaited name = some awaited := by
  have hbrackets : ∀ pair ∈ bracketPairs, (isNameChar pair.1 = false ∧ '$' ≠ pair.1) ∧
      isNameChar pair.2 = false ∧ '$' ≠ pair.2 := by decide
  refine openBrackets_of_notMem (fun c hc pair hpair => ?_) awaited
  obtain ⟨⟨hopen, hopen'⟩, hclose, hclose'⟩ := hbrackets pair hpair
  rcases isNameFragment_iff.1 hname c hc with hletter | rfl
  · constructor <;> rintro rfl
    · exact Bool.noConfusion (hletter.symm.trans hopen)
    · exact Bool.noConfusion (hletter.symm.trans hclose)
  · exact ⟨hopen', hclose'⟩

theorem isWordChar_of_mem_mentionWords :
    ∀ word ∈ mentionWords, ∀ c ∈ word, isWordChar c = true := by
  have hall : ∀ word ∈ mentionWords, (word.all fun c => decide (isWordChar c = true)) = true := by
    decide
  exact fun word hword => forall_mem_of_all (hall word hword)

/-- A name and a fixed text that ends it. -/
theorem tame_name_append (hname : ∀ c ∈ name, isNameChar c = true) (hne : name ≠ [])
    (h : isTameText (some 'x') text = true) (hends : endsName text = true)
    (hbrackets : openBrackets awaited text = some awaited') :
    Tame awaited awaited' (name ++ text) := by
  simp only [isTameText, Bool.and_eq_true, List.all_eq_true, decide_eq_true_eq] at h
  refine .of_plain ?_ ?_ (quiet_name_append isWordChar_of_mem_mentionWords hname hne hends h.2) ?_
  · rintro c hc
    rcases List.mem_append.1 hc with hc | hc
    exacts [isPlain_of_isNameChar (hname c hc), h.1.1 c hc]
  · rw [List.getLast?_append]
    cases hlast : text.getLast? with
    | none => simp [hlast] at h
    | some c =>
      rw [Option.some_or, ← hlast]
      exact h.1.2
  · rw [openBrackets_append,
      openBrackets_of_isNameFragment (isNameFragment_of_isNameChar hname)]
    exact hbrackets

/-- The end of the name of a container and a fixed text that starts with blanks. -/
theorem tame_fragment_append (hname : isNameFragment name = true)
    (h : isTameText none text = true) (hblank : text.head?.any isBlank = true)
    (hstrays : straysGap text = true) (hbrackets : openBrackets awaited text = some awaited') :
    Tame awaited awaited' (name ++ text) := by
  simp only [isTameText, Bool.and_eq_true, List.all_eq_true, decide_eq_true_eq] at h
  refine .of_plain ?_ ?_ (quiet_run_append isWordChar_of_mem_mentionWords
    (isBlank_of_isNameFragment hname) hblank hstrays (quiet_of_isQuiet h.2)) ?_
  · intro c hc
    rcases List.mem_append.1 hc with hc | hc
    exacts [isPlain_of_isNameFragment hname c hc, h.1.1 c hc]
  · rw [List.getLast?_append_of_ne_nil _ (by rintro rfl; exact Bool.noConfusion hblank)]
    exact h.1.2
  · rw [openBrackets_append, openBrackets_of_isNameFragment hname]
    exact hbrackets

/-! ### Literals -/

theorem isQuiet_replicate (previous : Option Char) (n : Nat) :
    isQuiet mentionWords previous (List.replicate n ' ') = true := by
  induction n generalizing previous with
  | zero => rfl
  | succ n ih =>
    rw [List.replicate_succ, isQuiet, ih, Bool.and_true, Bool.or_eq_true]
    exact .inl rfl

theorem openBrackets_replicate (awaited : Text) (n : Nat) :
    openBrackets awaited (List.replicate n ' ') = some awaited :=
  openBrackets_of_notMem (fun c hc => by rw [List.eq_of_mem_replicate hc]; decide) awaited

theorem literalBody_of_isNameChar (hname : ∀ c ∈ name, isNameChar c = true) :
    literalBody name = name := by
  induction name with
  | nil => rfl
  | cons c name ih =>
    have hc := hname c List.mem_cons_self
    have hspecial : isLiteralSpecial c = false := by
      rw [Bool.eq_false_iff, isLiteralSpecial, Ne, decide_eq_true_eq]
      rintro (_ | ⟨_, _ | ⟨_, _ | ⟨_, ⟨⟩⟩⟩⟩) <;> exact absurd hc (by decide)
    rw [literalBody, hspecial, ih fun d hd => hname d (List.mem_cons_of_mem _ hd)]
    rfl

/-- The machine stays in a literal where it reads a character of a name, and
    masks it. -/
theorem step_literal {c : Char} (hc : isNameChar c = true) {progress : Progress}
    (hprogress : progress = .opened ∨ progress = .inside) (next : Option Char) :
    Mode.step (.literal '\'' false progress) c next = .literal '\'' false .inside ∧
      shown (.literal '\'' false progress) c next = ' ' := by
  have hplain := isPlain_of_isNameChar hc
  have hfeed : c ≠ '\n' := by rintro rfl; exact absurd hc (by decide)
  have hback : c ≠ '\\' := by rintro rfl; exact absurd hc (by decide)
  rcases hprogress with rfl | rfl <;>
    simp [Mode.step, Mode.resume?, hfeed, Mode.absorb, Mode.absorbSingle, hback, hplain.2.1, shown,
      Mode.shows, blanked]

/-- Up to its last quote a literal is masked, and nothing else happens. -/
theorem maskFrom_literal (hname : ∀ c ∈ name, isNameChar c = true) {progress : Progress}
    (hprogress : progress = .opened ∧ name ≠ [] ∨ progress = .inside) :
    maskFrom (.literal '\'' false progress) (name ++ ['\'']) =
        List.replicate (name.length + 1) ' ' ∧
      Mask.after (.literal '\'' false progress) (name ++ ['\'']) = .code .clear := by
  induction name generalizing progress with
  | nil =>
    obtain rfl : progress = .inside := hprogress.resolve_left fun h => h.2 rfl
    exact ⟨rfl, rfl⟩
  | cons c name ih =>
    obtain ⟨hmask, hafter⟩ := ih (fun d hd => hname d (List.mem_cons_of_mem _ hd)) (.inr rfl)
    have hstep := step_literal (hname c List.mem_cons_self) (hprogress.imp_left And.left)
    rw [List.cons_append, maskFrom_cons, Mask.after, (hstep _).1, (hstep _).2, hmask, hafter]
    exact ⟨rfl, rfl⟩

/-- The literal of a name is masked as a whole. -/
theorem maskFrom_literal_eq (hname : ∀ c ∈ name, isNameChar c = true) (hne : name ≠ []) :
    maskFrom (.code .clear) name.literal = List.replicate (name.length + 2) ' ' := by
  rw [literal, literalBody_of_isNameChar hname, List.cons_append, maskFrom_cons]
  exact congrArg (' ' :: ·) (maskFrom_literal hname (.inl ⟨rfl, hne⟩)).1

/-- The literal of a name is tame. -/
theorem tame_literal (hname : ∀ c ∈ name, isNameChar c = true) (hne : name ≠ [])
    (awaited : Text) : Tame awaited awaited name.literal := by
  have hmasked := maskFrom_literal_eq hname hne
  have hliteral : name.literal = '\'' :: (name ++ ['\'']) := by
    rw [literal, literalBody_of_isNameChar hname]
    rfl
  refine ⟨?_, ?_, ?_, ?_⟩
  · rw [hliteral]
    exact (maskFrom_literal hname (.inl ⟨rfl, hne⟩)).2
  · rw [hliteral, ← List.cons_append, List.getLast?_concat]
    decide
  · rw [hmasked]
    exact quiet_of_isQuiet (isQuiet_replicate none _)
  · rw [hmasked]
    exact openBrackets_replicate awaited _

/-! ### Templates -/

namespace Template

/-- The context in which the members for an enum are written. -/
def memberContext (e : Enumeration) : Context :=
  { enumName := e.name, values := e.values, memberIndent := Generator.memberIndent }

/-- Whether a line is tame, where a name stands before it or not. -/
def isTameLine : Bool → Line → Bool
  | afterName, [] => !afterName
  | afterName, .fixed text :: line =>
    isTameText (if afterName then some 'x' else none) text && (!afterName || endsName text) &&
      decide (openBrackets [] text = some []) && isTameLine false line
  | false, .indentation :: line => isTameLine false line
  | false, .literal :: line => isTameLine false line
  | false, .value :: line => isTameLine true line
  | false, .getter :: line => isTameLine true line
  | false, .enumName :: line => isTameLine true line
  | true, _ => false

/-- Whether a template for members is tame, where some brackets are open before
    it, and closes them. -/
def isTame (awaited : Text) : Template → Bool
  | [] => awaited.isEmpty
  | .fixed text :: sections =>
    isTameText none text && (openBrackets awaited text).any fun awaited => isTame awaited sections
  | .perValue line :: sections => isTameLine false line && isTame awaited sections
  | _ => false

theorem isNameChar_toUpper {c : Char} (h : c.isLower = true) : isNameChar c.toUpper = true :=
  of_isLower (p := fun c => isNameChar c.toUpper = true) (by decide) h

theorem isNameChar_getterName {value : Text} (h : ∀ c ∈ value, isNameChar c = true) :
    ∀ c ∈ Naming.getterName value, isNameChar c = true := by
  have hcapital : ∀ c ∈ Naming.capitalized value, isNameChar c = true := by
    cases value with
    | nil => nofun
    | cons c value =>
      rintro d (_ | ⟨_, hd⟩)
      · split_ifs with hlower
        exacts [isNameChar_toUpper hlower, h c List.mem_cons_self]
      · exact h d (List.mem_cons_of_mem _ hd)
  intro c hc
  rcases List.mem_append.1 hc with hc | hc
  · have hletters : ∀ c ∈ ['i', 's'], isNameChar c = true :=
      forall_mem_of_all (by decide)
    exact hletters c hc
  · exact hcapital c hc

/-- The indentation of members is tame. -/
theorem tame_memberIndent (awaited : Text) : Tame awaited awaited Generator.memberIndent :=
  tame_of_isTameText (by decide) rfl

variable (e : Enumeration) (awaited : Text)

/-- The line for a value is tame, together with a name before it. -/
theorem tame_line {line : Line} {afterName : Bool} (h : isTameLine afterName line = true)
    {name : Text} (hname : ∀ c ∈ name, isNameChar c = true) (hne : name ≠ [] ↔ afterName = true)
    (isFirst : Bool) {value : Text} (hvalue : isValueName value = true) :
    Tame awaited awaited (name ++ line.write (memberContext e) isFirst value) := by
  have hvaluechar := isNameChar_of_isValueName hvalue
  have hvaluene := ne_nil_of_isValueName hvalue
  induction line generalizing name afterName with
  | nil =>
    obtain rfl : name = [] := by
      by_contra hcon
      rw [isTameLine, hne.1 hcon] at h
      exact Bool.noConfusion h
    exact .nil awaited
  | cons piece line ih =>
    have hwrite : Line.write (piece :: line) (memberContext e) isFirst value =
        piece.write (memberContext e) isFirst value ++
          Line.write line (memberContext e) isFirst value := List.flatMap_cons
    rw [hwrite]
    -- Behind anything but a name the rest of the line stands alone.
    have halone : ∀ text, Tame awaited awaited (name ++ text) → isTameLine false line = true →
        Tame awaited awaited (name ++ (text ++ Line.write line (memberContext e) isFirst value)) := by
      intro text htext hline
      rw [← List.append_assoc]
      exact htext.append (ih hline (nofun : ∀ c ∈ ([] : Text), isNameChar c = true) (by simp))
    cases afterName with
    | true =>
      cases piece with
      | fixed text =>
        simp only [isTameLine, Bool.and_eq_true, Bool.not_true, Bool.false_or, if_true,
          decide_eq_true_eq] at h
        exact halone text (tame_name_append hname (hne.2 rfl) h.1.1.1 h.1.1.2
          (openBrackets_extend h.1.2 awaited)) h.2
      | _ => exact absurd h (by simp [isTameLine])
    | false =>
      obtain rfl : name = [] := by
        by_contra hcon
        exact Bool.noConfusion (hne.1 hcon)
      -- A name is put before the rest of the line.
      have hpiece : ∀ name : Text, (∀ c ∈ name, isNameChar c = true) → name ≠ [] →
          isTameLine true line = true →
          Tame awaited awaited ([] ++ (name ++ Line.write line (memberContext e) isFirst value)) :=
        fun name hname hne hline => ih hline hname (iff_of_true hne rfl)
      cases piece with
      | fixed text =>
        simp only [isTameLine, Bool.and_eq_true, Bool.not_false, Bool.true_or, if_false,
          Bool.false_eq_true, decide_eq_true_eq, and_true] at h
        exact halone text (tame_of_isTameText h.1.1 (openBrackets_extend h.1.2 awaited)) h.2
      | indentation =>
        refine halone _ ?_ h
        cases isFirst
        exacts [tame_memberIndent awaited, .nil awaited]
      | literal => exact halone _ (tame_literal hvaluechar hvaluene awaited) h
      | value => exact hpiece _ hvaluechar hvaluene h
      | getter =>
        exact hpiece _ (isNameChar_getterName hvaluechar) (List.cons_ne_nil _ _) h
      | enumName =>
        exact hpiece _ (isNameChar_of_isTypeName e.isTypeName_name)
          (ne_nil_of_isTypeName e.isTypeName_name) h

/-- So are the lines for all values. -/
theorem tame_writeEach {line : Line} (h : isTameLine false line = true) :
    Tame awaited awaited (line.writeEach (memberContext e) e.values) := by
  have hline : ∀ isFirst, ∀ value ∈ e.values,
      Tame awaited awaited (line.write (memberContext e) isFirst value) := fun isFirst value hvalue =>
    tame_line e awaited h (nofun : ∀ c ∈ ([] : Text), isNameChar c = true) (by simp) isFirst
      (e.isValueName_values value hvalue)
  cases hvalues : e.values with
  | nil => exact absurd hvalues e.values_ne_nil
  | cons value values =>
    rw [hvalues] at hline
    exact (hline true value List.mem_cons_self).append
      (.flatMap fun other hother => hline false other (List.mem_cons_of_mem _ hother))

/-- What a tame template writes for an enum is tame. -/
theorem tame_write {template : Template} {awaited : Text} (h : isTame awaited template = true) :
    Tame awaited [] (template.write (memberContext e)) := by
  induction template generalizing awaited with
  | nil =>
    obtain rfl : awaited = [] := List.isEmpty_iff.1 h
    exact .nil []
  | cons part template ih =>
    have hwrite : Template.write (part :: template) (memberContext e) =
        part.write (memberContext e) ++ Template.write template (memberContext e) :=
      List.flatMap_cons
    rw [hwrite]
    cases part with
    | fixed text =>
      simp only [isTame, Bool.and_eq_true, Option.any_eq_true] at h
      obtain ⟨htext, awaited', hawaited, hrest⟩ := h
      exact (tame_of_isTameText htext hawaited).append (ih hrest)
    | perValue line =>
      simp only [isTame, Bool.and_eq_true] at h
      exact (tame_writeEach e awaited h.1).append (ih h.2)
    | _ => exact absurd h (by simp [isTame])

end Template

end EnumCompanion
