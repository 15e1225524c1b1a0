import EnumCompanion.Mask
import EnumCompanion.Proofs.Text.Characters

/-!
# Masks of texts put together

The mask of a text is that of its parts, each entered in the mode in which the
one before it ends. Only a slash looks ahead, so that two parts may meet
wherever no comment is opened across the seam.

* `Mask.after`: the mode in which a text ends;
* `Mask.maskFrom_append`: the mask of two texts, one behind the other;
* `Mask.modeAt`, `Mask.drop_maskFrom`: the mode at a place, and the mask behind it;
* `Mask.maskFrom_of_plain`: code without quotes and slashes is its own mask;
* `Mask.after_of_getLast?_eq`: behind a bracket that shows the machine is in code;
* `Mask.shows_of_masked`: a part of a mask between a letter and a brace is the
  mask of a part of the text;
* `Mask.Mode.IsFresh`, `Mask.maskFrom_of_resume?`: what follows a comment or a
  literal is masked as by itself;
* `Mask.isReady_of_after`: a word that shows behind blanks on a line would show
  before them;
* `Mask.maskFrom_of_isReady`: there it has the mask it has in code.
-/

namespace EnumCompanion

open Text

namespace Mask

/-- The mode in which a text ends. -/
def after (mode : Mode) : Text → Mode
  | [] => mode
  | c :: rest => after (mode.step c rest.head?) rest

/-- What the mask has for a character that is read in a mode. -/
def shown (mode : Mode) (c : Char) (next : Option Char) : Char :=
  if mode.shows c next then c else blanked c

theorem maskFrom_cons (mode : Mode) (c : Char) (rest : Text) :
    maskFrom mode (c :: rest) = shown mode c rest.head? :: maskFrom (mode.step c rest.head?) rest :=
  rfl

/-- No comment is opened where two texts meet. -/
def Seam (text rest : Text) : Prop :=
  text.getLast? = some '/' → rest.head? ≠ some '/' ∧ rest.head? ≠ some '*'

theorem codeStep_eq_none {c : Char} {next : Option Char}
    (h : c = '/' → next ≠ some '/' ∧ next ≠ some '*') (trail : Trail) :
    codeStep trail c next = codeStep trail c none := by
  have hline : ¬(c = '/' ∧ next = some '/') := fun hc => (h hc.1).1 hc.2
  have hblock : ¬(c = '/' ∧ next = some '*') := fun hc => (h hc.1).2 hc.2
  simp only [codeStep, hline, hblock, if_false, reduceCtorEq, and_false]

namespace Mode

variable {mode : Mode} {c : Char} {next : Option Char}

theorem step_eq_none (h : c = '/' → next ≠ some '/' ∧ next ≠ some '*') :
    mode.step c next = mode.step c none := by
  rw [step, step]
  cases mode.resume? c with
  | none => rfl
  | some trail => exact codeStep_eq_none h trail

theorem shown_eq_none (h : c = '/' → next ≠ some '/' ∧ next ≠ some '*') :
    shown mode c next = shown mode c none := by
  have hshows : mode.shows c next = mode.shows c none := by
    rw [shows, shows]
    cases mode.resume? c with
    | none => rfl
    | some trail => exact congrArg isCode (codeStep_eq_none h trail)
  rw [shown, shown, hshows]

end Mode

theorem Seam.tail {c d : Char} {text rest : Text} (h : Seam (c :: d :: text) rest) :
    Seam (d :: text) rest := fun hlast => h (by rwa [List.getLast?_cons_cons])

/-- The mask of two texts, one behind the other. -/
theorem maskFrom_append {mode : Mode} {text rest : Text} (h : Seam text rest) :
    maskFrom mode (text ++ rest) = maskFrom mode text ++ maskFrom (after mode text) rest := by
  induction text generalizing mode with
  | nil => rfl
  | cons c text ih =>
    cases text with
    | nil =>
      have hc : c = '/' → rest.head? ≠ some '/' ∧ rest.head? ≠ some '*' := fun hc =>
        h (by rw [hc]; rfl)
      rw [List.singleton_append, maskFrom_cons, maskFrom_cons, Mode.shown_eq_none hc,
        Mode.step_eq_none hc]
      rfl
    | cons d text =>
      rw [List.cons_append, maskFrom_cons, ih h.tail, maskFrom_cons mode]
      rfl

theorem after_append {mode : Mode} {text rest : Text} (h : Seam text rest) :
    after mode (text ++ rest) = after (after mode text) rest := by
  induction text generalizing mode with
  | nil => rfl
  | cons c text ih =>
    cases text with
    | nil =>
      have hc : c = '/' → rest.head? ≠ some '/' ∧ rest.head? ≠ some '*' := fun hc =>
        h (by rw [hc]; rfl)
      simp only [List.cons_append, List.nil_append, after, List.head?_nil, Mode.step_eq_none hc]
    | cons d text => exact ih h.tail

theorem seam_of_getLast? {text : Text} (h : text.getLast? ≠ some '/') (rest : Text) :
    Seam text rest := fun hlast => absurd hlast h

theorem seam_of_head? {rest : Text} (h : rest.head? ≠ some '/' ∧ rest.head? ≠ some '*')
    (text : Text) : Seam text rest := fun _ => h

/-! ### Places -/

/-- The mode in which the machine gets to a place of a text. -/
def modeAt (mode : Mode) : Text → Nat → Mode
  | c :: rest, place + 1 => modeAt (mode.step c rest.head?) rest place
  | _, _ => mode

theorem modeAt_zero (mode : Mode) (text : Text) : modeAt mode text 0 = mode := by
  cases text <;> rfl

/-- What follows a place is masked from the mode there. -/
theorem drop_maskFrom (mode : Mode) (text : Text) (place : Nat) :
    (maskFrom mode text).drop place = maskFrom (modeAt mode text place) (text.drop place) := by
  induction place generalizing mode text with
  | zero => rw [modeAt_zero, List.drop_zero, List.drop_zero]
  | succ place ih =>
    cases text with
    | nil => rfl
    | cons c text => exact ih _ text

/-- Where two texts meet it is the mode in which the first one ends. -/
theorem modeAt_append {mode : Mode} {text rest : Text} (h : Seam text rest) :
    modeAt mode (text ++ rest) text.length = after mode text := by
  induction text generalizing mode with
  | nil => exact modeAt_zero mode rest
  | cons c text ih =>
    cases text with
    | nil =>
      have hc : c = '/' → rest.head? ≠ some '/' ∧ rest.head? ≠ some '*' := fun hc =>
        h (by rw [hc]; rfl)
      simp only [List.cons_append, List.nil_append, List.length_cons, List.length_nil, modeAt,
        modeAt_zero, after, List.head?_nil, Mode.step_eq_none hc]
    | cons d text => exact ih h.tail

/-! ### Code -/

/-- A character that neither is a quote nor may open a comment. -/
def IsPlain (c : Char) : Prop := c ≠ '/' ∧ c ≠ '\'' ∧ c ≠ '"'

instance (c : Char) : Decidable (IsPlain c) := inferInstanceAs (Decidable (_ ∧ _ ∧ _))

theorem codeStep_of_plain {c : Char} (h : IsPlain c) (trail : Trail) (next : Option Char) :
    codeStep trail c next = .code (trail.next c) := by
  simp only [codeStep, h.1, h.2.1, h.2.2, false_and, false_or, if_false]

theorem step_of_plain {c : Char} (h : IsPlain c) {mode : Mode} {trail : Trail}
    (hmode : mode.resume? c = some trail) (next : Option Char) :
    mode.step c next = .code (trail.next c) := by
  rw [Mode.step, hmode]
  exact codeStep_of_plain h trail next

theorem shows_of_plain {c : Char} (h : IsPlain c) {mode : Mode} {trail : Trail}
    (hmode : mode.resume? c = some trail) (next : Option Char) : mode.shows c next = true := by
  rw [Mode.shows, hmode, Option.any_some, codeStep_of_plain h]
  rfl

/-- Code without quotes and slashes is its own mask. -/
theorem maskFrom_of_plain {text : Text} (h : ∀ c ∈ text, IsPlain c) (trail : Trail) :
    maskFrom (.code trail) text = text := by
  induction text generalizing trail with
  | nil => rfl
  | cons c text ih =>
    have hc := h c List.mem_cons_self
    rw [maskFrom_cons, shown, shows_of_plain hc rfl, if_pos rfl, step_of_plain hc rfl,
      ih fun d hd => h d (List.mem_cons_of_mem _ hd)]

/-- Such code leads to code. -/
theorem after_of_plain {text : Text} (h : ∀ c ∈ text, IsPlain c) (trail : Trail) :
    after (.code trail) text = .code (text.foldl Trail.next trail) := by
  induction text generalizing trail with
  | nil => rfl
  | cons c text ih =>
    rw [after, step_of_plain (h c List.mem_cons_self) rfl,
      ih fun d hd => h d (List.mem_cons_of_mem _ hd), List.foldl_cons]

theorem Trail.next_of_not_isAlnum {c : Char} (h : isAlnum c = false) (trail : Trail) :
    trail.next c = .clear := by
  have hr : ¬((c = 'r' ∨ c = 'R') ∧ trail = .clear) := by
    rintro ⟨rfl | rfl, -⟩ <;> exact absurd h (by decide)
  rw [next, if_neg hr, if_neg (by simp [h])]

/-- Behind a character that is not alphanumeric the trail is clear. -/
theorem foldl_next_append {text : Text} {c : Char} (h : isAlnum c = false) (trail : Trail) :
    (text ++ [c]).foldl Trail.next trail = .clear := by
  rw [List.foldl_append, List.foldl_cons, List.foldl_nil, Trail.next_of_not_isAlnum h]

/-! ### What shows -/

theorem blanked_eq (c : Char) : blanked c = ' ' ∨ blanked c = '\n' := by
  rw [blanked]
  split <;> simp

theorem isBlank_blanked (c : Char) : isBlank (blanked c) = true := by
  rcases blanked_eq c with h | h <;> rw [h] <;> decide

/-- A character of the mask that is no blank shows. -/
theorem of_maskFrom_cons {mode : Mode} {c d : Char} {text masked : Text}
    (h : maskFrom mode (c :: text) = d :: masked) (hspace : d ≠ ' ') (hfeed : d ≠ '\n') :
    c = d ∧ mode.shows c text.head? = true ∧ maskFrom (mode.step c text.head?) text = masked := by
  obtain ⟨hhead, htail⟩ := List.cons.inj h
  split_ifs at hhead with hshows
  · exact ⟨hhead, hshows, htail⟩
  · rcases blanked_eq c with hb | hb
    exacts [absurd (hhead.symm.trans hb) hspace, absurd (hhead.symm.trans hb) hfeed]

theorem exists_resume?_of_shows {mode : Mode} {c : Char} {next : Option Char}
    (h : mode.shows c next = true) : ∃ trail, mode.resume? c = some trail := by
  rw [Mode.shows, Option.any_eq_true] at h
  obtain ⟨trail, htrail, -⟩ := h
  exact ⟨trail, htrail⟩

/-- What shows behind a text stands there in the text itself. -/
theorem exists_cons_of_maskFrom_append {mode : Mode} {before rest masked more : Text} {c : Char}
    (h : maskFrom mode (before ++ rest) = masked ++ c :: more)
    (hlength : masked.length = before.length) (hspace : c ≠ ' ') (hfeed : c ≠ '\n') :
    ∃ behind, rest = c :: behind := by
  induction before generalizing mode masked with
  | nil =>
    obtain rfl := List.length_eq_zero_iff.1 hlength
    cases rest with
    | nil => exact absurd h.symm (List.cons_ne_nil _ _)
    | cons d behind => exact ⟨behind, by rw [(of_maskFrom_cons h hspace hfeed).1]⟩
  | cons d before ih =>
    cases masked with
    | nil => exact absurd hlength.symm (Nat.succ_ne_zero _)
    | cons e masked => exact ih (List.cons.inj h).2 (Nat.succ.inj hlength)

/-- A word of the mask stands in the text itself. -/
theorem prefix_of_prefix_maskFrom {mode : Mode} {word text : Text}
    (hword : ∀ c ∈ word, c ≠ ' ' ∧ c ≠ '\n') (h : word <+: maskFrom mode text) :
    word <+: text := by
  induction word generalizing mode text with
  | nil => exact List.nil_prefix
  | cons d word ih =>
    obtain ⟨more, hmore⟩ := h
    obtain ⟨hd, hrest⟩ := List.forall_mem_cons.1 hword
    cases text with
    | nil => exact absurd hmore (List.cons_ne_nil _ _)
    | cons c text =>
      obtain ⟨rfl, -, hmask⟩ := of_maskFrom_cons hmore.symm hd.1 hd.2
      exact (List.cons_prefix_cons.2 ⟨rfl, ih hrest ⟨more, hmask.symm⟩⟩)

/-- Behind a character that shows, and belongs neither to words nor to delimiters,
    the machine is in code. -/
theorem after_of_getLast?_eq {mode : Mode} {text : Text} {c : Char} (hplain : IsPlain c)
    (halnum : isAlnum c = false) (hblank : isBlank c = false)
    (h : (maskFrom mode text).getLast? = some c) :
    after mode text = .code .clear ∧ text.getLast? = some c := by
  induction text generalizing mode with
  | nil => exact absurd h nofun
  | cons d text ih =>
    cases text with
    | nil =>
      have hmask : maskFrom mode [d] = [c] := congrArg (fun c => [c]) (Option.some.inj h)
      obtain ⟨rfl, hshows, -⟩ := of_maskFrom_cons hmask
        (by rintro rfl; exact absurd hblank (by decide))
        (by rintro rfl; exact absurd hblank (by decide))
      obtain ⟨trail, htrail⟩ := exists_resume?_of_shows hshows
      rw [after, after, step_of_plain hplain htrail, Trail.next_of_not_isAlnum halnum]
      exact ⟨rfl, rfl⟩
    | cons e text =>
      rw [maskFrom_cons, maskFrom_cons, List.getLast?_cons_cons, ← maskFrom_cons] at h
      obtain ⟨hafter, hlast⟩ := ih h
      exact ⟨hafter, by rw [List.getLast?_cons_cons, hlast]⟩

/-- A text in three parts, of which the middle one shows at both ends: it starts
    with a character that neither opens a comment nor ends one, and ends with a
    closing brace. -/
structure Shows (before middle behind : Text) (first : Char) : Prop where
  /-- Before it a character that is no line feed is read as code. -/
  resume : ∃ trail, (after (.code .clear) before).resume? first = some trail
  /-- Behind it the machine is in code. -/
  leave : after (after (.code .clear) before) middle = .code .clear
  head : middle.head? = some first
  last : middle.getLast? = some '}'

/-- A part of a mask that starts with such a character and ends with a closing
    brace is the mask of a part that shows at both ends. -/
theorem shows_of_masked {before middle behind masked part maskedBehind : Text} {first : Char}
    (h : maskFrom (.code .clear) (before ++ (middle ++ behind)) = masked ++ (part ++ maskedBehind))
    (hbefore : before.length = masked.length) (hmiddle : middle.length = part.length)
    (hhead : part.head? = some first)
    (hfirst : first ≠ ' ' ∧ first ≠ '\n' ∧ first ≠ '/' ∧ first ≠ '*')
    (hlast : part.getLast? = some '}') :
    Shows before middle behind first ∧ maskFrom (.code .clear) before = masked ∧
      maskFrom (after (.code .clear) before) middle = part ∧
      maskFrom (.code .clear) behind = maskedBehind := by
  obtain ⟨hspace, hfeed, hslash, hstar⟩ := hfirst
  obtain ⟨letters, rfl⟩ := List.head?_eq_some_iff.1 hhead
  -- What shows of the part stands in the text.
  obtain ⟨tail, rfl⟩ : ∃ tail, middle = first :: tail := by
    obtain ⟨rest, hrest⟩ := exists_cons_of_maskFrom_append h hbefore.symm hspace hfeed
    cases middle with
    | nil => exact absurd hmiddle.symm (Nat.succ_ne_zero _)
    | cons d tail => exact ⟨tail, by rw [(List.cons.inj hrest).1]⟩
  have hseam : Seam before (first :: tail ++ behind) :=
    seam_of_head? ⟨by simpa using hslash, by simpa using hstar⟩ _
  rw [maskFrom_append hseam] at h
  obtain ⟨hbeforeMask, hrestMask⟩ := List.append_inj h (by rw [length_maskFrom, hbefore])
  have hlast' : (first :: tail).getLast? = some '}' := by
    obtain ⟨inner, hinner⟩ := List.getLast?_eq_some_iff.1 hlast
    obtain ⟨init, d, hconcat⟩ := (List.eq_nil_or_concat (first :: tail)).resolve_left
      (List.cons_ne_nil _ _)
    rw [List.concat_eq_append] at hconcat
    rw [hconcat, hinner, List.append_assoc, List.append_assoc] at hrestMask
    have hlength : inner.length = init.length := by
      rw [hconcat, hinner, List.length_append, List.length_append] at hmiddle
      exact (Nat.succ.inj hmiddle).symm
    obtain ⟨rest, hrest⟩ := exists_cons_of_maskFrom_append hrestMask hlength (by decide) (by decide)
    rw [hconcat, List.getLast?_concat, (List.cons.inj hrest).1]
  rw [maskFrom_append (seam_of_getLast? (by rw [hlast']; decide) _)] at hrestMask
  obtain ⟨hmiddleMask, hbehindMask⟩ := List.append_inj hrestMask (by rw [length_maskFrom, hmiddle])
  have hleave : after (after (.code .clear) before) (first :: tail) = .code .clear :=
    (after_of_getLast?_eq (c := '}') (by decide) (by decide) (by decide)
      (by rw [hmiddleMask]; exact hlast)).1
  rw [hleave] at hbehindMask
  obtain ⟨-, hshows, -⟩ := of_maskFrom_cons hmiddleMask hspace hfeed
  exact ⟨⟨exists_resume?_of_shows hshows, hleave, rfl, hlast'⟩, hbeforeMask, hmiddleMask,
    hbehindMask⟩

/-! ### Blanks -/

/-- The mask of blanks is one of blanks. -/
theorem isBlank_of_mem_maskFrom {mode : Mode} {text : Text} (h : ∀ c ∈ text, isBlank c = true) :
    ∀ c ∈ maskFrom mode text, isBlank c = true := by
  induction text generalizing mode with
  | nil => exact h
  | cons d text ih =>
    rw [maskFrom_cons, List.forall_mem_cons, shown]
    refine ⟨?_, ih fun c hc => h c (List.mem_cons_of_mem _ hc)⟩
    split
    · exact h d List.mem_cons_self
    · exact isBlank_blanked d

theorem isPlain_of_isBlank {c : Char} (h : isBlank c = true) : IsPlain c := by
  refine ⟨?_, ?_, ?_⟩ <;> rintro rfl <;> exact absurd h (by decide)

/-- Blanks in code lead to code. -/
theorem after_of_isBlank {text : Text} (h : ∀ c ∈ text, isBlank c = true) :
    after (.code .clear) text = .code .clear := by
  rw [after_of_plain fun c hc => isPlain_of_isBlank (h c hc)]
  congr 1
  rcases List.eq_nil_or_concat text with rfl | ⟨before, c, rfl⟩
  · rfl
  · rw [List.concat_eq_append] at h ⊢
    have hword := isWordChar_of_isBlank (h c (by simp))
    rw [isWordChar, Bool.or_eq_false_iff] at hword
    exact foldl_next_append hword.1 .clear

/-- Behind blanks in code a text is masked as by itself. -/
theorem append_of_isBlank {gap : Text} (h : ∀ c ∈ gap, isBlank c = true) (rest : Text) :
    maskFrom (.code .clear) (gap ++ rest) = gap ++ maskFrom (.code .clear) rest ∧
      after (.code .clear) (gap ++ rest) = after (.code .clear) rest := by
  have hseam : Seam gap rest := seam_of_getLast? (fun hlast =>
    absurd (h '/' (List.mem_of_getLast? hlast)) (by decide)) rest
  rw [maskFrom_append hseam, maskFrom_of_plain fun c hc => isPlain_of_isBlank (h c hc),
    after_append hseam, after_of_isBlank h]
  exact ⟨rfl, rfl⟩

/-! ### Back in code -/

namespace Mode

/-- Whether no word stands before a character that is read as code. -/
def IsFresh (mode : Mode) : Prop :=
  ∀ (c : Char) (trail : Trail), mode.resume? c = some trail → trail = .clear

variable {mode : Mode}

theorem isFresh_code : IsFresh (.code .clear) := fun _ _ h => (Option.some.inj h).symm

/-- Comments and literals give way to code behind no word. -/
theorem isFresh_of_not_isCode (h : mode.isCode = false) : mode.IsFresh := by
  intro c trail hresume
  rcases mode with _ | _ | _ | ⟨quote, raw, _ | _ | _ | _ | _ | _⟩ <;>
    simp_all [resume?, isCode]

/-- So they do where they end with a delimiter. -/
theorem isFresh_absorb {c : Char} (h : mode.resume? c = none) : (mode.absorb c).IsFresh := by
  have habsorb : mode.absorb c = .code .clear ∨ (mode.absorb c).isCode = false := by
    rcases mode with _ | _ | ⟨depth, half⟩ | ⟨quote, raw, progress⟩
    · exact absurd h (Option.some_ne_none _)
    · exact .inr rfl
    · simp only [absorb, absorbComment]
      split <;> (try split_ifs) <;> simp [isCode]
    · cases progress <;> simp only [absorb, absorbSingle, absorbTriple] <;>
        (try split_ifs) <;> simp [isCode]
  rcases habsorb with hclear | hcode
  · exact hclear ▸ isFresh_code
  · exact isFresh_of_not_isCode hcode

end Mode

/-- A text whose first character is read as code, with no word before it, is masked
    as by itself. -/
theorem maskFrom_of_resume? {mode : Mode} {c : Char} (h : mode.resume? c = some .clear)
    (rest : Text) : maskFrom mode (c :: rest) = maskFrom (.code .clear) (c :: rest) := by
  rw [maskFrom, maskFrom, Mode.shows, Mode.shows, Mode.step, Mode.step, h]
  rfl

/-! ### Words behind blanks -/

namespace Mode

/-- The quote of a literal is one. -/
def IsProper : Mode → Prop
  | literal quote _ _ => quote = '\'' ∨ quote = '"'
  | _ => True

/-- Whether a word is read as code. -/
def isReady : Mode → Bool
  | code _ => true
  | literal _ _ .doubled => true
  | _ => false

theorem IsProper.step {mode : Mode} (h : mode.IsProper) (c : Char) (next : Option Char) :
    (mode.step c next).IsProper := by
  rw [Mode.step]
  split
  · rw [codeStep]
    split_ifs with _ _ hquote
    exacts [trivial, trivial, hquote, trivial]
  · cases mode with
    | code | lineComment => trivial
    | blockComment depth half =>
      simp only [absorb, absorbComment]
      split <;> (try split_ifs) <;> trivial
    | literal quote raw progress =>
      cases progress <;> simp only [absorb, absorbSingle, absorbTriple] <;> (try split_ifs) <;>
        first | exact h | trivial

theorem isReady_of_resume? {mode : Mode} {c : Char} (hc : c ≠ '\n') {trail : Trail}
    (h : mode.resume? c = some trail) : mode.isReady = true := by
  rcases mode with _ | _ | _ | ⟨quote, raw, _ | _ | _ | _ | _ | _⟩ <;>
    first | rfl | simp [resume?, hc] at h

/-- A machine that is ready reads a character of a word as code. -/
theorem exists_resume?_of_isReady {mode : Mode} (h : mode.isReady = true) (hproper : mode.IsProper)
    {c : Char} (hc : c ≠ '\'' ∧ c ≠ '"') : ∃ trail, mode.resume? c = some trail := by
  rcases mode with trail | _ | _ | ⟨quote, raw, _ | _ | _ | _ | _ | _⟩ <;>
    try exact Bool.noConfusion h
  · exact ⟨trail, rfl⟩
  · have hquote : c ≠ quote := by
      rintro rfl
      exact hproper.elim hc.1 hc.2
    exact ⟨.clear, if_neg hquote⟩

/-- Blanks on a line do not make the machine ready. -/
theorem not_isReady_step {mode : Mode} (h : mode.isReady = false) (hproper : mode.IsProper)
    {c : Char} (hblank : isBlank c = true) (hc : c ≠ '\n') (next : Option Char) :
    (mode.step c next).isReady = false := by
  have hslash : c ≠ '/' := by rintro rfl; exact absurd hblank (by decide)
  have hstar : c ≠ '*' := by rintro rfl; exact absurd hblank (by decide)
  have hback : c ≠ '\\' := by rintro rfl; exact absurd hblank (by decide)
  rcases mode with _ | _ | ⟨depth, half⟩ | ⟨quote, raw, progress⟩
  · exact Bool.noConfusion h
  · simp [step, resume?, hc, absorb, isReady]
  · simp only [step, resume?, absorb, absorbComment]
    split <;> simp_all [isReady]
  · have hquote : c ≠ quote := by
      rintro rfl
      rcases hproper with rfl | rfl <;> exact absurd hblank (by decide)
    cases progress <;>
      simp_all [step, resume?, absorb, absorbSingle, absorbTriple, isReady]

end Mode

theorem isProper_after {mode : Mode} (h : mode.IsProper) (text : Text) :
    (after mode text).IsProper := by
  induction text generalizing mode with
  | nil => exact h
  | cons c text ih => exact ih (h.step c _)

/-- If the machine is ready behind blanks on a line, it was before. -/
theorem isReady_of_after {mode : Mode} (hproper : mode.IsProper) {text : Text}
    (htext : ∀ c ∈ text, isBlank c = true ∧ c ≠ '\n') (h : (after mode text).isReady = true) :
    mode.isReady = true := by
  induction text generalizing mode with
  | nil => exact h
  | cons c text ih =>
    obtain ⟨hblank, hc⟩ := htext c List.mem_cons_self
    have hstep := ih (hproper.step c _) (fun d hd => htext d (List.mem_cons_of_mem _ hd)) h
    by_contra hnot
    rw [Bool.not_eq_true] at hnot
    rw [Mode.not_isReady_step hnot hproper hblank hc] at hstep
    exact Bool.noConfusion hstep

/-- A word that starts where the machine is ready has the mask it has in code. -/
theorem maskFrom_of_isReady {mode : Mode} (h : mode.isReady = true) (hproper : mode.IsProper)
    {c : Char} (hc : IsPlain c) (halnum : isAlnum c = true) (hraw : c ≠ 'r' ∧ c ≠ 'R')
    (text : Text) : maskFrom mode (c :: text) = maskFrom (.code .clear) (c :: text) ∧
      after mode (c :: text) = after (.code .clear) (c :: text) := by
  obtain ⟨trail, htrail⟩ := Mode.exists_resume?_of_isReady h hproper hc.2
  have hnext : ∀ trail : Trail, trail.next c = .word := fun trail => by
    rw [Trail.next, if_neg fun hr => hr.1.elim hraw.1 hraw.2, if_pos halnum]
  have hstep : ∀ next, mode.step c next = Mode.step (.code .clear) c next := fun next => by
    rw [step_of_plain hc htrail, step_of_plain hc rfl, hnext, hnext]
  have hshown : ∀ next, shown mode c next = shown (.code .clear) c next := fun next => by
    rw [shown, shown, shows_of_plain hc htrail, shows_of_plain hc rfl]
  exact ⟨by rw [maskFrom_cons, maskFrom_cons, hstep, hshown], by rw [after, after, hstep]⟩

end Mask

end EnumCompanion
