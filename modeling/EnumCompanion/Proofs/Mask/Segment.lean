import EnumCompanion.Proofs.Mask
import EnumCompanion.Proofs.Mask.Token

/-!
# The mask of a text cut into tokens

The machine that masks a text reads its tokens one after the other: where one
starts it reads a character as code, and what it has seen before tells whether a
literal there is raw. So the mask keeps the plain tokens and blanks all others.

* `trailBehind_eq_rawMark_iff`: what the machine keeps of the text before a place;
* `Hides`: a text that is blanked, and the mode behind it;
* `Comment.hides`, `Content.hides`, `Content.hides_triple`: what stands within a
  comment and within a literal is blanked;
* `Token.Stands.exists_maskFrom`: the step from one token to the next;
* `existsUnique_segments`: the tokens of a text, and its mask.
-/

namespace EnumCompanion.Mask

open Text

/-! ### Trails -/

/-- The trail behind a text. -/
def trailBehind (before : Text) : Trail := before.foldl Trail.next .clear

theorem trailBehind_concat (before : Text) (c : Char) :
    trailBehind (before ++ [c]) = (trailBehind before).next c := by
  rw [trailBehind, List.foldl_append]
  rfl

theorem trailBehind_eq_clear_iff (before : Text) :
    trailBehind before = .clear ↔ before.getLast?.any isAlnum = false := by
  rcases List.eq_nil_or_concat before with rfl | ⟨front, c, rfl⟩
  · exact iff_of_true rfl rfl
  rw [List.concat_eq_append, trailBehind_concat, List.getLast?_concat, Option.any_some, Trail.next]
  split_ifs with hmark halnum
  · refine iff_of_false (by decide) ?_
    rcases hmark.1 with rfl | rfl <;> decide
  · exact iff_of_false (by decide) (by rw [halnum]; decide)
  · exact iff_of_true rfl (Bool.eq_false_iff.2 halnum)

/-- The machine takes a literal for a raw one exactly if it is marked so. -/
theorem trailBehind_eq_rawMark_iff (before : Text) :
    trailBehind before = .rawMark ↔ MarksRaw before := by
  constructor
  · intro h
    rcases List.eq_nil_or_concat before with rfl | ⟨front, c, rfl⟩
    · cases h
    rw [List.concat_eq_append, trailBehind_concat, Trail.next] at h
    split_ifs at h with hmark
    exact ⟨front, c, List.concat_eq_append, hmark.1, (trailBehind_eq_clear_iff front).1 hmark.2⟩
  · rintro ⟨front, mark, rfl, hmark, hfront⟩
    rw [trailBehind_concat, Trail.next, if_pos ⟨hmark, (trailBehind_eq_clear_iff front).2 hfront⟩]

/-- Behind a character that is not alphanumeric the trail is clear. -/
theorem trailBehind_eq_clear {before : Text} {c : Char} (hlast : before.getLast? = some c)
    (hc : isAlnum c = false) : trailBehind before = .clear :=
  (trailBehind_eq_clear_iff before).2 (by rw [hlast, Option.any_some, hc])

/-- A machine that reads the next character as code. At the end of a line it
    need not know what comes before. -/
def Reads (mode : Mode) (before text : Text) : Prop :=
  ∀ c, text.head? = some c →
    ∃ trail, mode.resume? c = some trail ∧ (c = '\n' ∨ trail = trailBehind before)

theorem Reads.nil (mode : Mode) (before : Text) : Reads mode before [] := nofun

/-! ### What is blanked -/

/-- A text that is blanked in one mode and leads to another one. -/
def Hides (mode : Mode) (text behind : Text) (mode' : Mode) : Prop :=
  maskFrom mode (text ++ behind) = text.map blanked ++ maskFrom mode' behind

namespace Hides

variable {mode mode' mode'' : Mode} {c : Char} {text rest behind : Text}

theorem nil (mode : Mode) (behind : Text) : Hides mode [] behind mode := rfl

/-- A character that is not read as code. -/
theorem cons (hresume : mode.resume? c = none) (h : Hides (mode.absorb c) text behind mode') :
    Hides mode (c :: text) behind mode' := by
  have hshown : shown mode c (text ++ behind).head? = blanked c := by
    rw [shown, Mode.shows, hresume]
    rfl
  rw [Hides, List.cons_append, maskFrom_cons, hshown, Mode.step, hresume]
  exact congrArg _ h

/-- A character that opens a comment or a literal. -/
theorem opens {trail : Trail} (hresume : mode.resume? c = some trail)
    (hstep : codeStep trail c (text ++ behind).head? = mode') (hmode : mode'.isCode = false)
    (h : Hides mode' text behind mode'') : Hides mode (c :: text) behind mode'' := by
  have hshown : shown mode c (text ++ behind).head? = blanked c := by
    rw [shown, Mode.shows, hresume, Option.any_some, hstep, hmode]
    rfl
  rw [Hides, List.cons_append, maskFrom_cons, hshown, Mode.step, hresume]
  dsimp only
  rw [hstep]
  exact congrArg _ h

theorem append (h : Hides mode text (rest ++ behind) mode')
    (hrest : Hides mode' rest behind mode'') : Hides mode (text ++ rest) behind mode'' := by
  rw [Hides, List.append_assoc, h, hrest, List.map_append, List.append_assoc]

/-- At the end of a text the mode does not matter. -/
theorem at_end (h : Hides mode text [] mode') (mode'' : Mode) : Hides mode text [] mode'' := h

end Hides

/-! ### Comments -/

/-- Within a line comment the line is blanked. -/
theorem hides_lineComment {body : Text} (hbody : '\n' ∉ body) (behind : Text) :
    Hides .lineComment body behind .lineComment := by
  induction body with
  | nil => exact .nil _ behind
  | cons c body ih =>
    rw [List.mem_cons, not_or] at hbody
    exact .cons (if_neg (Ne.symm hbody.1)) (ih hbody.2)

/-- Whether the half of a delimiter that was read does not go on in a text. -/
def Half.Ends (half : Half) (text : Text) : Prop :=
  (half = .slash → text.head? ≠ some '*') ∧ (half = .star → text.head? ≠ some '/')

theorem Half.Ends.none (text : Text) : Half.none.Ends text := ⟨nofun, nofun⟩

/-- The half of a delimiter that a character may be. -/
def Half.of (c : Char) : Half := if c = '/' then .slash else if c = '*' then .star else .none

theorem absorbComment_of_ends {half : Half} {c : Char} {text : Text} (h : half.Ends (c :: text))
    (depth : Nat) : Mode.absorbComment depth half c = .blockComment depth (.of c) := by
  obtain ⟨hslash, hstar⟩ := h
  unfold Mode.absorbComment
  split <;> simp_all [Half.of]

/-- Within a block comment all is blanked, and no delimiter is left half read. -/
theorem Comment.hides {inner behind : Text} (h : Comment inner behind) (depth : Nat) {half : Half}
    (hhalf : half.Ends (inner ++ behind)) : ∃ half' : Half, half'.Ends behind ∧
      Hides (.blockComment (depth + 1) half) inner behind (.blockComment (depth + 1) half') := by
  induction h generalizing depth half with
  | nil behind => exact ⟨half, hhalf, .nil _ behind⟩
  | @char c inner behind hopen hclose _ ih =>
    have hends : (Half.of c).Ends (inner ++ behind) := by
      refine ⟨fun hc hhead => hopen ?_, fun hc hhead => hclose ?_⟩ <;>
        obtain ⟨rest, hrest⟩ := List.head?_eq_some_iff.1 hhead <;> rw [hrest] <;>
        unfold Half.of at hc <;> split_ifs at hc with hslash hstar
      · exact ⟨rest, by rw [hslash]; rfl⟩
      · exact ⟨rest, by rw [hstar]; rfl⟩
    obtain ⟨half', hhalf', hides⟩ := ih depth hends
    refine ⟨half', hhalf', .cons rfl ?_⟩
    rw [Mode.absorb, absorbComment_of_ends hhalf]
    exact hides
  | @nested inner rest behind _ _ ihinner ihrest =>
    obtain ⟨half₁, hhalf₁, hinner⟩ := ihinner (depth + 1) (.none _)
    obtain ⟨half₂, hhalf₂, hrest⟩ := ihrest depth (.none _)
    refine ⟨half₂, hhalf₂, .cons rfl ?_⟩
    rw [Mode.absorb, absorbComment_of_ends hhalf]
    refine .cons rfl (.append hinner (.cons rfl ?_))
    rw [Mode.absorb, absorbComment_of_ends hhalf₁]
    exact .cons rfl hrest
  | @unclosed inner _ ih =>
    obtain ⟨half', -, hinner⟩ := ih (depth + 1) (.none _)
    refine ⟨.none, .none _, .cons rfl ?_⟩
    rw [Mode.absorb, absorbComment_of_ends hhalf]
    exact .cons rfl (hinner.at_end _)

/-! ### Literals -/

section

variable {raw : Bool} {quote : Char} {content behind : Text}

theorem ne_of_isQuote (hquote : quote = '\'' ∨ quote = '"') :
    quote ≠ '\\' ∧ quote ≠ '\n' ∧ isAlnum quote = false := by
  rcases hquote with rfl | rfl <;> decide

/-- Between single delimiters all is blanked. -/
theorem Content.hides (h : Content raw quote false content behind) :
    Hides (.literal quote raw .inside) content behind (.literal quote raw .inside) := by
  induction h with
  | nil behind => exact .nil _ behind
  | escape hraw _ ih =>
    refine .cons rfl ?_
    rw [Mode.absorb, Mode.absorbSingle, if_pos ⟨rfl, hraw⟩]
    exact .cons rfl ih
  | backslash => exact .cons rfl ((Hides.nil _ []).at_end _)
  | @char c content behind hback hfeed hclose _ ih =>
    have hquote : c ≠ quote := by
      rintro rfl
      exact hclose ⟨content ++ behind, rfl⟩
    have hplain : ¬(c = '\\' ∧ raw = false) := fun hc =>
      Bool.noConfusion (hc.2.symm.trans (hback hc.1))
    refine .cons (if_neg fun hc => Bool.noConfusion (hfeed hc)) ?_
    rw [Mode.absorb, Mode.absorbSingle, if_neg hplain, if_neg hquote]
    exact ih

/-- Behind one quote the machine goes on as within a literal, unless there is
    another one. -/
theorem maskFrom_opened {text : Text} (h : text.head? ≠ some quote) :
    maskFrom (.literal quote raw .opened) text = maskFrom (.literal quote raw .inside) text := by
  cases text with
  | nil => rfl
  | cons c rest =>
    have hc : c ≠ quote := fun hc => h (congrArg some hc)
    have habsorb : (Mode.literal quote raw .opened).absorb c =
        (Mode.literal quote raw .inside).absorb c := if_neg hc
    rw [maskFrom_cons, maskFrom_cons, Mode.step, Mode.step, habsorb]
    rfl

/-- Whether a run of quotes that was read does not become a delimiter in a
    text. -/
def StaysOpen (quote : Char) (quotes : Nat) (text : Text) : Prop :=
  quotes = 0 ∨ quotes = 1 ∧ ¬[quote, quote] <+: text ∨ quotes = 2 ∧ ¬[quote] <+: text

/-- Between triple delimiters all is blanked, and no quotes are left over. -/
theorem Content.hides_triple (hquote : quote = '\'' ∨ quote = '"')
    (h : Content raw quote true content behind) {quotes : Nat}
    (hquotes : StaysOpen quote quotes (content ++ behind)) :
    ∃ quotes', StaysOpen quote quotes' behind ∧ Hides (.literal quote raw (.triple quotes)) content
      behind (.literal quote raw (.triple quotes')) := by
  induction h generalizing quotes with
  | nil behind => exact ⟨quotes, hquotes, .nil _ behind⟩
  | @escape c content behind hraw _ ih =>
    obtain ⟨quotes', hquotes', hides⟩ := ih (.inl rfl)
    refine ⟨quotes', hquotes', .cons rfl ?_⟩
    rw [Mode.absorb, Mode.absorbTriple, if_pos ⟨rfl, hraw⟩]
    exact .cons rfl hides
  | backslash => exact ⟨0, .inl rfl, .cons rfl ((Hides.nil _ []).at_end _)⟩
  | @char c content behind hback _ hclose _ ih =>
    have hplain : ¬(c = '\\' ∧ raw = false) := fun hc =>
      Bool.noConfusion (hc.2.symm.trans (hback hc.1))
    by_cases hc : c = quote
    · -- One more quote, which is not the third.
      subst hc
      have hnext : quotes ≠ 2 ∧ StaysOpen c (quotes + 1) (content ++ behind) := by
        simp only [StaysOpen, delimiter, if_true, List.cons_append, List.cons_prefix_cons, true_and,
          List.nil_prefix, not_true_eq_false, and_false, or_false] at hquotes hclose ⊢
        rcases hquotes with rfl | ⟨rfl, hquotes⟩
        · exact ⟨by decide, .inr (.inl ⟨rfl, hclose⟩)⟩
        · exact ⟨by decide, .inr (.inr ⟨rfl, hquotes⟩)⟩
      obtain ⟨quotes', hquotes', hides⟩ := ih hnext.2
      refine ⟨quotes', hquotes', .cons rfl ?_⟩
      rw [Mode.absorb, Mode.absorbTriple, if_neg hplain, if_pos rfl, if_neg hnext.1]
      exact hides
    · obtain ⟨quotes', hquotes', hides⟩ := ih (.inl rfl)
      refine ⟨quotes', hquotes', .cons rfl ?_⟩
      rw [Mode.absorb, Mode.absorbTriple, if_neg hplain, if_neg hc]
      exact hides

/-- What stands within a literal does not start with its delimiter. -/
theorem Content.head?_ne (hquote : quote = '\'' ∨ quote = '"')
    (h : Content raw quote false content behind) (hne : content ≠ []) :
    (content ++ behind).head? ≠ some quote := by
  intro hhead
  cases h with
  | nil => exact hne rfl
  | escape | backslash => exact (ne_of_isQuote hquote).1 (Option.some.inj hhead).symm
  | char _ _ hclose => exact hclose ⟨_, congrArg (· :: _) (Option.some.inj hhead).symm⟩

/-- A quote opens a literal. -/
theorem codeStep_of_quote (hquote : quote = '\'' ∨ quote = '"') (trail : Trail)
    (next : Option Char) :
    codeStep trail quote next = .literal quote (trail = .rawMark) .opened := by
  have hslash : quote ≠ '/' := by rcases hquote with rfl | rfl <;> decide
  rw [codeStep, if_neg fun h => hslash h.1, if_neg fun h => hslash h.1, if_pos hquote]

/-- The literal is raw if it is marked so. -/
theorem codeStep_quote {before : Text} (hquote : quote = '\'' ∨ quote = '"')
    (hraw : raw = true ↔ MarksRaw before) (next : Option Char) :
    codeStep (trailBehind before) quote next = .literal quote raw .opened := by
  have hmark : decide (trailBehind before = .rawMark) = raw := by
    rw [Bool.eq_iff_iff, decide_eq_true_iff, trailBehind_eq_rawMark_iff, hraw]
  rw [codeStep_of_quote hquote, hmark]

end

/-! ### Tokens -/

/-- What the mask has for a token: a plain one stays, and of another one only the
    line feeds. -/
def Token.masked (token : Token) : Text :=
  if token.kind = .plain then token.lexeme else token.lexeme.map blanked

namespace Token.Stands

variable {mode : Mode} {before behind : Text} {c quote : Char} {raw : Bool} {content : Text}

theorem resume?_eq {text : Text} (hreads : Reads mode before (c :: text)) (hc : c ≠ '\n') :
    mode.resume? c = some (trailBehind before) := by
  obtain ⟨trail, hresume, htrail⟩ := hreads c rfl
  rw [hresume, htrail.resolve_left hc]

/-- Behind a token that does not end with a letter the machine is in code. -/
theorem reads_code {lexeme : Text} (hlast : lexeme.getLast? = some c) (hc : isAlnum c = false) :
    Reads (.code .clear) (before ++ lexeme) behind := by
  refine fun d _ => ⟨.clear, rfl, .inr (trailBehind_eq_clear ?_ hc).symm⟩
  rw [List.getLast?_append, hlast, Option.some_or]

/-- A plain token opens nothing. -/
theorem codeStep_eq (hquote : c ≠ '\'' ∧ c ≠ '"') (hwhole : IsWhole ⟨.plain, [c]⟩ behind)
    (trail : Trail) : codeStep trail c behind.head? = .code (trail.next c) := by
  have hslash : c = '/' → behind.head? ≠ some '/' ∧ behind.head? ≠ some '*' :=
    fun hc => hwhole.1 (by rw [hc])
  rw [codeStep, if_neg fun h => (hslash h.1).1 h.2, if_neg fun h => (hslash h.1).2 h.2,
    if_neg (not_or.2 hquote)]

/-- A literal between single delimiters is blanked. -/
theorem hides_single (hquote : quote = '\'' ∨ quote = '"')
    (hcontent : Content raw quote false content (quote :: behind))
    (hwhole : IsWhole ⟨.literal, quote :: (content ++ [quote])⟩ behind) :
    ∃ mode', Hides (.literal quote raw .opened) (content ++ [quote]) behind mode' ∧
      Reads mode' (before ++ quote :: (content ++ [quote])) behind := by
  obtain ⟨hback, hfeed, halnum⟩ := ne_of_isQuote hquote
  have hlast : (quote :: (content ++ [quote])).getLast? = some quote := by
    rw [← List.cons_append, List.getLast?_concat]
  by_cases hne : content = []
  · subst hne
    -- The literal is empty, and no third quote follows.
    have hnext : behind.head? ≠ some quote :=
      hwhole.2 (by rcases hquote with rfl | rfl <;> decide)
    refine ⟨.literal quote raw .doubled, .cons (if_neg hfeed) ?_, fun d hd => ⟨.clear, ?_, ?_⟩⟩
    · rw [Mode.absorb, if_pos rfl]
      exact .nil _ behind
    · exact if_neg fun hquote => hnext (hd.trans (congrArg some hquote))
    · exact .inr (trailBehind_eq_clear (by rw [List.getLast?_append, hlast]; rfl) halnum).symm
  · have hinside : Hides (.literal quote raw .opened) content (quote :: behind)
        (.literal quote raw .inside) :=
      (maskFrom_opened (hcontent.head?_ne hquote hne)).trans hcontent.hides
    refine ⟨.code .clear, .append hinside (.cons (if_neg hfeed) ?_), reads_code hlast halnum⟩
    rw [Mode.absorb, Mode.absorbSingle, if_neg fun hc => hback hc.1, if_pos rfl]
    exact .nil _ behind

/-- A literal behind a single delimiter is blanked up to the end of its line. -/
theorem hides_unclosed (hquote : quote = '\'' ∨ quote = '"')
    (hcontent : Content raw quote false content behind) (hends : EndsLiteral false behind) :
    ∃ mode', Hides (.literal quote raw .opened) content behind mode' ∧
      ∀ before, Reads mode' before behind := by
  obtain ⟨-, hfeed, -⟩ := ne_of_isQuote hquote
  have hhead : (content ++ behind).head? ≠ some quote := by
    by_cases hne : content = []
    · rw [hne, List.nil_append]
      rcases hends with rfl | ⟨-, hends⟩
      · nofun
      · rw [hends]
        exact fun hc => hfeed (Option.some.inj hc).symm
    · exact hcontent.head?_ne hquote hne
  refine ⟨.literal quote raw .inside, (maskFrom_opened hhead).trans hcontent.hides,
    fun _ d hd => ⟨.clear, ?_⟩⟩
  rcases hends with rfl | ⟨-, hends⟩
  · cases hd
  · obtain rfl := Option.some.inj (hd.symm.trans hends)
    exact ⟨rfl, .inl rfl⟩

/-- Two more quotes, and what stands between triple delimiters, are blanked. -/
theorem hides_triple (hquote : quote = '\'' ∨ quote = '"')
    (hcontent : Content raw quote true content behind) :
    ∃ quotes, StaysOpen quote quotes behind ∧ Hides (.literal quote raw .opened)
      (quote :: quote :: content) behind (.literal quote raw (.triple quotes)) := by
  obtain ⟨-, hfeed, -⟩ := ne_of_isQuote hquote
  obtain ⟨quotes, hquotes, hides⟩ := hcontent.hides_triple hquote (.inl rfl)
  refine ⟨quotes, hquotes, .cons (if_neg hfeed) ?_⟩
  rw [Mode.absorb, if_pos rfl]
  exact .cons (if_pos rfl) hides

/-- A triple delimiter behind which no quotes are left over ends a literal. -/
theorem hides_delimiter (hquote : quote = '\'' ∨ quote = '"') {quotes : Nat}
    (hquotes : StaysOpen quote quotes (quote :: quote :: quote :: behind)) :
    Hides (.literal quote raw (.triple quotes)) [quote, quote, quote] behind (.code .clear) := by
  obtain ⟨hback, -, -⟩ := ne_of_isQuote hquote
  have hplain : ¬(quote = '\\' ∧ raw = false) := fun hc => hback hc.1
  obtain rfl : quotes = 0 := by
    rcases hquotes with hzero | ⟨-, hopen⟩ | ⟨-, hopen⟩
    · exact hzero
    · exact absurd ⟨quote :: behind, rfl⟩ hopen
    · exact absurd ⟨quote :: quote :: behind, rfl⟩ hopen
  refine .cons rfl ?_
  rw [Mode.absorb, Mode.absorbTriple, if_neg hplain, if_pos rfl, if_neg (by decide)]
  refine .cons rfl ?_
  rw [Mode.absorb, Mode.absorbTriple, if_neg hplain, if_pos rfl, if_neg (by decide)]
  refine .cons rfl ?_
  rw [Mode.absorb, Mode.absorbTriple, if_neg hplain, if_pos rfl, if_pos rfl]
  exact .nil _ behind

/-- The step from one token to the next: the mask has what it has for the token,
    and behind it the machine reads the next character as code. -/
theorem exists_maskFrom {token : Token} (h : token.Stands before behind)
    (hwhole : token.IsWhole behind) (hreads : Reads mode before (token.lexeme ++ behind)) :
    ∃ mode', maskFrom mode (token.lexeme ++ behind) = token.masked ++ maskFrom mode' behind ∧
      Reads mode' (before ++ token.lexeme) behind := by
  cases h with
  | @plain c _ hquote =>
    obtain ⟨trail, hresume, htrail⟩ := hreads c rfl
    have hstep := codeStep_eq hquote hwhole trail
    have hshows : mode.shows c behind.head? = true := by
      rw [Mode.shows, hresume, Option.any_some, hstep]
      rfl
    refine ⟨.code (trail.next c), ?_, fun d _ => ⟨_, rfl, .inr ?_⟩⟩
    · rw [List.singleton_append, maskFrom_cons, shown, if_pos hshows, Mode.step, hresume]
      dsimp only
      rw [hstep]
      rfl
    · rw [trailBehind_concat]
      rcases htrail with rfl | rfl
      · rw [Trail.next_of_not_isAlnum (by decide), Trail.next_of_not_isAlnum (by decide)]
      · rfl
  | @lineComment body _ hbody hends =>
    refine ⟨.lineComment, ?_, fun d hd => ⟨.clear, ?_⟩⟩
    · exact Hides.opens (resume?_eq hreads (by decide)) rfl rfl
        (.cons rfl (hides_lineComment hbody behind))
    · rcases hends with rfl | hends
      · cases hd
      · obtain rfl := Option.some.inj (hd.symm.trans hends)
        exact ⟨rfl, .inl rfl⟩
  | @closedComment inner _ hinner =>
    obtain ⟨half, hhalf, hides⟩ := hinner.hides 0 (.none _)
    have hlast : ('/' :: '*' :: inner ++ ['*', '/']).getLast? = some '/' :=
      List.getLast?_append_of_ne_nil _ (List.cons_ne_nil _ _)
    refine ⟨.code .clear, ?_, reads_code hlast (by decide)⟩
    refine Hides.opens (resume?_eq hreads (by decide)) rfl rfl
      (.cons rfl (.append hides (.cons rfl ?_)))
    rw [Mode.absorb, absorbComment_of_ends hhalf]
    exact .cons rfl (.nil _ behind)
  | @openComment inner hinner =>
    obtain ⟨half, -, hides⟩ := hinner.hides 0 (.none _)
    exact ⟨_, Hides.opens (resume?_eq hreads (by decide)) rfl rfl (.cons rfl hides), .nil _ _⟩
  | @closedLiteral quote raw triple content _ hquote hraw hcontent =>
    obtain ⟨-, hfeed, halnum⟩ := ne_of_isQuote hquote
    cases triple with
    | false =>
      obtain ⟨mode', hides, hreads'⟩ := hides_single hquote hcontent hwhole
      exact ⟨mode', Hides.opens (resume?_eq hreads hfeed) (codeStep_quote hquote hraw _) rfl hides,
        hreads'⟩
    | true =>
      obtain ⟨quotes, hquotes, hides⟩ := hides_triple hquote hcontent
      have hlast : ((quote :: quote :: quote :: content) ++ [quote, quote, quote]).getLast? =
          some quote := List.getLast?_append_of_ne_nil _ (List.cons_ne_nil _ _)
      refine ⟨.code .clear, ?_, reads_code hlast halnum⟩
      exact Hides.opens (resume?_eq hreads hfeed) (codeStep_quote hquote hraw _) rfl
        (hides.append (hides_delimiter hquote hquotes))
  | @openLiteral quote raw triple content _ hquote hraw hcontent hends =>
    obtain ⟨-, hfeed, -⟩ := ne_of_isQuote hquote
    cases triple with
    | false =>
      obtain ⟨mode', hides, hreads'⟩ := hides_unclosed hquote hcontent hends
      exact ⟨mode', Hides.opens (resume?_eq hreads hfeed) (codeStep_quote hquote hraw _) rfl hides,
        hreads' _⟩
    | true =>
      obtain ⟨quotes, -, hides⟩ := hides_triple hquote hcontent
      obtain rfl : behind = [] := hends.resolve_right fun hline => Bool.noConfusion hline.1
      exact ⟨_, Hides.opens (resume?_eq hreads hfeed) (codeStep_quote hquote hraw _) rfl hides,
        .nil _ _⟩

end Token.Stands

/-! ### Texts -/

/-- The mask of a text that is cut into tokens is made of theirs. -/
theorem Segments.maskFrom_eq {before text : Text} {tokens : List Token}
    (h : Segments before tokens text) {mode : Mode} (hreads : Reads mode before text) :
    maskFrom mode text = tokens.flatMap Token.masked := by
  induction h generalizing mode with
  | nil => rfl
  | cons htoken _ ih =>
    obtain ⟨mode', hmask, hreads'⟩ := htoken.stands.exists_maskFrom htoken.isWhole hreads
    rw [hmask, List.flatMap_cons, ih hreads']

theorem Segments.masked_eq {text : Text} {tokens : List Token} (h : Segments [] tokens text) :
    text.masked = tokens.flatMap Token.masked :=
  h.maskFrom_eq fun _ _ => ⟨.clear, rfl, .inr rfl⟩

/-- Every text is cut into tokens in exactly one way, from left to right and each
    time as long as may be. They are all of it, and its mask keeps the plain ones
    and the line feeds, with a space for every other character. -/
theorem existsUnique_segments (text : Text) : (∃! tokens, Segments [] tokens text) ∧
    ∀ tokens, Segments [] tokens text → tokens.flatMap Token.lexeme = text ∧
      text.masked = tokens.flatMap Token.masked := by
  obtain ⟨tokens, htokens⟩ := exists_segments [] text
  refine ⟨⟨tokens, htokens, fun others hothers => htokens.unique hothers⟩, fun tokens h => ?_⟩
  exact ⟨h.flatMap_lexeme, h.masked_eq⟩

end EnumCompanion.Mask
