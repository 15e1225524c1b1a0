import EnumCompanion.Proofs.Declaration.Masked
import EnumCompanion.Proofs.Document.Block

/-!
# What a block covers

What is found for a name goes on from the name to the first brace behind it,
whatever stands between them, its *header*. Where the header ends the name, and
nothing ends in it, what is found is one declaration of the name; otherwise it
takes in what is not its own. Beside it only blanks of its lines are taken in.
All this holds for names of any kind.

* `Block.exists_of_findBlock?`: what is found, with its header;
* `Span.Widens`, `Block.widens_ofOffsets`: the blanks that are taken in;
* `Block.IsHeader`, `Block.IsDeclaration`: the masks of one declaration;
* `Block.findBlock?_covers`: what is found is one, if its header is one.
-/

namespace EnumCompanion

open Text Mask

namespace Block

variable {text name header block : Text} {start : Nat} {span : Span}

/-! ### Headers -/

/-- What is found in masked text, with its header: a keyword, blanks, the name,
    the header and a balanced body in braces. -/
def HasHeader (name header block : Text) : Prop :=
  ∃ keyword ∈ keywords, ∃ gap body, gap ≠ [] ∧ (∀ c ∈ gap, isBlank c = true) ∧ Balanced body ∧
    block = keyword ++ (gap ++ (name ++ (header ++ '{' :: (body ++ ['}']))))

/-- The text from the first mention of a name up to the first brace behind it. -/
def header? (masked name : Text) (start : Nat) : Option Text := do
  let mention ← first? masked name start
  let brace ← masked.seek? '{' mention.2
  return (masked.take brace).drop mention.2

/-- What is found is a block with its header, and the margins beside it. -/
theorem exists_of_findBlock? (h : findBlock? text name start = some span) :
    ∃ before block behind header, text.masked = before ++ (block ++ behind) ∧
      start ≤ before.length ∧ header? text.masked name start = some header ∧ '{' ∉ header ∧
        HasHeader name header block ∧ span = .ofOffsets text (widenedStart text before.length)
          (widenedStop text (before.length + block.length)) := by
  obtain ⟨before, mention, header, body, behind, hcut, rfl⟩ := findBlock?_eq_some_iff_cut.1 h
  obtain ⟨keyword, hkeyword, gap, hne, hgap, hmention⟩ := exists_of_mention? hcut.mention?_eq
  obtain rfl : mention = keyword ++ (gap ++ name) := by
    refine List.append_cancel_right (hmention.trans ?_)
    simp only [List.append_assoc]
  have hhere : header? text.masked name start = some header := by
    simp only [header?, hcut.first?_eq, hcut.seek?_eq, hcut.drop_take, Option.bind_eq_bind,
      Option.bind_some, Option.pure_def]
  refine ⟨before, _, behind, header, ?_, hcut.start_le, hhere, hcut.notMem_header,
    ⟨keyword, hkeyword, gap, body, hne, hgap, hcut.balanced, ?_⟩, rfl⟩
  · rw [hcut.masked_eq]
    simp
  · simp only [List.append_assoc]

theorem HasHeader.exists_cons (h : HasHeader name header block) :
    ∃ c rest, block = c :: rest ∧ isBlank c = false := by
  obtain ⟨keyword, hkeyword, gap, body, -, -, -, rfl⟩ := h
  have hletter : ∀ keyword ∈ keywords, keyword.head?.any (!isBlank ·) = true := by decide
  cases keyword with
  | nil => exact absurd hkeyword (by decide)
  | cons c keyword =>
    exact ⟨c, _, rfl, by simpa using hletter _ hkeyword⟩

theorem HasHeader.getLast? (h : HasHeader name header block) : block.getLast? = some '}' := by
  obtain ⟨keyword, -, gap, body, -, -, -, rfl⟩ := h
  simp only [← List.cons_append, ← List.append_assoc, List.getLast?_concat]

/-- A block has one header at most, if its name starts with no blank. -/
theorem HasHeader.unique {header' : Text} (hname : name.head?.any (!isBlank ·) = true)
    (h : HasHeader name header block) (h' : HasHeader name header' block)
    (hheader : '{' ∉ header) (hheader' : '{' ∉ header') : header = header' := by
  obtain ⟨keyword, hkeyword, gap, body, -, hgap, -, rfl⟩ := h
  obtain ⟨keyword', hkeyword', gap', body', -, hgap', -, heq⟩ := h'
  obtain rfl := eq_of_keywords hkeyword hkeyword' heq
  rw [List.append_cancel_left_eq] at heq
  cases name with
  | nil => exact absurd hname (by decide)
  | cons c name =>
    have hc : isBlank c = false := by simpa using hname
    have hrest := congrArg (List.dropWhile isBlank) heq
    rw [List.cons_append, List.cons_append, dropWhile_append_exact hgap (by simp [hc]),
      dropWhile_append_exact hgap' (by simp [hc]), List.cons.injEq, and_iff_right rfl,
      List.append_cancel_left_eq] at hrest
    have hline := congrArg (List.takeWhile (· != '{')) hrest
    have hsign : ∀ {header : Text}, '{' ∉ header → ∀ d ∈ header, (d != '{') = true := by
      intro header hnot d hd
      exact bne_iff_ne.2 fun hbrace => hnot (hbrace ▸ hd)
    rwa [takeWhile_append_exact (hsign hheader) (by simp),
      takeWhile_append_exact (hsign hheader') (by simp)] at hline

end Block

/-! ### Margins -/

/-- A span that takes in a part of a text from `start` to `stop`, and blanks of
    its lines if they fill them up to the part. -/
def Span.Widens (span : Span) (text : Text) (start stop : Nat) : Prop :=
  ∃ before left middle right behind, text = before ++ (left ++ (middle ++ (right ++ behind))) ∧
    start = (before ++ left).length ∧ stop = (before ++ (left ++ middle)).length ∧
      span = .ofOffsets text before.length (before ++ (left ++ (middle ++ right))).length ∧
        (∀ c ∈ left, isBlank c = true ∧ c ≠ '\n') ∧ (∀ c ∈ right, isBlank c = true ∧ c ≠ '\n') ∧
          (left = [] ∨ EndsLine before) ∧ (right = [] ∨ FollowsLine behind)

/-- A text without the blanks around it. -/
theorem Text.strip_append {left middle right : Text} {c : Char} {rest : Text}
    (hleft : ∀ c ∈ left, isBlank c = true) (hright : ∀ c ∈ right, isBlank c = true)
    (hhead : middle = c :: rest) (hc : isBlank c = false)
    (hlast : middle.getLast?.any isBlank = false) : (left ++ (middle ++ right)).strip = middle := by
  have hfront : (left ++ (middle ++ right)).dropWhile isBlank = middle ++ right :=
    dropWhile_append_exact hleft (by rw [hhead]; simpa using hc)
  rw [strip, hfront, List.reverse_append, dropWhile_append_exact, List.reverse_reverse]
  · exact fun d hd => hright d (List.mem_reverse.1 hd)
  · rwa [List.head?_reverse]

namespace Block

variable {text name header block : Text} {start : Nat} {span : Span}

/-- What is taken in beside a part. -/
theorem widens_ofOffsets {first count : Nat} (h : first + count ≤ text.length) :
    (Span.ofOffsets text (widenedStart text first) (widenedStop text (first + count))).Widens text
      first (first + count) := by
  obtain ⟨before, middle, behind, rfl, rfl, rfl⟩ := exists_parts h
  obtain ⟨wide, left, right, narrow, hmargins⟩ := exists_margins before behind
  rw [hmargins.ofOffsets_eq, hmargins.text_eq]
  refine ⟨wide, left, middle, right, narrow, by simp only [List.append_assoc], ?_, ?_, ?_,
    hmargins.left_blank, hmargins.right_blank, hmargins.endsLine, hmargins.followsLine⟩
  · rw [hmargins.before_eq]
  · rw [hmargins.before_eq]
    simp only [List.length_append]
    omega
  · rw [← List.length_append]

end Block

/-- Where a part of a text is blank, its mask is. -/
theorem Mask.isBlank_of_masked_eq {before part behind masked maskedPart maskedBehind : Text}
    (h : (before ++ (part ++ behind)).masked = masked ++ (maskedPart ++ maskedBehind))
    (hbefore : masked.length = before.length) (hpart : maskedPart.length = part.length)
    (hblank : ∀ c ∈ part, isBlank c = true) : ∀ c ∈ maskedPart, isBlank c = true := by
  have hall := forall₂_maskFrom (.code .clear) (before ++ (part ++ behind))
  rw [show maskFrom (.code .clear) (before ++ (part ++ behind)) = _ from h] at hall
  have hmiddle := List.forall₂_take part.length (List.forall₂_drop before.length hall)
  rw [List.drop_left, List.take_left, ← hbefore, List.drop_left, ← hpart, List.take_left] at hmiddle
  clear h hbefore hpart hall
  induction hmiddle with
  | nil => nofun
  | cons hshown _ ih =>
    rw [List.forall_mem_cons] at hblank ⊢
    refine ⟨?_, ih hblank.2⟩
    rcases hshown with rfl | ⟨rfl, -⟩
    exacts [hblank.1, by decide]

/-- In the mask of what a span takes in, a part that is no blank at its ends is
    found without the blanks around it. -/
theorem Span.Widens.strip_cover {span : Span} {text before part behind : Text} {c : Char}
    {rest : Text} (h : span.Widens text before.length (before.length + part.length))
    (hmasked : text.masked = before ++ (part ++ behind)) (hhead : part = c :: rest)
    (hc : isBlank c = false) (hlast : part.getLast?.any isBlank = false) :
    (span.cover text.masked).strip = part := by
  obtain ⟨wide, left, middle, right, narrow, rfl, hstart, hstop, rfl, hleft, hright, -, -⟩ := h
  have hlength := congrArg List.length hmasked
  simp only [length_masked, List.length_append] at hlength hstart hstop
  obtain ⟨maskedWide, maskedLeft, rfl, hwide⟩ :=
    exists_append_of_le (show wide.length ≤ before.length by omega)
  obtain ⟨maskedRight, maskedNarrow, rfl, hmaskedRight⟩ :=
    exists_append_of_le (show right.length ≤ behind.length by omega)
  rw [List.length_append] at hstart hstop
  have hcover : (Span.ofOffsets (wide ++ (left ++ (middle ++ (right ++ narrow)))) wide.length
      (wide ++ (left ++ (middle ++ right))).length).cover
        (wide ++ (left ++ (middle ++ (right ++ narrow)))).masked =
      maskedLeft ++ (part ++ maskedRight) := by
    have hsplit : maskedWide ++ maskedLeft ++ (part ++ (maskedRight ++ maskedNarrow)) =
        maskedWide ++ ((maskedLeft ++ (part ++ maskedRight)) ++ maskedNarrow) := by
      simp only [List.append_assoc]
    have hend : (wide ++ (left ++ (middle ++ right))).length =
        maskedWide.length + (maskedLeft ++ (part ++ maskedRight)).length := by
      simp only [List.length_append]
      omega
    rw [Span.cover, Span.ofOffsets, hmasked, hsplit, hend, ← hwide]
    exact slice_append _ _ _
  rw [hcover]
  refine strip_append (isBlank_of_masked_eq (hmasked.trans (List.append_assoc _ _ _)) hwide
      (by omega) fun d hd => (hleft d hd).1) ?_ hhead hc hlast
  have hmasked' : ((wide ++ (left ++ middle)) ++ (right ++ narrow)).masked =
      (maskedWide ++ (maskedLeft ++ part)) ++ (maskedRight ++ maskedNarrow) := by
    simpa only [List.append_assoc] using hmasked
  refine isBlank_of_masked_eq hmasked' ?_ hmaskedRight fun d hd => (hright d hd).1
  simp only [List.length_append]
  omega

/-! ### One declaration -/

namespace Block

variable {text name : Text} {start : Nat} {span : Span}

/-- Whether a character goes on with a name. -/
def goesOn (c : Char) : Bool := isWordChar c || c == '$'

/-- A text that may stand between the name of a declaration and its body: it ends
    the name, and neither ends the declaration nor starts or ends a body. -/
structure IsHeader (header : Text) : Prop where
  head : header.head?.any goesOn = false
  signs : ∀ c ∈ header, c ≠ ';' ∧ c ≠ '{' ∧ c ≠ '}'

theorem isHeader_iff {header : Text} : IsHeader header ↔ header.head?.any goesOn = false ∧
    (header.all fun c => c != ';' && c != '{' && c != '}') = true := by
  simp only [List.all_eq_true, Bool.and_eq_true, bne_iff_ne, and_assoc]
  exact ⟨fun h => ⟨h.head, h.signs⟩, fun h => ⟨h.1, h.2⟩⟩

instance (header : Text) : Decidable (IsHeader header) := decidable_of_iff' _ isHeader_iff

/-- The mask of one declaration of a name. -/
def IsDeclaration (name block : Text) : Prop :=
  ∃ header, IsHeader header ∧ HasHeader name header block

/-- The mask of what is found has the header, and blanks around the block. -/
theorem exists_hasHeader_strip (h : findBlock? text name start = some span) :
    ∃ header first stop, header? text.masked name start = some header ∧ '{' ∉ header ∧
      HasHeader name header (span.cover text.masked).strip ∧ start ≤ first ∧
        span.Widens text first stop := by
  obtain ⟨before, block, behind, header, hmasked, hstart, hhere, hheader, hblock, rfl⟩ :=
    exists_of_findBlock? h
  have hlength := congrArg List.length hmasked
  simp only [length_masked, List.length_append] at hlength
  have hwidens := @widens_ofOffsets text before.length block.length (by omega)
  obtain ⟨c, rest, hhead, hc⟩ := hblock.exists_cons
  have hstrip := hwidens.strip_cover hmasked hhead hc (by rw [hblock.getLast?]; decide)
  exact ⟨header, _, _, hhere, hheader, by rwa [hstrip], hstart, hwidens⟩

/-- The header of a block that reads as one declaration is one, if the name starts
    with no blank. -/
theorem HasHeader.isHeader {header block : Text} (h : HasHeader name header block)
    (hheader : '{' ∉ header) (hname : name.head?.any (!isBlank ·) = true)
    (hdeclaration : IsDeclaration name block) : IsHeader header := by
  obtain ⟨header', hheader', hblock'⟩ := hdeclaration
  rwa [h.unique hname hblock' hheader fun hmem => (hheader'.signs _ hmem).2.1 rfl]

/-- What is found is one declaration of the name if a header stands behind the
    mention, and only then if the name starts with no blank. Beside it blanks are
    taken in that fill its lines. -/
theorem findBlock?_covers (h : findBlock? text name start = some span) :
    ∃ header, header? text.masked name start = some header ∧
      (IsHeader header → IsDeclaration name (span.cover text.masked).strip) ∧
        (name.head?.any (!isBlank ·) = true →
          IsDeclaration name (span.cover text.masked).strip → IsHeader header) ∧
          ∃ first stop, start ≤ first ∧ span.Widens text first stop := by
  obtain ⟨header, first, stop, hhere, hheader, hblock, hstart, hwidens⟩ := exists_hasHeader_strip h
  exact ⟨header, hhere, fun hfits => ⟨header, hfits, hblock⟩, hblock.isHeader hheader, first, stop,
    hstart, hwidens⟩

/-- A block that shares its first line with other code, with a comment that holds
    a brace. -/
def sharedLine : Text :=
  "enum S \x7b a \x7d\nint x = 1; extension SX on S \x7b // \x7d\n  \x7d  \n".toList

theorem findBlock?_covers_sharedLine : ∃ span, findBlock? sharedLine "SX".toList 12 = some span ∧
    IsDeclaration "SX".toList (span.cover sharedLine.masked).strip ∧
      ∃ first stop, 12 ≤ first ∧ span.Widens sharedLine first stop := by
  obtain ⟨span, hspan⟩ : ∃ span, findBlock? sharedLine "SX".toList 12 = some span :=
    Option.isSome_iff_exists.1 (by decide +kernel)
  obtain ⟨header, hhere, hdeclaration, -, hwidens⟩ := findBlock?_covers hspan
  have hheader : ∀ header ∈ header? sharedLine.masked "SX".toList 12, IsHeader header := by
    decide +kernel
  exact ⟨span, hspan, hdeclaration (hheader header hhere), hwidens⟩

/-- A class without a body before an enum. -/
def classBefore : Text := "class AX;\nenum B \x7bb\x7d\n".toList

/-- What is found for a class without a body is no declaration, and takes in the
    enum behind it. -/
theorem findBlock?_takes_enum : ∃ span, findBlock? classBefore "AX".toList 0 = some span ∧
    ¬IsDeclaration "AX".toList (span.cover classBefore.masked).strip ∧
      ∃ e ∈ parseAll classBefore false, ∃ place ∈ e.span,
        span.start ≤ place.start ∧ place.stop ≤ span.stop := by
  obtain ⟨span, hspan⟩ : ∃ span, findBlock? classBefore "AX".toList 0 = some span :=
    Option.isSome_iff_exists.1 (by decide +kernel)
  refine ⟨span, hspan, fun hdeclaration => ?_, ?_⟩
  · obtain ⟨header, -, -, hhere, hheader, hblock, -, -⟩ := exists_hasHeader_strip hspan
    have hnone : ∀ header ∈ header? classBefore.masked "AX".toList 0, ¬IsHeader header := by
      decide +kernel
    exact hnone header hhere (hblock.isHeader hheader (by decide) hdeclaration)
  · have hall : ∀ span ∈ findBlock? classBefore "AX".toList 0, ∃ e ∈ parseAll classBefore false,
        ∃ place ∈ e.span, span.start ≤ place.start ∧ place.stop ≤ span.stop := by
      decide +kernel
    exact hall span hspan

end Block

end EnumCompanion
