import EnumCompanion.Proofs.Document.Cover
import EnumCompanion.Proofs.Document.Regeneration
import EnumCompanion.Proofs.Document.Run

/-!
# What a run keeps

Whatever the text is, a turn of a run takes out the block that it finds, or
nothing, and puts the code of an operation there. All other text stays, and so
it does over the whole run.

* `Site.Takes`, `exists_takes_of_blockEdit`: where the edit for a block goes;
* `Generator.Puts`, `Generator.puts_of_turn`: what one turn does;
* `Generator.Patches`, `Generator.patches_of_applyOperations`: what a run does;
* `Generator.Patches.head?_eq`: nothing is put before a text.
-/

namespace EnumCompanion

open Journal Text Mask Block

/-! ### Sites of blocks -/

/-- A site of a text at which the block of a name that is looked for from a place
    on is taken out, if it is found, and nothing else. Line feeds are put around
    what goes elsewhere. -/
structure Site.Takes (site : Site) (text name : Text) (start : Nat) : Prop where
  text_eq : site.text = text
  start_le : start ≤ site.before.length
  lineFeeds : ∀ c ∈ site.lead ++ site.ending, c = '\n'
  found : ∀ span ∈ findBlock? text name start, span.start = site.before.length ∧
    span.stop = (site.before.length + site.part.length : Nat) ∧ site.lead ++ site.ending = []
  absent : findBlock? text name start = none → site.part = []

/-- What is taken in beside a part starts behind a place before the part, unless a
    blank stands there. -/
theorem Span.Widens.exists_append {span : Span} {text : Text} {start stop place : Nat}
    (h : span.Widens text start stop) (hplace : place ≤ start)
    (hlast : (text.take place).getLast?.any isBlank = false) :
    ∃ before part behind, text = before ++ (part ++ behind) ∧ place ≤ before.length ∧
      span.start = before.length ∧ span.stop = (before.length + part.length : Nat) := by
  obtain ⟨before, left, middle, right, behind, rfl, rfl, -, rfl, hleft, -, -, -⟩ := h
  refine ⟨before, left ++ (middle ++ right), behind, by simp only [List.append_assoc], ?_, rfl, ?_⟩
  · by_contra hlt
    -- Otherwise the last character before the place is one of the blanks.
    rw [List.length_append] at hplace
    obtain ⟨count, rfl⟩ : ∃ count, place = before.length + (count + 1) :=
      ⟨place - before.length - 1, by omega⟩
    rw [List.take_length_add_append, List.take_append_of_le_length (by omega),
      List.getLast?_append_of_ne_nil] at hlast
    · obtain ⟨c, hc⟩ : ∃ c, (left.take (count + 1)).getLast? = some c := by
        refine Option.isSome_iff_exists.1 (List.getLast?_isSome.2 fun hnil => ?_)
        have := congrArg List.length hnil
        rw [List.length_take_of_le (by omega)] at this
        exact absurd this (Nat.succ_ne_zero _)
      have hmem := List.mem_of_mem_take (List.mem_of_getLast? hc)
      rw [hc, Option.any_some, (hleft c hmem).1] at hlast
      exact Bool.noConfusion hlast
    · intro hnil
      have := congrArg List.length hnil
      rw [List.length_take_of_le (by omega)] at this
      exact absurd this (Nat.succ_ne_zero _)
  · simp only [Span.ofOffsets, List.length_append]

/-- The edit for a block goes where the block is found, or puts it on lines of its
    own. -/
theorem exists_takes_of_blockEdit (text name code : Text) {anchor : Nat}
    (hanchor : anchor ≤ text.length) (hlast : (text.take anchor).getLast?.any isBlank = false)
    (finalLineFeed : Bool) : ∃ site : Site, site.Takes text name anchor ∧
      blockEdit text name code anchor finalLineFeed = site.edit code := by
  cases hfind : findBlock? text name anchor with
  | some span =>
    obtain ⟨header, first, stop, -, -, -, hfirst, hwidens⟩ := exists_hasHeader_strip hfind
    obtain ⟨before, part, behind, rfl, hbefore, hstart, hstop⟩ := hwidens.exists_append hfirst hlast
    refine ⟨⟨before, part, behind, [], []⟩, ⟨rfl, hbefore, List.forall_mem_nil _,
      fun span' hspan' => ?_, fun hnone => ?_⟩, ?_⟩
    · obtain rfl := Option.some.inj (hfind.symm.trans hspan')
      exact ⟨hstart, hstop, rfl⟩
    · exact absurd (hfind.symm.trans hnone) (Option.some_ne_none _)
    · simp only [blockEdit, hfind, Site.edit, Site.patch, hstart, hstop, List.nil_append,
        List.append_nil]
  | none =>
    obtain ⟨site, hfollows, hedit⟩ := exists_site_of_insertion code hanchor finalLineFeed
    refine ⟨site, ⟨hfollows.text_eq, hfollows.place_le hanchor, hfollows.lineFeeds,
      fun span hspan => absurd (hspan.symm.trans hfind) (Option.some_ne_none _), fun _ => hfollows.part⟩, ?_⟩
    rw [blockEdit, hfind]
    exact hedit

namespace Generator

variable {generator : Generator} {text changed : Text} {t : Turn} {turns : List Turn}

/-! ### Turns -/

variable (generator) in
/-- What a turn does to a text: the code of its operation for an enum of its name
    is put where its block is found, or else on lines of its own. -/
def Puts (t : Turn) (text changed : Text) : Prop :=
  ∃ e ∈ parseAll text generator.settings.allowRepeats.isTruthy, e.name = t.name ∧
    ∃ (container code : Text) (site : Site), generator.containerName e t.request = .ok container ∧
      (generator.block e t.request).run.value = .ok code ∧
      site.Takes text container (e.anchor text) ∧ changed = site.changed code

/-- A turn that ends well puts its code into the text if there is an enum of its
    name, and else leaves the text as it is. -/
theorem puts_of_turn (hregistry : generator.registry = .builtIn)
    (hturn : generator.turn text t = .ok changed) :
    (generator.enum? text t.name = none ∧ changed = text) ∨ generator.Puts t text changed := by
  cases henum : generator.enum? text t.name with
  | none =>
    rw [turn, value_applyToEnum_cons, henum] at hturn
    exact .inl ⟨rfl, (Except.ok.inj hturn).symm⟩
  | some e =>
    right
    have hmem := List.mem_of_find?_eq_some henum
    have hname : e.name = t.name := by simpa using List.find?_some henum
    obtain ⟨spec, hspec⟩ : ∃ spec, generator.find t.request = .ok spec := by
      cases hfind : generator.find t.request with
      | ok spec => exact ⟨spec, rfl⟩
      | error fault =>
        rw [turn, value_applyToEnum_cons, henum] at hturn
        dsimp only at hturn
        rw [action, Logged.value_run_bind, Logged.value_run_liftM, hfind] at hturn
        exact absurd hturn error_ne_ok
    obtain ⟨container, inner, hmakes⟩ := exists_makes hregistry ⟨spec, hspec⟩ e
    obtain ⟨action, haction, hedits, -⟩ := hmakes.exists_action hregistry ⟨spec, hspec⟩ text
    obtain ⟨start, stop, hspans⟩ := exists_spans_of_mem_parseAll hmem
    obtain ⟨site, htakes, hedit⟩ := exists_takes_of_blockEdit text container
      (blockText container e.name inner) (e.anchor_le_length text)
      (by rw [hspans.getLast?_take_anchor]; decide) generator.settings.trailingNewline.isTruthy
    refine ⟨e, hmem, hname, container, _, site, hmakes.containerName, hmakes.block, htakes, ?_⟩
    rw [turn_of_action henum haction, hedits, hedit, ← htakes.text_eq,
      Site.applyEdits_edit] at hturn
    exact (Except.ok.inj hturn).symm

/-- Before the end of the enum nothing is changed. -/
theorem Puts.head?_eq (h : generator.Puts t text changed) : changed.head? = text.head? := by
  obtain ⟨e, hmem, -, container, code, site, -, -, htakes, rfl⟩ := h
  obtain ⟨start, stop, hspans⟩ := exists_spans_of_mem_parseAll hmem
  have hne : site.before ≠ [] := by
    intro hnil
    have hanchor := htakes.start_le
    have hlast := hspans.getLast?_take_anchor
    rw [hnil, List.length_nil, Nat.le_zero] at hanchor
    rw [hanchor] at hlast
    exact absurd hlast.symm (Option.some_ne_none _)
  rw [← htakes.text_eq, Site.text, Site.changed, List.head?_append_of_ne_nil _ hne,
    List.head?_append_of_ne_nil _ hne]

/-! ### Runs -/

variable (generator) in
/-- What the turns of a run do to a text, one after another. -/
inductive Patches : List Turn → Text → Text → Prop
  /-- No turn is left. -/
  | done (text : Text) : Patches [] text text
  /-- There is no enum of the name. -/
  | skip {t : Turn} {turns : List Turn} {text changed : Text}
      (absent : generator.enum? text t.name = none) (rest : Patches turns text changed) :
      Patches (t :: turns) text changed
  /-- The code of the operation is put into the text. -/
  | put {t : Turn} {turns : List Turn} {text between changed : Text}
      (puts : generator.Puts t text between) (rest : Patches turns between changed) :
      Patches (t :: turns) text changed

theorem patches_of_foldlM (hregistry : generator.registry = .builtIn)
    (h : turns.foldlM generator.turn text = .ok changed) :
    generator.Patches turns text changed := by
  induction turns generalizing text with
  | nil =>
    obtain rfl := Except.ok.inj h
    exact .done text
  | cons t turns ih =>
    rw [List.foldlM_cons] at h
    obtain ⟨between, hturn, hrest⟩ := exists_of_bind_eq_ok h
    obtain ⟨henum, rfl⟩ | hputs := puts_of_turn hregistry hturn
    · exact .skip henum (ih hrest)
    · exact .put hputs (ih hrest)

/-- A run that ends well patches the text, turn by turn. -/
theorem patches_of_applyOperations (hregistry : generator.registry = .builtIn)
    {requests : List Request} {only : Option (List Text)}
    (h : (generator.applyOperations text requests only).run.value = .ok changed) :
    generator.Patches (generator.turns text requests only) text changed := by
  rw [value_applyOperations] at h
  exact patches_of_foldlM hregistry h

/-- A run puts nothing before a text. -/
theorem Patches.head?_eq (h : generator.Patches turns text changed) :
    changed.head? = text.head? := by
  induction h with
  | done => rfl
  | skip _ _ ih => exact ih
  | put hputs _ ih => exact ih.trans hputs.head?_eq

end Generator

end EnumCompanion
