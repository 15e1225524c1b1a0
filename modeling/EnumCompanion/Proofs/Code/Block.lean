import EnumCompanion.Proofs.Code.Tame
import EnumCompanion.Proofs.Journal

/-!
# Generated blocks

With the built-in registry every operation can be generated, and its code as a
block has one form: an extension with the name of the container on the enum, and
tame members.

* `Registry.find_builtIn`: all operations are registered;
* `blockText`: the text of a block;
* `Generator.memberText`, `Generator.generate_eq_ok`: the text of a member, and that
  it is the code of an operation;
* `Generator.block_eq_ok`, `Generator.exists_block_eq_ok`: the block of an operation,
  and that its members are tame.
-/

namespace EnumCompanion

open Journal Text Mask

/-! ### The built-in registry -/

theorem Registry.specs_builtIn :
    Registry.builtIn.specs = Operation.all.reverse.map Operation.defaultSpec := by
  decide +kernel

theorem Registry.spec?_builtIn (operation : Operation) :
    Registry.builtIn.spec? operation = some operation.defaultSpec := by
  rw [Registry.spec?, Registry.specs_builtIn]
  cases operation <;> rfl

/-- All operations are registered, with their default specs. -/
theorem Registry.find_builtIn (operation : Operation) :
    Registry.builtIn.find (.exactly operation) = .ok operation.defaultSpec := by
  rw [Registry.find, Registry.resolve, spec?_builtIn]
  simp [spec?_builtIn, bind, Except.bind]

theorem Operation.operation_defaultSpec (operation : Operation) :
    operation.defaultSpec.operation = operation := by
  cases operation <;> rfl

theorem Operation.routine_defaultSpec (operation : Operation) :
    operation.defaultSpec.routine = operation.routine := by
  cases operation <;> rfl

/-! ### The text of a block -/

/-- The head of a block: the extension of a name on an enum. -/
def blockHead (container enumName : Text) : Text :=
  "extension ".toList ++ (container ++ (" on ".toList ++ (enumName ++ [' '])))

/-- The text of a block: its head, and members between braces. -/
def blockText (container enumName inner : Text) : Text :=
  blockHead container enumName ++ '{' :: (inner ++ ['}'])

theorem withoutFinalLineFeeds_concat {text : Text} {c : Char} (hc : c ≠ '\n') :
    Generator.withoutFinalLineFeeds (text ++ [c]) = text ++ [c] := by
  have hdrop : (c :: text.reverse).dropWhile (· == '\n') = c :: text.reverse :=
    List.dropWhile_cons_of_neg (by simpa using hc)
  rw [Generator.withoutFinalLineFeeds, List.reverse_append, List.reverse_singleton,
    List.singleton_append, hdrop, List.reverse_cons, List.reverse_reverse]

theorem withoutFinalLineFeeds_lineFeed (text : Text) :
    Generator.withoutFinalLineFeeds (text ++ ['\n']) = Generator.withoutFinalLineFeeds text := by
  rw [Generator.withoutFinalLineFeeds, List.reverse_append, List.reverse_singleton,
    List.singleton_append, List.dropWhile_cons_of_pos (by rfl)]
  rfl

namespace Template

/-- The template of an operation other than the extension. -/
def ofOperation : Operation → Template
  | .when => when
  | .maybeWhen => maybeWhen
  | .whenOrNull => whenOrNull
  | .map => map
  | .maybeMap => maybeMap
  | .mapWithValues => mapWithValues
  | .getters => getters
  | .extension => []

theorem named?_template {operation : Operation} (h : operation ≠ .extension) :
    named? operation.defaultSpec.template = some (ofOperation operation) := by
  cases operation <;> first | rfl | exact absurd rfl h

theorem isTame_ofOperation (operation : Operation) : isTame [] (ofOperation operation) = true := by
  cases operation <;> decide +kernel

/-- What a line uses is defined where members are written. -/
theorem defines_of_mem_usesEach (e : Enumeration) {line : Line} {values : List Text}
    {unknown : Variable} (h : unknown ∈ line.usesEach values) :
    (memberContext e).defines unknown = true := by
  have hline : ∀ isFirst, unknown ∈ line.uses isFirst →
      (memberContext e).defines unknown = true := by
    intro isFirst hmem
    obtain ⟨piece, -, hpiece⟩ := List.mem_flatMap.1 hmem
    cases piece <;> cases isFirst <;> simp_all [Piece.uses, Context.defines, memberContext]
  cases values with
  | nil => exact absurd h List.not_mem_nil
  | cons value values =>
    rcases List.mem_append.1 h with hfirst | hlater
    · exact hline true hfirst
    · obtain ⟨_, -, hmem⟩ := List.mem_flatMap.1 hlater
      exact hline false hmem

/-- All that a tame template uses is defined where members are written. -/
theorem undefined?_of_isTame (e : Enumeration) {template : Template} {awaited : Text}
    (h : isTame awaited template = true) : template.undefined? (memberContext e) = none := by
  have hdefines : ∀ unknown ∈ template.uses e.values,
      (memberContext e).defines unknown = true := by
    induction template generalizing awaited with
    | nil => nofun
    | cons part template ih =>
      intro unknown hmem
      have huses : uses (part :: template) e.values =
          part.uses e.values ++ uses template e.values := List.flatMap_cons
      rw [huses, List.mem_append] at hmem
      rcases hmem with hpart | hlater
      · cases part with
        | fixed => exact absurd hpart List.not_mem_nil
        | perValue line =>
          rcases List.mem_cons.1 hpart with rfl | hline
          exacts [rfl, defines_of_mem_usesEach e hline]
        | _ => exact absurd h (by simp [isTame])
      · cases part with
        | fixed text =>
          simp only [isTame, Bool.and_eq_true, Option.any_eq_true] at h
          obtain ⟨-, awaited', -, hrest⟩ := h
          exact ih hrest unknown hlater
        | perValue line =>
          simp only [isTame, Bool.and_eq_true] at h
          exact ih h.2 unknown hlater
        | _ => exact absurd h (by simp [isTame])
  rw [undefined?, List.find?_eq_none]
  intro unknown hmem
  simpa using hdefines unknown hmem

/-- The members of an operation end with a semicolon, which one line feed may
    follow. -/
theorem write_ofOperation (e : Enumeration) {operation : Operation} (h : operation ≠ .extension) :
    ∃ text, (ofOperation operation).write (memberContext e) = text ++ [';'] ∨
      (ofOperation operation).write (memberContext e) = text ++ [';', '\n'] := by
  have hmethod : ∀ signature parameter lastParameter body line,
      ∃ text, (method signature parameter lastParameter body line).write (memberContext e) =
        text ++ [';'] := by
    intro signature parameter lastParameter body line
    have hend : "      \x7d;".toList = "      \x7d".toList ++ [';'] := rfl
    simp only [method, Template.write, List.flatMap_cons, List.flatMap_nil, List.append_nil,
      Section.write, frame, hend, ← List.append_assoc]
    exact ⟨_, rfl⟩
  have hgetters : ∃ text, getters.write (memberContext e) = text ++ [';', '\n'] := by
    obtain ⟨line, hgetters, hline⟩ : ∃ line : Line, getters = [.perValue line] ∧
        ∀ isFirst value, ∃ text,
          line.write (memberContext e) isFirst value = text ++ [';', '\n'] := by
      refine ⟨_, rfl, fun isFirst value => ?_⟩
      have hend : ";\n".toList = [';', '\n'] := rfl
      simp only [Line.write, List.flatMap_cons, List.flatMap_nil, List.append_nil, Piece.write,
        piece, hend, ← List.append_assoc]
      exact ⟨_, rfl⟩
    have hwrite : getters.write (memberContext e) = line.writeEach (memberContext e) e.values := by
      rw [hgetters, Template.write, List.flatMap_cons, List.flatMap_nil, List.append_nil]
      rfl
    obtain ⟨value, values, hvalues⟩ := List.exists_cons_of_ne_nil e.values_ne_nil
    rw [hwrite, hvalues, Line.writeEach]
    rcases List.eq_nil_or_concat values with rfl | ⟨values, last, rfl⟩
    · rw [List.flatMap_nil, List.append_nil]
      exact hline true value
    · obtain ⟨text, htext⟩ := hline false last
      rw [List.concat_eq_append, List.flatMap_append, List.flatMap_singleton, htext,
        ← List.append_assoc, ← List.append_assoc]
      exact ⟨_, rfl⟩
  cases operation
  case extension => exact absurd rfl h
  case getters => exact hgetters.imp fun _ => .inr
  all_goals exact (hmethod _ _ _ _ _).imp fun _ => .inl

/-- What the template for extensions writes. -/
theorem write_extension (context : Context) : Template.write extension context =
    blockHead (context.extensionName.getD []) (context.enumName.getD []) ++
      '{' :: ('\n' :: (context.memberIndent.getD [] ++
        ((context.memberSeparator.getD []).intercalate (context.members.getD []) ++
          ['\n', '}']))) := by
  have hopen : " \x7b\n".toList = [' ', '{', '\n'] := rfl
  have hclose : "\n\x7d".toList = ['\n', '}'] := rfl
  unfold blockHead
  -- The fixed words stay as they are.
  generalize hextension : "extension ".toList = extensionWord
  generalize hon : " on ".toList = onWord
  simp only [Template.write, extension, frame, List.flatMap_cons, List.flatMap_nil, Section.write,
    hopen, hclose, hextension, hon, List.append_assoc, List.cons_append, List.nil_append,
    List.append_nil]

end Template

namespace Generator

variable {generator : Generator} (hregistry : generator.registry = .builtIn)

include hregistry

theorem find_eq_ok (operation : Operation) :
    generator.find (.exactly operation) = .ok operation.defaultSpec := by
  rw [find, hregistry, Registry.find_builtIn]
  rfl

/-- The text that the template of an operation writes for its members. -/
def memberText (e : Enumeration) (operation : Operation) : Text :=
  withoutFinalLineFeeds ((Template.ofOperation operation).write (Template.memberContext e))

theorem member_eq_ok (e : Enumeration) {operation : Operation} (h : operation ≠ .extension) :
    generator.member e operation = .ok (memberText e operation) := by
  have hrender : Template.render operation.defaultSpec.template (Template.memberContext e) =
      .ok ((Template.ofOperation operation).write (Template.memberContext e)) := by
    rw [Template.render, Template.named?_template h]
    simp only [Template.undefined?_of_isTame e (Template.isTame_ofOperation operation)]
  rw [member, render, find_eq_ok hregistry]
  change (do
    let text ← (Template.render operation.defaultSpec.template
      (Template.memberContext e)).mapError Fault.template
    return withoutFinalLineFeeds text : Except Fault Text) = _
  rw [hrender]
  rfl

omit hregistry in
/-- The members of an operation are tame on lines of their own. -/
theorem tame_memberText (e : Enumeration) {operation : Operation} (h : operation ≠ .extension) :
    Tame [] [] (memberText e operation ++ ['\n']) := by
  have hwrite := Template.tame_write e (Template.isTame_ofOperation operation)
  rw [memberText]
  obtain ⟨text, htext | htext⟩ := Template.write_ofOperation e h
  · rw [htext, withoutFinalLineFeeds_concat (by decide), ← htext]
    exact hwrite.append (tame_of_isTameText (by decide) rfl)
  · have hsplit : text ++ [';', '\n'] = (text ++ [';']) ++ ['\n'] := by simp
    rw [htext, hsplit, withoutFinalLineFeeds_lineFeed, withoutFinalLineFeeds_concat (by decide),
      ← hsplit, ← htext]
    exact hwrite

/-- The code of an operation other than the extension is its member. -/
theorem generate_eq_ok (e : Enumeration) {operation : Operation} (h : operation ≠ .extension) :
    (generator.generate e (.exactly operation)).run.value = .ok (memberText e operation) := by
  simp [generate, routine, find_eq_ok hregistry, Operation.operation_defaultSpec,
    Operation.routine_defaultSpec, Operation.ofRoutine?_routine, h, member_eq_ok hregistry e h]

/-- What stands between the braces of a block with members. -/
def innerText (members : List Text) : Text :=
  '\n' :: (memberIndent ++ (memberSeparator.intercalate members ++ ['\n']))

/-- Members in an extension make a block. -/
theorem extensionText_eq_ok (container : Text) (e : Enumeration) (members : List Text) :
    generator.extensionText container e members =
      .ok (blockText container e.name (innerText members)) := by
  unfold innerText
  rw [extensionText, render, find_eq_ok hregistry]
  change (do
    let text ← (Template.render Operation.extension.defaultSpec.template
      { enumName := e.name, memberIndent := some memberIndent, extensionName := container,
        members, memberSeparator := some memberSeparator }).mapError Fault.template
    return withoutFinalLineFeeds text : Except Fault Text) = _
  have hnamed : Template.named? Operation.extension.defaultSpec.template =
      some Template.extension := rfl
  rw [Template.render, hnamed]
  change Except.ok (withoutFinalLineFeeds (Template.write Template.extension _)) = _
  have hsplit : ∀ text : Text, blockHead container e.name ++
      '{' :: ('\n' :: (memberIndent ++ (text ++ ['\n', '}']))) =
        blockText container e.name ('\n' :: (memberIndent ++ (text ++ ['\n']))) := by
    intro text
    rw [blockText]
    simp only [List.append_assoc, List.cons_append, List.nil_append]
  have hconcat : ∀ inner : Text, blockText container e.name inner =
      (blockHead container e.name ++ '{' :: inner) ++ ['}'] := by
    intro inner
    rw [blockText, List.append_assoc, List.cons_append]
  rw [Template.write_extension]
  simp only [Option.getD_some]
  rw [hsplit, hconcat, withoutFinalLineFeeds_concat (by decide)]

omit hregistry in
/-- The name of a container is that of the enum with a suffix. -/
theorem containerName_eq (e : Enumeration) (request : Request) :
    generator.containerName e request =
      (generator.suffix request).map fun suffix => e.name ++ suffix.display := by
  rw [containerName]
  cases generator.suffix request <;> rfl

theorem exists_suffix_eq_ok (operation : Operation) :
    ∃ suffix, generator.suffix (.exactly operation) = .ok suffix := by
  rw [suffix, find_eq_ok hregistry, ok_bind]
  dsimp only
  split_ifs <;> exact ⟨_, rfl⟩

theorem exists_containerName_eq_ok (e : Enumeration) (operation : Operation) :
    ∃ container, generator.containerName e (.exactly operation) = .ok container := by
  obtain ⟨suffix, hsuffix⟩ := exists_suffix_eq_ok hregistry operation
  rw [containerName_eq, hsuffix]
  exact ⟨_, rfl⟩

omit hregistry in
/-- Members on lines of their own are tame as a bundle. -/
theorem tame_intercalate {members : List Text} (hne : members ≠ [])
    (h : ∀ member ∈ members, Tame [] [] (member ++ ['\n'])) :
    Tame [] [] (memberSeparator.intercalate members ++ ['\n']) := by
  have hindent : Tame [] [] ('\n' :: memberIndent) := tame_of_isTameText (by decide) rfl
  induction members with
  | nil => exact absurd rfl hne
  | cons member members ih =>
    have hmember := h member List.mem_cons_self
    cases members with
    | nil => simpa [List.intercalate] using hmember
    | cons other members =>
      have hrest := ih (List.cons_ne_nil _ _) fun m hm => h m (List.mem_cons_of_mem _ hm)
      have hsplit : memberSeparator.intercalate (member :: other :: members) ++ ['\n'] =
          (member ++ ['\n']) ++ (('\n' :: memberIndent) ++
            (memberSeparator.intercalate (other :: members) ++ ['\n'])) := by
        simp [List.intercalate, memberSeparator]
      rw [hsplit]
      exact hmember.append (hindent.append hrest)

/-- The operations whose members the block of an operation holds. -/
def membersOf (operation : Operation) : List Operation :=
  if operation = .extension then bundled else [operation]

omit hregistry in
theorem ne_extension_of_mem_membersOf {operation member : Operation}
    (h : member ∈ membersOf operation) : member ≠ .extension := by
  rw [membersOf] at h
  split_ifs at h with hextension
  · rintro rfl
    exact absurd h (by decide)
  · obtain rfl := List.mem_singleton.1 h
    exact hextension

/-- Every operation is generated, and its code is a block with its members. -/
theorem block_eq_ok (e : Enumeration) (operation : Operation) {container : Text}
    (hcontainer : generator.containerName e (.exactly operation) = .ok container) :
    (generator.block e (.exactly operation)).run.value = .ok
      (blockText container e.name (innerText ((membersOf operation).map (memberText e)))) := by
  by_cases h : operation = .extension
  · subst h
    have hmember : ∀ operation ∈ bundled,
        (generator.bundleMember e operation).run.value = .ok (memberText e operation) := by
      intro operation hmem
      have hne := ne_extension_of_mem_membersOf (show operation ∈ membersOf .extension from hmem)
      simp [bundleMember, routine, find_eq_ok hregistry, Operation.operation_defaultSpec,
        Operation.routine_defaultSpec, Operation.ofRoutine?_routine, hne,
        member_eq_ok hregistry e hne]
    simp only [bundled, List.forall_mem_cons, List.not_mem_nil, false_implies, implies_true,
      and_true] at hmember
    obtain ⟨hgetters, hwhen, hmaybeWhen, hwhenOrNull⟩ := hmember
    simp [block, generate, routine, find_eq_ok hregistry, Operation.operation_defaultSpec,
      Operation.routine_defaultSpec, Operation.ofRoutine?_routine, bundle, bundled, hgetters,
      hwhen, hmaybeWhen, hwhenOrNull, hcontainer, extensionText_eq_ok hregistry, membersOf]
  · have hgenerate := generate_eq_ok hregistry e h
    simp [block, find_eq_ok hregistry, Operation.operation_defaultSpec, hgenerate, h, wrap,
      hcontainer, extensionText_eq_ok hregistry, membersOf]

omit hregistry in
/-- The members in a block are tame. -/
theorem tame_innerText (e : Enumeration) (operation : Operation) :
    Tame [] [] (innerText ((membersOf operation).map (memberText e))) := by
  have hindent : Tame [] [] ('\n' :: memberIndent) := tame_of_isTameText (by decide) rfl
  have hne : membersOf operation ≠ [] := by
    rw [membersOf]
    split_ifs <;> exact List.cons_ne_nil _ _
  refine hindent.append (tame_intercalate (List.map_eq_nil_iff.not.2 hne) fun member hmember => ?_)
  obtain ⟨operation, hmem, rfl⟩ := List.mem_map.1 hmember
  exact tame_memberText e (ne_extension_of_mem_membersOf hmem)

/-- The code of an operation is a block with tame members. -/
theorem exists_block_eq_ok (e : Enumeration) (operation : Operation) {container : Text}
    (hcontainer : generator.containerName e (.exactly operation) = .ok container) :
    ∃ inner, (generator.block e (.exactly operation)).run.value =
      .ok (blockText container e.name inner) ∧ Tame [] [] inner :=
  ⟨_, block_eq_ok hregistry e operation hcontainer, tame_innerText e operation⟩

end Generator

end EnumCompanion
