import EnumCompanion.Proofs.Code.Block
import EnumCompanion.Proofs.Text.Lines

/-!
# The lines of generated code

The code of an operation is a frame that does not depend on the values, and in
each section of the frame one line for each value, in order and with repetitions.
`Operation.codeLines` says which lines these are. So the lines can be read back:
as many stand in a section as there are values, and the line for a value shows
it.

* `Generator.lines_memberText`: the lines of the code of an operation;
* `Operation.codeLines_injective`: they determine the values;
* `Generator.generate_lines`: both for what a generator writes, and the name and
  the values that a block determines.
-/

namespace EnumCompanion

open Text Journal

/-! ### Lines -/

/-- The lines of lines put together are these lines. -/
theorem Text.lines_unlines {lines : List Text} (hne : lines ≠ [])
    (h : ∀ line ∈ lines, '\n' ∉ line) : Text.lines (unlines lines) = lines :=
  List.splitOn_intercalate '\n' h hne

/-- Lines that all end with a line feed. -/
theorem Text.flatMap_lineFeed {lines : List Text} (hne : lines ≠ []) :
    lines.flatMap (fun line => line ++ ['\n']) = unlines lines ++ ['\n'] := by
  obtain ⟨front, last, rfl⟩ := (List.eq_nil_or_concat' lines).resolve_left hne
  rw [unlines_append front (List.cons_ne_nil _ _), unlines, List.intercalate_singleton,
    List.flatMap_append, List.flatMap_singleton, List.append_assoc]

/-- The last character of lines is that of the last line. -/
theorem Text.getLast?_unlines_concat (front : List Text) (line : Text) (c : Char) :
    (unlines (front ++ [line ++ [c]])).getLast? = some c := by
  rw [unlines_append front (List.cons_ne_nil _ _), unlines, List.intercalate_singleton,
    ← List.append_assoc, List.getLast?_concat]

namespace Operation

/-- The line for a parameter: a type and the value. -/
def parameterText (type : String) (value : Text) : Text :=
  "    ".toList ++ type.toList ++ [' '] ++ value ++ [',']

/-- The line for an arm: the value, an arrow, and a call of the value. -/
def armText (call : String) (enumName value : Text) : Text :=
  "        ".toList ++ enumName ++ ['.'] ++ value ++ " => ".toList ++ value ++ call.toList ++ [',']

/-- The line for an entry of a map: a key and the value. -/
def entryText (key value : Text) : Text := "        ".toList ++ key ++ ": ".toList ++ value ++ [',']

/-- The line for a getter: its name, an arrow, and a comparison with the value. -/
def getterText (enumName value : Text) : Text :=
  "bool get ".toList ++ Naming.getterName value ++ " => this == ".toList ++ enumName ++ ['.'] ++
    value ++ [';']

/-- A value between quotes. -/
def quotedKey (value : Text) : Text := ['\''] ++ value ++ ['\'']

/-- The lines of a method: the signature, a line for each parameter and those of
    the last ones, the opening of the body, a line for each value in it, and its
    end. -/
def methodLines (signature : String) (parameter : Text → Text) (lastParameters : List Text)
    (opening : String) (arm : Text → Text) (values : List Text) : List Text :=
  [(signature ++ "(\x7b").toList] ++ values.map parameter ++ lastParameters ++
    ["  \x7d) =>".toList, ("      " ++ opening ++ "\x7b").toList] ++ values.map arm ++
      ["      \x7d;".toList]

/-- The lines of a method that dispatches on the value. -/
def dispatchLines (signature type : String) (lastParameters : List Text) (call : String)
    (enumName : Text) (values : List Text) : List Text :=
  methodLines signature (parameterText type) lastParameters "switch (this) " (armText call enumName)
    values

/-- The lines of the code of an operation other than the extension, where the
    map from the names of the values has certain keys. -/
def codeLines (operation : Operation) (key : Text → Text) (enumName : Text) (values : List Text) :
    List Text :=
  match operation with
  | when => dispatchLines "T when<T extends Object>" "required T Function()" [] "()" enumName values
  | maybeWhen =>
    dispatchLines "T maybeWhen<T extends Object>" "T Function()?"
      ["    required T Function() orElse,".toList] "?.call() ?? orElse()" enumName values
  | whenOrNull =>
    dispatchLines "T? whenOrNull<T extends Object?>" "T? Function()?" [] "?.call()" enumName values
  | map => dispatchLines "void map" "required void Function()" [] "()" enumName values
  | maybeMap => dispatchLines "void maybeMap" "void Function()?" [] "?.call()" enumName values
  | mapWithValues =>
    methodLines "static Map<String, T> toMapWithValues<T extends Object>"
      (parameterText "required T") [] "" (fun value => entryText (key value) value) values
  | getters =>
    match values.map (getterText enumName) with
    | [] => []
    | first :: rest => first :: rest.map (Generator.memberIndent ++ ·)
  | extension => []

end Operation

namespace Template

variable {e : Enumeration}

/-- A line that is the same for the first value as for others. -/
theorem writeEach_eq_flatMap {line : Line} {text : Text → Text} {values : List Text}
    (h : ∀ isFirst, ∀ value ∈ values,
      line.write (memberContext e) isFirst value = text value ++ ['\n']) :
    line.writeEach (memberContext e) values = values.flatMap fun value => text value ++ ['\n'] := by
  cases values with
  | nil => rfl
  | cons value values =>
    rw [Line.writeEach, List.flatMap_cons, h true value List.mem_cons_self,
      List.flatMap_congr fun other hmem => h false other (List.mem_cons_of_mem _ hmem)]

theorem write_parameterLine (type : String) (isFirst : Bool) (value : Text) :
    Line.write (parameterLine type) (memberContext e) isFirst value =
      Operation.parameterText type value ++ ['\n'] := by
  have hspace : " ".toList = [' '] := rfl
  have hend : ",\n".toList = [',', '\n'] := rfl
  simp only [Line.write, parameterLine, List.flatMap_cons, List.flatMap_nil, Piece.write, piece,
    Operation.parameterText, String.toList_append, hspace, hend, List.append_assoc,
    List.cons_append, List.nil_append]

theorem write_armLine (call : String) (isFirst : Bool) (value : Text) :
    Line.write (armLine call) (memberContext e) isFirst value =
      Operation.armText call e.name value ++ ['\n'] := by
  have hdot : ".".toList = ['.'] := rfl
  have hend : ",\n".toList = [',', '\n'] := rfl
  unfold armLine Operation.armText piece
  generalize "        ".toList = indentation
  generalize " => ".toList = arrow
  simp only [Line.write, List.flatMap_cons, List.flatMap_nil, Piece.write, memberContext,
    Option.getD_some, String.toList_append, hdot, hend, List.append_assoc, List.cons_append,
    List.nil_append]

theorem write_entryLine (isFirst : Bool) {value : Text} (hvalue : isValueName value = true) :
    Line.write [piece "        ", .literal, piece ": ", .value, piece ",\n"] (memberContext e)
      isFirst value = Operation.entryText (Operation.quotedKey value) value ++ ['\n'] := by
  have hend : ",\n".toList = [',', '\n'] := rfl
  have hliteral : value.literal = ['\''] ++ value ++ ['\''] := by
    rw [literal, literalBody_of_isNameChar (isNameChar_of_isValueName hvalue)]
    rfl
  unfold Operation.entryText Operation.quotedKey piece
  generalize "        ".toList = indentation
  generalize ": ".toList = colon
  simp only [Line.write, List.flatMap_cons, List.flatMap_nil, Piece.write, hliteral, hend,
    List.append_assoc, List.cons_append, List.nil_append]

theorem write_getterLine (isFirst : Bool) (value : Text) :
    Line.write [.indentation, piece "bool get ", .getter, piece " => this == ", .enumName,
      piece ".", .value, piece ";\n"] (memberContext e) isFirst value =
      ((if isFirst then [] else Generator.memberIndent) ++ Operation.getterText e.name value) ++
        ['\n'] := by
  have hdot : ".".toList = ['.'] := rfl
  have hend : ";\n".toList = [';', '\n'] := rfl
  unfold Operation.getterText piece
  generalize "bool get ".toList = opening
  generalize " => this == ".toList = arrow
  simp only [Line.write, List.flatMap_cons, List.flatMap_nil, Piece.write, memberContext,
    Option.getD_some, hdot, hend, List.append_assoc, List.cons_append, List.nil_append]

/-- What the template of a method writes are the lines of the method. -/
theorem write_method (signature : String) {parameter arm : Line} {lastParameter body : String}
    {parameterText armText : Text → Text} {lastParameters : List Text}
    (hparameter : ∀ isFirst, ∀ value ∈ e.values,
      parameter.write (memberContext e) isFirst value = parameterText value ++ ['\n'])
    (hlast : lastParameter.toList = lastParameters.flatMap fun line => line ++ ['\n'])
    (harm : ∀ isFirst, ∀ value ∈ e.values,
      arm.write (memberContext e) isFirst value = armText value ++ ['\n']) :
    (method signature parameter lastParameter body arm).write (memberContext e) = unlines
      (Operation.methodLines signature parameterText lastParameters body armText e.values) := by
  have hopen : "(\x7b\n".toList = "(\x7b".toList ++ ['\n'] := rfl
  have hshut : "  \x7d) =>\n      ".toList = "  \x7d) =>".toList ++ '\n' :: "      ".toList := rfl
  have hbody : "\x7b\n".toList = "\x7b".toList ++ ['\n'] := rfl
  have hvalues : (memberContext e).values.getD [] = e.values := rfl
  rw [Operation.methodLines, unlines_append _ (List.cons_ne_nil _ _), unlines,
    List.intercalate_singleton]
  simp only [method, Template.write, Section.write, frame, List.flatMap_cons, List.flatMap_nil,
    List.flatMap_append, List.flatMap_map, hvalues, writeEach_eq_flatMap hparameter,
    writeEach_eq_flatMap harm, String.toList_append, hopen, hshut, hbody, hlast,
    List.append_assoc, List.cons_append, List.nil_append, List.append_nil]

/-- What the template of getters writes are their lines, each with a line feed. -/
theorem write_getters : getters.write (memberContext e) =
    (Operation.codeLines .getters Operation.quotedKey e.name e.values).flatMap
      fun line => line ++ ['\n'] := by
  have hwrite : getters.write (memberContext e) = Line.writeEach
      [.indentation, piece "bool get ", .getter, piece " => this == ", .enumName, piece ".", .value,
        piece ";\n"] (memberContext e) e.values := List.append_nil _
  obtain ⟨value, values, hvalues⟩ := List.exists_cons_of_ne_nil e.values_ne_nil
  rw [hwrite, hvalues, Line.writeEach, write_getterLine,
    List.flatMap_congr fun other _ => write_getterLine false other]
  simp only [Operation.codeLines, List.map_cons, List.flatMap_cons, List.map_map, List.flatMap_map]
  rfl

/-- What the template of an operation writes are the lines of its code; those of
    the getters all end with a line feed. -/
theorem write_eq_unlines {operation : Operation} (h : operation ≠ .extension)
    (hgetters : operation ≠ .getters) : (ofOperation operation).write (memberContext e) =
      unlines (operation.codeLines Operation.quotedKey e.name e.values) := by
  cases operation with
  | mapWithValues =>
    exact write_method _ (fun isFirst value _ => write_parameterLine _ isFirst value) rfl
      fun isFirst value hvalue => write_entryLine isFirst (e.isValueName_values value hvalue)
  | extension => exact absurd rfl h
  | getters => exact absurd rfl hgetters
  | _ =>
    exact write_method _ (fun isFirst value _ => write_parameterLine _ isFirst value) rfl
      fun isFirst value _ => write_armLine _ isFirst value

end Template

/-! ### What the lines are made of -/

namespace Operation

variable {key : Text → Text} {enumName : Text} {values : List Text}

/-- A character of the code of an operation, but for keys. -/
def isCodeChar (c : Char) : Bool :=
  isNameChar c || c ∈ [' ', '(', ')', '{', '}', '<', '>', ',', '.', ':', ';', '?', '=']

/-- What holds for all lines of a method. -/
theorem methodLines_forall {p : Text → Prop} {signature opening : String}
    {parameter arm : Text → Text} {lastParameters : List Text}
    (hsignature : p (signature ++ "(\x7b").toList)
    (hparameter : ∀ value ∈ values, p (parameter value))
    (hlast : ∀ line ∈ lastParameters, p line) (hshut : p "  \x7d) =>".toList)
    (hopening : p ("      " ++ opening ++ "\x7b").toList) (harm : ∀ value ∈ values, p (arm value))
    (hend : p "      \x7d;".toList) :
    ∀ line ∈ methodLines signature parameter lastParameters opening arm values, p line := by
  rw [methodLines]
  simp only [List.forall_mem_append, List.forall_mem_cons, List.forall_mem_map]
  exact ⟨⟨⟨⟨⟨⟨hsignature, nofun⟩, hparameter⟩, hlast⟩, hshut, hopening, nofun⟩, harm⟩, hend, nofun⟩

section

variable {p : Char → Prop} (hcode : ∀ c, isCodeChar c = true → p c)

include hcode

theorem code_forall {text : Text} (h : text.all isCodeChar = true) : ∀ c ∈ text, p c :=
  fun c hc => hcode c (List.all_eq_true.1 h c hc)

theorem name_forall {name : Text} (h : ∀ c ∈ name, isNameChar c = true) : ∀ c ∈ name, p c :=
  fun c hc => hcode c (by rw [isCodeChar, h c hc, Bool.true_or])

theorem parameterText_forall {type : String} (htype : type.toList.all isCodeChar = true)
    {value : Text} (hvalue : ∀ c ∈ value, isNameChar c = true) :
    ∀ c ∈ parameterText type value, p c := by
  unfold parameterText
  simp only [List.forall_mem_append]
  exact ⟨⟨⟨⟨code_forall hcode (by decide), code_forall hcode htype⟩, code_forall hcode (by decide)⟩,
    name_forall hcode hvalue⟩, code_forall hcode (by decide)⟩

theorem armText_forall {call : String} (hcall : call.toList.all isCodeChar = true)
    (hname : ∀ c ∈ enumName, isNameChar c = true) {value : Text}
    (hvalue : ∀ c ∈ value, isNameChar c = true) : ∀ c ∈ armText call enumName value, p c := by
  have hvalue := name_forall hcode hvalue
  unfold armText
  simp only [List.forall_mem_append]
  exact ⟨⟨⟨⟨⟨⟨⟨code_forall hcode (by decide), name_forall hcode hname⟩,
    code_forall hcode (by decide)⟩, hvalue⟩, code_forall hcode (by decide)⟩, hvalue⟩,
    code_forall hcode hcall⟩, code_forall hcode (by decide)⟩

theorem entryText_forall {key value : Text} (hkey : ∀ c ∈ key, p c)
    (hvalue : ∀ c ∈ value, isNameChar c = true) : ∀ c ∈ entryText key value, p c := by
  unfold entryText
  simp only [List.forall_mem_append]
  exact ⟨⟨⟨⟨code_forall hcode (by decide), hkey⟩, code_forall hcode (by decide)⟩,
    name_forall hcode hvalue⟩, code_forall hcode (by decide)⟩

theorem getterText_forall (hname : ∀ c ∈ enumName, isNameChar c = true) {value : Text}
    (hvalue : ∀ c ∈ value, isNameChar c = true) : ∀ c ∈ getterText enumName value, p c := by
  have hgetter := name_forall hcode (Template.isNameChar_getterName hvalue)
  unfold getterText
  simp only [List.forall_mem_append]
  exact ⟨⟨⟨⟨⟨⟨code_forall hcode (by decide), hgetter⟩, code_forall hcode (by decide)⟩,
    name_forall hcode hname⟩, code_forall hcode (by decide)⟩, name_forall hcode hvalue⟩,
    code_forall hcode (by decide)⟩

/-- The lines of code hold no characters but those of names, of fixed texts and
    of keys. -/
theorem codeLines_forall (hname : ∀ c ∈ enumName, isNameChar c = true)
    (hvalues : ∀ value ∈ values, ∀ c ∈ value, isNameChar c = true)
    (hkey : ∀ value ∈ values, ∀ c ∈ key value, p c) (operation : Operation) :
    ∀ line ∈ operation.codeLines key enumName values, ∀ c ∈ line, p c := by
  have hmethod : ∀ {signature type opening : String} {lastParameters : List Text}
      {arm : Text → Text}, (signature ++ "(\x7b").toList.all isCodeChar = true →
      type.toList.all isCodeChar = true →
      (lastParameters.all fun line => line.all isCodeChar) = true →
      ("      " ++ opening ++ "\x7b").toList.all isCodeChar = true →
      (∀ value ∈ values, ∀ c ∈ arm value, p c) →
      ∀ line ∈ methodLines signature (parameterText type) lastParameters opening arm values,
        ∀ c ∈ line, p c :=
    fun hsignature htype hlast hopening harm => methodLines_forall (code_forall hcode hsignature)
      (fun value hvalue => parameterText_forall hcode htype (hvalues value hvalue))
      (fun line hline => code_forall hcode (List.all_eq_true.1 hlast line hline))
      (code_forall hcode (by decide)) (code_forall hcode hopening) harm
      (code_forall hcode (by decide))
  cases operation with
  | mapWithValues =>
    exact hmethod (by decide) (by decide) (by decide) (by decide) fun value hvalue =>
      entryText_forall hcode (hkey value hvalue) (hvalues value hvalue)
  | getters =>
    have hgetter : ∀ value ∈ values, ∀ c ∈ getterText enumName value, p c :=
      fun value hvalue => getterText_forall hcode hname (hvalues value hvalue)
    cases values with
    | nil => nofun
    | cons value values =>
      simp only [codeLines, List.map_cons, List.forall_mem_cons, List.forall_mem_map,
        List.forall_mem_append] at hgetter ⊢
      exact ⟨hgetter.1, fun other hother => ⟨code_forall hcode (by decide), hgetter.2 other hother⟩⟩
  | extension => nofun
  | _ =>
    exact hmethod (by decide) (by decide) (by decide) (by decide) fun value hvalue =>
      armText_forall hcode (by decide) hname (hvalues value hvalue)

end

/-- The code of an operation other than the extension has lines, and the last ends
    with a semicolon. -/
theorem exists_codeLines_eq_concat {operation : Operation} (h : operation ≠ .extension)
    (hne : values ≠ []) (key : Text → Text) (enumName : Text) : ∃ front line,
      operation.codeLines key enumName values = front ++ [line ++ [';']] := by
  cases operation with
  | extension => exact absurd rfl h
  | getters =>
    rcases List.eq_nil_or_concat' values with rfl | ⟨_ | ⟨first, middle⟩, last, rfl⟩
    · exact absurd rfl hne
    · exact ⟨[], _, rfl⟩
    · refine ⟨getterText enumName first ::
        (middle.map (getterText enumName)).map (Generator.memberIndent ++ ·),
        Generator.memberIndent ++ ("bool get ".toList ++ Naming.getterName last ++
          " => this == ".toList ++ enumName ++ ['.'] ++ last), ?_⟩
      simp only [codeLines, List.cons_append, List.map_cons, List.map_append, List.map_nil]
      rfl
  | _ => exact ⟨_, "      \x7d".toList, rfl⟩

/-! ### What the lines determine -/

theorem parameterText_injective (type : String) : Function.Injective (parameterText type) :=
  fun _ _ h => List.append_cancel_left (List.append_cancel_right h)

theorem getterText_injective (enumName : Text) : Function.Injective (getterText enumName) := by
  intro value value' h
  have hlength : ∀ value, (Naming.getterName value).length = value.length + 2 := by
    rintro (_ | ⟨c, value⟩) <;> rfl
  have h := List.append_cancel_right h
  refine (List.append_inj' h ?_).2
  have := congrArg List.length h
  simp only [List.length_append, hlength] at this
  omega

/-- The lines of a method determine the values of its parameters. -/
theorem methodLines_injective {signature opening : String} {parameter arm : Text → Text}
    {lastParameters : List Text} (hparameter : Function.Injective parameter) :
    Function.Injective (methodLines signature parameter lastParameters opening arm) := by
  intro values values' h
  have hlength := congrArg List.length h
  simp only [methodLines, List.length_append, List.length_map, List.length_cons,
    List.length_nil] at hlength
  simp only [methodLines, List.append_assoc] at h
  exact List.map_injective_iff.2 hparameter
    (List.append_inj (List.append_cancel_left h) (by simp only [List.length_map]; omega)).1

/-- The lines of code determine the values. -/
theorem codeLines_injective {operation : Operation} (h : operation ≠ .extension)
    (key : Text → Text) (enumName : Text) :
    Function.Injective (operation.codeLines key enumName) := by
  cases operation with
  | extension => exact absurd rfl h
  | getters =>
    intro values values' hlines
    cases values with
    | nil =>
      cases values' with
      | nil => rfl
      | cons value' values' => exact absurd hlines (by simp [codeLines])
    | cons value values =>
      cases values' with
      | nil => exact absurd hlines (by simp [codeLines])
      | cons value' values' =>
        simp only [codeLines, List.map_cons, List.cons.injEq] at hlines
        have hindent : Function.Injective (Generator.memberIndent ++ ·) :=
          fun _ _ => List.append_cancel_left
        rw [getterText_injective enumName hlines.1, List.map_injective_iff.2
          (getterText_injective enumName) (List.map_injective_iff.2 hindent hlines.2)]
  | _ => exact methodLines_injective (parameterText_injective _)

end Operation

/-! ### The code of an operation -/

namespace Generator

variable (e : Enumeration)

section

variable {operation : Operation} (h : operation ≠ .extension)

include h

/-- The text of the members of an operation is made of the lines of its code. -/
theorem memberText_eq : memberText e operation =
    unlines (operation.codeLines Operation.quotedKey e.name e.values) := by
  obtain ⟨front, line, hlines⟩ := Operation.exists_codeLines_eq_concat h e.values_ne_nil
    Operation.quotedKey e.name
  have hlast := getLast?_unlines_concat front line ';'
  rw [← hlines, List.getLast?_eq_some_iff] at hlast
  obtain ⟨text, htext⟩ := hlast
  have htrim : withoutFinalLineFeeds (unlines (operation.codeLines Operation.quotedKey e.name
      e.values)) = unlines (operation.codeLines Operation.quotedKey e.name e.values) := by
    rw [htext, withoutFinalLineFeeds_concat (by decide)]
  rw [memberText]
  by_cases hgetters : operation = .getters
  · subst hgetters
    have hne : Operation.codeLines .getters Operation.quotedKey e.name e.values ≠ [] := by
      rw [hlines]
      exact List.append_ne_nil_of_right_ne_nil _ (List.cons_ne_nil _ _)
    have hwrite : (Template.ofOperation .getters).write (Template.memberContext e) =
        Template.getters.write (Template.memberContext e) := rfl
    rw [hwrite, Template.write_getters, flatMap_lineFeed hne, withoutFinalLineFeeds_lineFeed, htrim]
  · rw [Template.write_eq_unlines h hgetters, htrim]

/-- The text of the members of an operation has these lines. -/
theorem lines_memberText : (memberText e operation).lines =
    operation.codeLines Operation.quotedKey e.name e.values := by
  obtain ⟨front, line, hlines⟩ := Operation.exists_codeLines_eq_concat h e.values_ne_nil
    Operation.quotedKey e.name
  rw [memberText_eq e h]
  refine lines_unlines ?_ ?_
  · rw [hlines]
    exact List.append_ne_nil_of_right_ne_nil _ (List.cons_ne_nil _ _)
  · have hletters : ∀ {c : Char}, isNameChar c = true → c ≠ '\n' := by
      rintro c hc rfl
      exact absurd hc (by decide)
    intro line hline hfeed
    refine Operation.codeLines_forall (p := (· ≠ '\n')) ?_ (isNameChar_of_isTypeName
      e.isTypeName_name) (fun value hvalue => isNameChar_of_isValueName
      (e.isValueName_values value hvalue)) ?_ operation line hline '\n' hfeed rfl
    · rintro c hc rfl
      exact absurd hc (by decide)
    · intro value hvalue c hc
      have hvalue := isNameChar_of_isValueName (e.isValueName_values value hvalue)
      rcases List.mem_append.1 hc with hc | hc
      · rcases List.mem_append.1 hc with hc | hc
        · rw [List.mem_singleton.1 hc]
          decide
        · exact hletters (hvalue c hc)
      · rw [List.mem_singleton.1 hc]
        decide

end

/-! ### What a block determines -/

/-- A fixed text with a space behind it does not start with a run of other
    characters and the fixed text again. -/
theorem eq_nil_of_append {fixed run behind rest : Text} (hrun : ∀ c ∈ run, c ≠ ' ')
    (heq : fixed ++ ' ' :: behind = run ++ (fixed ++ rest)) : run = [] := by
  -- The run in front of the first space is as long as that of the fixed text alone.
  have hshort : (fixed ++ ' ' :: behind).takeWhile (· != ' ') = fixed.takeWhile (· != ' ') := by
    rw [List.takeWhile_append]
    split_ifs with hall
    · rw [(List.takeWhile_prefix _).eq_of_length hall, List.takeWhile_cons_of_neg (by decide),
        List.append_nil]
    · rfl
  have hlong : fixed.takeWhile (· != ' ') <+: (fixed ++ rest).takeWhile (· != ' ') := by
    rw [List.takeWhile_append]
    split_ifs with hall
    · rw [(List.takeWhile_prefix _).eq_of_length hall]
      exact List.prefix_append _ _
    · exact List.prefix_rfl
  have hlength := congrArg (fun text => (List.takeWhile (· != ' ') text).length) heq
  rw [hshort, List.takeWhile_append_of_pos (by simpa using hrun), List.length_append] at hlength
  have := hlong.length_le
  exact List.eq_nil_of_length_eq_zero (by omega)

/-- The head of a block determines the name of the enum, where the rest of the
    container's name is fixed. -/
theorem eq_of_blockHead {name name' suffix rest rest' : Text}
    (hname : ∀ c ∈ name, isNameChar c = true) (hname' : ∀ c ∈ name', isNameChar c = true)
    (heq : blockHead (name ++ suffix) name ++ rest = blockHead (name' ++ suffix) name' ++ rest') :
    name = name' := by
  have hspace : ∀ {text : Text}, (∀ c ∈ text, isNameChar c = true) → ∀ c ∈ text, c ≠ ' ' := by
    rintro text htext c hc rfl
    exact absurd (htext _ hc) (by decide)
  have hon : " on ".toList = ' ' :: ['o', 'n', ' '] := rfl
  unfold blockHead at heq
  generalize "extension ".toList = keyword at heq
  simp only [hon, List.append_assoc, List.cons_append] at heq
  have heq := List.append_cancel_left heq
  rcases List.append_eq_append_iff.1 heq with ⟨run, rfl, hrun⟩ | ⟨run, rfl, hrun⟩
  · rw [eq_nil_of_append (hspace fun c hc => hname' c (List.mem_append_right _ hc)) hrun,
      List.append_nil]
  · rw [eq_nil_of_append (hspace fun c hc => hname c (List.mem_append_right _ hc)) hrun,
      List.append_nil]

/-- The getters come first in a bundle, and end at its first empty line. -/
theorem lines_getters (members : List Text) (hne : members ≠ []) :
    (Text.lines (memberSeparator.intercalate (memberText e .getters :: members))).takeWhile
      (· ≠ []) = (memberText e .getters).lines := by
  obtain ⟨next, members, rfl⟩ := List.exists_cons_of_ne_nil hne
  have hsplit : memberSeparator.intercalate (memberText e .getters :: next :: members) =
      memberText e .getters ++ '\n' :: '\n' ::
        (memberIndent ++ memberSeparator.intercalate (next :: members)) := by
    simp [List.intercalate, memberSeparator]
  have hlines : ∀ line ∈ (memberText e .getters).lines, line ≠ [] := by
    rw [lines_memberText e (show Operation.getters ≠ .extension by decide)]
    have hgetter : ∀ value, Operation.getterText e.name value ≠ [] := fun value =>
      List.append_ne_nil_of_right_ne_nil _ (List.cons_ne_nil _ _)
    cases hvalues : e.values with
    | nil => exact absurd hvalues e.values_ne_nil
    | cons value values =>
      simp only [Operation.codeLines, List.map_cons, List.forall_mem_cons, List.forall_mem_map]
      exact ⟨hgetter value, fun other _ => List.append_ne_nil_of_right_ne_nil _ (hgetter other)⟩
  have hempty : lines ('\n' :: (memberIndent ++ memberSeparator.intercalate (next :: members))) =
      [] :: lines (memberIndent ++ memberSeparator.intercalate (next :: members)) := lines_cons _ _
  rw [hsplit, lines_append_cons, hempty, List.takeWhile_append_of_pos (by simpa using hlines),
    List.takeWhile_cons_of_neg (by simp), List.append_nil]

/-- The members of a block determine the values. -/
theorem values_eq_of_innerText {e e' : Enumeration} (hname : e.name = e'.name)
    {operation : Operation}
    (heq : innerText ((membersOf operation).map (memberText e)) =
      innerText ((membersOf operation).map (memberText e'))) : e.values = e'.values := by
  have hmembers : memberSeparator.intercalate ((membersOf operation).map (memberText e)) =
      memberSeparator.intercalate ((membersOf operation).map (memberText e')) :=
    List.append_cancel_right (List.append_cancel_left (List.cons.inj heq).2)
  have hlines : ∀ {operation : Operation}, operation ≠ .extension →
      (memberText e operation).lines = (memberText e' operation).lines → e.values = e'.values := by
    intro operation hne h
    rw [lines_memberText e hne, lines_memberText e' hne, hname] at h
    exact Operation.codeLines_injective hne _ _ h
  rw [membersOf] at hmembers
  split_ifs at hmembers with hextension
  · refine hlines (show Operation.getters ≠ .extension by decide) ?_
    rw [← lines_getters e (([.when, .maybeWhen, .whenOrNull] : List Operation).map (memberText e))
        (List.cons_ne_nil _ _),
      ← lines_getters e' (([.when, .maybeWhen, .whenOrNull] : List Operation).map (memberText e'))
        (List.cons_ne_nil _ _)]
    exact congrArg (fun text => (Text.lines text).takeWhile (· ≠ [])) hmembers
  · simp only [List.map_cons, List.map_nil, List.intercalate_singleton] at hmembers
    exact hlines hextension (congrArg Text.lines hmembers)

/-- The code of an operation is its lines, with one for each value in every
    section, and a block determines the name and the values of its enum. -/
theorem generate_lines {generator : Generator} (hregistry : generator.registry = .builtIn) :
    (∀ (e : Enumeration) (operation : Operation), operation ≠ .extension →
      ∃ code, (generator.generate e (.exactly operation)).run.value = .ok code ∧
        code.lines = operation.codeLines Operation.quotedKey e.name e.values) ∧
    ∀ (e e' : Enumeration) (operation : Operation), ∃ block block',
      (generator.block e (.exactly operation)).run.value = .ok block ∧
        (generator.block e' (.exactly operation)).run.value = .ok block' ∧
          (block = block' → e.name = e'.name ∧ e.values = e'.values) := by
  constructor
  · intro e operation h
    exact ⟨_, generate_eq_ok hregistry e h, lines_memberText e h⟩
  · intro e e' operation
    obtain ⟨suffix, hsuffix⟩ := exists_suffix_eq_ok hregistry operation
    have hcontainer : ∀ e : Enumeration,
        generator.containerName e (.exactly operation) = .ok (e.name ++ suffix.display) := by
      intro e
      rw [containerName_eq, hsuffix]
      rfl
    refine ⟨_, _, block_eq_ok hregistry e operation (hcontainer e),
      block_eq_ok hregistry e' operation (hcontainer e'), fun heq => ?_⟩
    have hname := eq_of_blockHead (isNameChar_of_isTypeName e.isTypeName_name)
      (isNameChar_of_isTypeName e'.isTypeName_name) heq
    rw [blockText, blockText, hname] at heq
    exact ⟨hname, values_eq_of_innerText hname
      (List.append_cancel_right (List.cons.inj (List.append_cancel_left heq)).2)⟩

/-- An enum that repeats the name of the fallback has a parameter and an arm for
    each occurrence, and its block is not that of the enum without the repetition. -/
theorem generate_lines_repeated :
    let twice : Enumeration := ⟨"Ask".toList, ["orElse".toList, "orElse".toList], none,
      by decide, by decide, by decide⟩
    let once : Enumeration := ⟨"Ask".toList, ["orElse".toList], none,
      by decide, by decide, by decide⟩
    (∃ code, (({} : Generator).generate twice (.exactly .maybeWhen)).run.value = .ok code ∧
      code.lines = ["T maybeWhen<T extends Object>(\x7b", "    T Function()? orElse,",
        "    T Function()? orElse,", "    required T Function() orElse,", "  \x7d) =>",
        "      switch (this) \x7b", "        Ask.orElse => orElse?.call() ?? orElse(),",
        "        Ask.orElse => orElse?.call() ?? orElse(),", "      \x7d;"].map String.toList) ∧
      ∃ block block', (({} : Generator).block twice (.exactly .extension)).run.value = .ok block ∧
        (({} : Generator).block once (.exactly .extension)).run.value = .ok block' ∧
          block ≠ block' := by
  intro twice once
  obtain ⟨hlines, hblocks⟩ := @generate_lines {} rfl
  constructor
  · obtain ⟨code, hcode, hlines⟩ := hlines twice .maybeWhen (by decide)
    exact ⟨code, hcode, hlines.trans (by decide +kernel)⟩
  · obtain ⟨block, block', hblock, hblock', hsame⟩ := hblocks twice once .extension
    exact ⟨block, block', hblock, hblock', fun heq => absurd (hsame heq).2 (by decide)⟩

end Generator

end EnumCompanion
