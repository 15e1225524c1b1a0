import EnumCompanion.Proofs.Code.Block

/-!
# Containers

What a request makes for an enum is a block in a container. The name of the
container is that of a type where the suffix of the operation extends names; so
it does in settings without warnings, unless it has a dollar sign.

* `Generator.find_exactly`: a request is one for an operation;
* `Generator.Makes`, `Generator.exists_makes`: what a request makes;
* `Generator.Extends`, `Generator.Extends.isTypeName`: the requests whose
  containers are called like types;
* `Generator.extends_of_warnings`: those in settings without warnings.
-/

namespace EnumCompanion

open Journal Text Mask

namespace Generator

variable {generator : Generator} {e : Enumeration} {request : Request} {container inner : Text}

/-! ### Requests -/

section

variable (hregistry : generator.registry = .builtIn)

include hregistry

/-- A request that is met is met with a default spec. -/
theorem exists_defaultSpec {spec : Spec} (h : generator.find request = .ok spec) :
    ∃ operation : Operation, operation.defaultSpec = spec := by
  rw [find, hregistry, Registry.find] at h
  cases hresolve : Registry.builtIn.resolve request with
  | error fault =>
    rw [hresolve] at h
    cases h
  | ok operation =>
    rw [hresolve, ok_bind, Registry.spec?_builtIn] at h
    exact ⟨operation, Except.ok.inj h⟩

/-- A request is met as is one for its operation. -/
theorem find_exactly {spec : Spec} (h : generator.find request = .ok spec) :
    generator.find (.exactly spec.operation) = .ok spec := by
  obtain ⟨operation, rfl⟩ := exists_defaultSpec hregistry h
  rw [Operation.operation_defaultSpec]
  exact find_eq_ok hregistry operation

end

/-! ### Blocks -/

/-- What an operation makes for an enum: a block with tame members in a
    container. -/
structure Makes (generator : Generator) (e : Enumeration) (request : Request)
    (container inner : Text) : Prop where
  containerName : generator.containerName e request = .ok container
  block : (generator.block e request).run.value = .ok (blockText container e.name inner)
  tame : Tame [] [] inner

/-- What is made for a request depends on what is known about its operation. -/
theorem Makes.congr {request' : Request} (h : generator.Makes e request container inner)
    (hfind : generator.find request = generator.find request') :
    generator.Makes e request' container inner where
  containerName := by
    rw [← h.containerName]
    simp only [Generator.containerName, suffix, hfind]
  block := by
    rw [← h.block]
    simp only [Generator.block, hfind]
  tame := h.tame

/-- What is made for an enum depends on its name and its values. -/
theorem Makes.congr_enum {e' : Enumeration} (h : generator.Makes e request container inner)
    (hname : e'.name = e.name) (hvalues : e'.values = e.values) :
    generator.Makes e' request container inner := by
  cases e
  cases e'
  obtain rfl := hname
  obtain rfl := hvalues
  exact ⟨h.containerName, h.block, h.tame⟩

/-- Every operation that is known makes a block. -/
theorem exists_makes (hregistry : generator.registry = .builtIn)
    (hknown : ∃ spec, generator.find request = .ok spec) (e : Enumeration) :
    ∃ container inner, generator.Makes e request container inner := by
  obtain ⟨spec, hspec⟩ := hknown
  have hexactly := find_exactly hregistry hspec
  obtain ⟨container, hcontainer⟩ := exists_containerName_eq_ok hregistry e spec.operation
  obtain ⟨inner, hblock, htame⟩ := exists_block_eq_ok hregistry e spec.operation hcontainer
  have hmakes : generator.Makes e (.exactly spec.operation) container inner :=
    ⟨hcontainer, hblock, htame⟩
  exact ⟨container, inner, hmakes.congr (hexactly.trans hspec.symm)⟩

/-! ### Suffixes -/

variable (generator) in
/-- A request for an operation that is known, whose suffix extends names. -/
def Extends (request : Request) : Prop :=
  ∃ suffix, generator.suffix request = .ok suffix ∧ suffix.display.all isNameChar = true

theorem Extends.exists_find (h : generator.Extends request) :
    ∃ spec, generator.find request = .ok spec := by
  obtain ⟨suffix, hsuffix, -⟩ := h
  rw [Generator.suffix] at hsuffix
  cases hfind : generator.find request with
  | ok spec => exact ⟨spec, rfl⟩
  | error fault =>
    rw [hfind] at hsuffix
    cases hsuffix

theorem Extends.isTypeName (h : generator.Extends request)
    (hcontainer : generator.containerName e request = .ok container) :
    isTypeName container = true := by
  obtain ⟨suffix, hsuffix, hall⟩ := h
  rw [containerName_eq, hsuffix] at hcontainer
  obtain rfl : e.name ++ suffix.display = container := Except.ok.inj hcontainer
  have hname := e.isTypeName_name
  generalize e.name = name at hname
  cases name with
  | nil => exact absurd hname Bool.false_ne_true
  | cons c name =>
    rw [Text.isTypeName, Bool.and_eq_true] at hname
    rw [List.cons_append, Text.isTypeName, List.all_append, hname.1, hname.2, hall]
    rfl

/-- Among suffixes without a warning none has one. -/
theorem suffixWarnings_of_mapM {suffixes : List (String × Json)}
    {warnings : List (List Settings.Warning)}
    (h : (suffixes.mapM fun (name, suffix) => Settings.suffixWarnings name suffix) = .ok warnings)
    (hnone : warnings.flatten = []) {name : String} {suffix : Json}
    (hmem : (name, suffix) ∈ suffixes) : Settings.suffixWarnings name suffix = .ok [] := by
  induction suffixes generalizing warnings with
  | nil => exact absurd hmem List.not_mem_nil
  | cons field suffixes ih =>
    rw [List.mapM_cons] at h
    obtain ⟨first, hfirst, h⟩ := exists_of_bind_eq_ok h
    obtain ⟨rest, hrest, h⟩ := exists_of_bind_eq_ok h
    obtain rfl : first :: rest = warnings := Except.ok.inj h
    obtain ⟨rfl, hnone⟩ := List.append_eq_nil_iff.1 (List.flatten_cons ▸ hnone)
    rcases List.mem_cons.1 hmem with rfl | hmem
    · exact hfirst
    · exact ih hrest hnone hmem

/-- A suffix without a warning is a name fragment. -/
theorem isNameFragment_of_extendsName {suffix : Json}
    (h : Settings.extendsName suffix = .ok true) : isNameFragment suffix.display = true := by
  cases suffix with
  | string suffix => exact Except.ok.inj h
  | null => cases h
  | bool => cases h
  | int => cases h
  | float => cases h
  | array => cases h
  | object => cases h

/-- A suffix without a warning extends names, unless it has a dollar sign. -/
theorem all_isNameChar_of_extendsName {suffix : Json} (h : Settings.extendsName suffix = .ok true)
    (hdollar : '$' ∉ suffix.display) : suffix.display.all isNameChar = true :=
  List.all_eq_true.2 fun c hc =>
    (isNameFragment_iff.1 (isNameFragment_of_extendsName h) c hc).resolve_right fun hsign =>
      hdollar (hsign ▸ hc)

theorem extendsName_of_warnings {suffix : Json} {warning : Settings.Warning}
    (h : ((Settings.extendsName suffix).map fun fits => if fits then [] else [warning]) = .ok []) :
    Settings.extendsName suffix = .ok true := by
  cases hextends : Settings.extendsName suffix with
  | error fault =>
    rw [hextends] at h
    cases h
  | ok fits =>
    rw [hextends] at h
    cases fits with
    | true => rfl
    | false => cases h

/-- In settings without warnings the suffix of every operation extends names. -/
theorem exists_extendsName_of_warnings (hregistry : generator.registry = .builtIn)
    (hwarnings : generator.settings.warnings = .ok [])
    (hknown : ∃ spec, generator.find request = .ok spec) :
    ∃ suffix, generator.suffix request = .ok suffix ∧ Settings.extendsName suffix = .ok true := by
  obtain ⟨spec, hspec⟩ := hknown
  obtain ⟨operation, rfl⟩ := exists_defaultSpec hregistry hspec
  -- Each part of the settings is without warnings.
  rw [Settings.warnings] at hwarnings
  obtain ⟨onExtension, hextension, hwarnings⟩ := exists_of_bind_eq_ok hwarnings
  obtain ⟨onSuffixes, hsuffixes, hwarnings⟩ := exists_of_bind_eq_ok hwarnings
  obtain ⟨onCustom, -, hwarnings⟩ := exists_of_bind_eq_ok hwarnings
  obtain ⟨hnone, -⟩ := List.append_eq_nil_iff.1 (Except.ok.inj hwarnings)
  obtain ⟨rfl, hnone⟩ := List.append_eq_nil_iff.1 hnone
  rw [suffix, hspec, ok_bind]
  cases hlookup : Json.lookup generator.settings.operationSuffixes
      operation.defaultSpec.operation.name with
  | some given =>
    obtain ⟨field, hfield, rfl⟩ := Option.map_eq_some_iff.1 hlookup
    have hgiven := suffixWarnings_of_mapM hsuffixes hnone (List.mem_of_find?_eq_some hfield)
    by_cases htruthy : field.2.isTruthy = true
    · rw [Settings.suffixWarnings, if_pos htruthy] at hgiven
      exact ⟨field.2, if_pos htruthy, extendsName_of_warnings hgiven⟩
    · rw [Settings.suffixWarnings, if_neg htruthy] at hgiven
      cases hgiven
  | none =>
    by_cases hoperation : operation.defaultSpec.operation = .extension
    · refine ⟨_, (if_neg Bool.false_ne_true).trans (if_pos hoperation), ?_⟩
      by_cases htruthy : generator.settings.extensionSuffix.isTruthy = true
      · rw [Settings.extensionWarnings, if_pos htruthy] at hextension
        exact extendsName_of_warnings hextension
      · rw [Settings.extensionWarnings, if_neg htruthy] at hextension
        cases hextension
    · refine ⟨_, (if_neg Bool.false_ne_true).trans (if_neg hoperation), ?_⟩
      cases operation <;> rfl

/-- In settings without warnings the suffix of every operation extends names to
    those of types, unless it has a dollar sign. -/
theorem extends_of_warnings (hregistry : generator.registry = .builtIn)
    (hwarnings : generator.settings.warnings = .ok [])
    (hknown : ∃ spec, generator.find request = .ok spec)
    (hdollar : ∀ suffix, generator.suffix request = .ok suffix → '$' ∉ suffix.display) :
    generator.Extends request := by
  obtain ⟨suffix, hsuffix, hextends⟩ := exists_extendsName_of_warnings hregistry hwarnings hknown
  exact ⟨suffix, hsuffix, all_isNameChar_of_extendsName hextends (hdollar suffix hsuffix)⟩

/-- In the default settings the suffix of every operation extends names. -/
theorem extends_default (hknown : ∃ spec, ({} : Generator).find request = .ok spec) :
    ({} : Generator).Extends request := by
  obtain ⟨spec, hspec⟩ := hknown
  obtain ⟨operation, rfl⟩ := exists_defaultSpec rfl hspec
  rw [Extends, suffix, hspec, ok_bind]
  cases operation <;> exact ⟨_, rfl, by decide⟩

end Generator

end EnumCompanion
