import EnumCompanion.Code.Generator
import EnumCompanion.Declaration.Report

/-!
# Fragments

A *fragment* is the code of one operation together with the warnings on the enum
and what else is known about it. Where there is no code there is the reason, and
nothing is thrown.
-/

namespace EnumCompanion

open Journal

/-- Generated code and what is known about it. -/
structure Fragment where
  /-- The code. -/
  code : Text
  /-- The warnings on the enum. -/
  warnings : List Warning
  /-- The name of the enum. -/
  enum : Text
  /-- The operation. -/
  operation : Operation
  /-- The name of the container. -/
  container : Text
  /-- Number of values. -/
  count : Nat
  /-- Whether the enum repeats a value. -/
  hasRepeats : Bool

/-- Why there is no fragment. -/
inductive Fragment.Fault where
  /-- The source cannot be read. -/
  | unreadable (failure : Failure)
  /-- The code cannot be generated. -/
  | notGenerated (fault : Generator.Fault)

/-- The wording of the reason. -/
def Fragment.Fault.message : Fragment.Fault → String
  | unreadable failure => failure.message
  | notGenerated fault => s!"Code generation failed: {fault.message}"

namespace Generator

variable (generator : Generator)

/-- The fragment of an operation, its code a block on request. -/
def fragmentCore (e : Enumeration) (request : Request) (asBlock : Bool) :
    ExceptT Fault Logged Fragment := do
  let spec ← (generator.find request : Except Fault Spec)
  let request := Request.exactly spec.operation
  let code ← if asBlock then generator.block e request else generator.generate e request
  let container ← (generator.containerName e request : Except Fault Text)
  return {
    code, warnings := e.warnings, enum := e.name, operation := spec.operation, container,
    count := e.values.length, hasRepeats := e.hasRepeats }

/-- The record on code that cannot be generated. -/
def failureRecord (e : Enumeration) (request : Request) (fault : Fault) : Record where
  level := .warning
  source := .generator
  message := s!"Generation of {request.shown} for {e.name.str} failed: {fault.message}"

/-- The fragment of an operation, or why there is none. -/
def fragment (e : Enumeration) (request : Request) (asBlock : Bool) :
    Logged (Except Fragment.Fault Fragment) := do
  match ← (generator.fragmentCore e request asBlock).run with
  | .ok fragment => return .ok fragment
  | .error fault =>
    Logged.report [failureRecord e request fault]
    return .error (.notGenerated fault)

/-- The fragment for the first enum of a source text. -/
def fragmentOfSource (source : Text) (request : Request) (asBlock : Bool) :
    Logged (Except Fragment.Fault Fragment) := do
  match ← parseLogged source generator.settings.allowRepeats.isTruthy with
  | .ok e => generator.fragment e request asBlock
  | .error failure => return .error (.unreadable failure)

end Generator

end EnumCompanion
