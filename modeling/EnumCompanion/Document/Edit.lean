import EnumCompanion.Text.Basic

/-!
# Edits

An *edit* replaces a run of a text, or inserts where the run is empty. Several
edits are made at once: all offsets are those of the text before. They must lie
within it and must not overlap; edits at one place go in the order given.

* `Edit.firstFault?`: the first edit that does not fit behind those before it;
* `weave`: a text with fitting edits;
* `applyEdits`: a text with edits, or the one that does not fit.
-/

namespace EnumCompanion

/-- A run of a text and what replaces it. -/
structure Edit where
  /-- The first offset. -/
  start : Int
  /-- The offset after the last. -/
  stop : Int
  /-- What replaces the run. -/
  newText : Text
  deriving DecidableEq

namespace Edit

/-- Whether an edit only inserts. -/
def isInsertion (edit : Edit) : Bool := edit.start = edit.stop

/-- Order by first offset, then by the offset after the last. -/
def le (a b : Edit) : Bool := a.start < b.start || (a.start = b.start && a.stop ≤ b.stop)

/-- Edits in the order of their places. -/
def ordered (edits : List Edit) : List Edit := edits.mergeSort le

/-- The first of ordered edits that reaches before the end of the one before it,
    ends before it starts or ends behind the text. -/
def firstFault? (length : Nat) (previous : Int) : List Edit → Option Edit
  | [] => none
  | edit :: rest =>
    if edit.start < previous ∨ edit.stop < edit.start ∨ (length : Int) < edit.stop then some edit
    else firstFault? length edit.stop rest

/-- An edit that does not fit. -/
structure Fault where
  /-- The edit. -/
  edit : Edit
  deriving DecidableEq

/-- The wording of a fault. -/
def Fault.message (fault : Fault) : String :=
  s!"Invalid or overlapping edit at {fault.edit.start}-{fault.edit.stop}"

end Edit

/-- The text from a place on, with ordered edits that fit behind the place. -/
def weave (position : Nat) (text : Text) : List Edit → Text
  | [] => text
  | edit :: rest =>
    text.take (edit.start.toNat - position) ++ edit.newText ++
      weave edit.stop.toNat (text.drop (edit.stop.toNat - position)) rest

/-- A text with edits made at once. -/
def applyEdits (text : Text) (edits : List Edit) : Except Edit.Fault Text :=
  match Edit.firstFault? text.length 0 (Edit.ordered edits) with
  | some edit => .error ⟨edit⟩
  | none => .ok (weave 0 text (Edit.ordered edits))

end EnumCompanion
