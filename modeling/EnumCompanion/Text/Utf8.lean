import EnumCompanion.Text.Basic
import EnumCompanion.Text.Quoted

/-!
# UTF-8

Texts as bytes. A character is written in one to four bytes: a *lead* byte, which
tells how many follow, and bytes that continue it. Bytes are read one at a time;
behind a lead byte `Pending` says what was read and what may come next. What is
no UTF-8 is refused with the place of the bytes that are to blame.

* `encode`: the bytes of a text;
* `decode`: the text of bytes, or why there is none;
* `decode_encode`: the bytes of a text are read as that text.
-/

namespace EnumCompanion

/-- A sequence of bytes. -/
abbrev Bytes := List UInt8

namespace Utf8

/-! ### Writing -/

/-- The bytes of a character, as numbers. -/
def points (n : Nat) : List Nat :=
  if n < 0x80 then [n]
  else if n < 0x800 then [0xC0 + n / 0x40, 0x80 + n % 0x40]
  else if n < 0x10000 then [0xE0 + n / 0x1000, 0x80 + n / 0x40 % 0x40, 0x80 + n % 0x40]
  else [0xF0 + n / 0x40000, 0x80 + n / 0x1000 % 0x40, 0x80 + n / 0x40 % 0x40, 0x80 + n % 0x40]

/-- The bytes of a text. -/
def encode (text : Text) : Bytes := text.flatMap fun c => (points c.toNat).map UInt8.ofNat

/-! ### Reading -/

/-- What is wrong with a sequence of bytes. -/
inductive Flaw where
  /-- No character starts with the byte. -/
  | invalidStart
  /-- The byte after the given ones does not continue them. -/
  | invalidContinuation
  /-- The bytes end within a character. -/
  | unexpectedEnd
  deriving DecidableEq

/-- The wording of a flaw. -/
def Flaw.wording : Flaw → String
  | invalidStart => "invalid start byte"
  | invalidContinuation => "invalid continuation byte"
  | unexpectedEnd => "unexpected end of data"

/-- A flaw and the bytes that are to blame. -/
structure Fault where
  /-- What is wrong. -/
  flaw : Flaw
  /-- The place of the first of the bytes. -/
  start : Nat
  /-- Their number. -/
  count : Nat
  /-- The first of them. -/
  first : Nat
  deriving DecidableEq

/-- The wording of a fault. -/
def Fault.message (fault : Fault) : String :=
  let bytes :=
    if fault.count = 1 then
      s!"byte 0x{(Text.hexDigits 2 fault.first).str} in position {fault.start}"
    else s!"bytes in position {fault.start}-{fault.start + fault.count - 1}"
  s!"'utf-8' codec can't decode {bytes}: {fault.flaw.wording}"

/-- A character that was read in part. -/
structure Pending where
  /-- The place of its lead byte. -/
  start : Nat
  /-- Its lead byte. -/
  first : Nat
  /-- Number of bytes read. -/
  count : Nat
  /-- The bits read. -/
  value : Nat
  /-- Number of bytes to come after the next one. -/
  further : Nat
  /-- The least byte that may come next. -/
  low : Nat
  /-- The greatest byte that may come next. -/
  high : Nat

/-- What is read of a character behind its lead byte. Bytes that would write a
    number in more bytes than it needs, half a surrogate pair or a number beyond
    the last character are excluded by the range of the second byte. -/
def lead? (start byte : Nat) : Option Pending :=
  if byte < 0xC2 then none
  else if byte < 0xE0 then some ⟨start, byte, 1, byte - 0xC0, 0, 0x80, 0xBF⟩
  else if byte < 0xF0 then
    some ⟨start, byte, 1, byte - 0xE0, 1, if byte = 0xE0 then 0xA0 else 0x80,
      if byte = 0xED then 0x9F else 0xBF⟩
  else if byte < 0xF5 then
    some ⟨start, byte, 1, byte - 0xF0, 2, if byte = 0xF0 then 0x90 else 0x80,
      if byte = 0xF4 then 0x8F else 0xBF⟩
  else none

/-- The fault of a character that breaks off. -/
def Pending.fault (pending : Pending) (flaw : Flaw) : Fault :=
  ⟨flaw, pending.start, pending.count, pending.first⟩

/-- What is read of a character behind one more byte. -/
def Pending.next (pending : Pending) (byte : Nat) : Pending :=
  { pending with
    count := pending.count + 1
    value := pending.value * 0x40 + (byte - 0x80)
    further := pending.further - 1
    low := 0x80
    high := 0xBF }

/-- The text of bytes from a place on, behind a character read in part if there
    is one. -/
def decodeFrom (position : Nat) : Option Pending → List Nat → Except Fault Text
  | none, [] => .ok []
  | some pending, [] => .error (pending.fault .unexpectedEnd)
  | none, byte :: rest =>
    if byte < 0x80 then (decodeFrom (position + 1) none rest).map (Char.ofNat byte :: ·)
    else match lead? position byte with
      | some pending => decodeFrom (position + 1) (some pending) rest
      | none => .error ⟨.invalidStart, position, 1, byte⟩
  | some pending, byte :: rest =>
    if pending.low ≤ byte ∧ byte ≤ pending.high then
      if pending.further = 0 then
        (decodeFrom (position + 1) none rest).map (Char.ofNat (pending.next byte).value :: ·)
      else decodeFrom (position + 1) (some (pending.next byte)) rest
    else .error (pending.fault .invalidContinuation)

/-- The text of bytes. -/
def decode (bytes : Bytes) : Except Fault Text := decodeFrom 0 none (bytes.map UInt8.toNat)

/-! ### Reading what was written -/

theorem toNat_lt (c : Char) : c.toNat < 0x110000 := by
  have h := c.valid
  simp only [UInt32.isValidChar, Nat.isValidChar] at h
  have : c.toNat = c.val.toNat := rfl
  omega

theorem not_surrogate (c : Char) : ¬(0xD800 ≤ c.toNat ∧ c.toNat ≤ 0xDFFF) := by
  have h := c.valid
  simp only [UInt32.isValidChar, Nat.isValidChar] at h
  have : c.toNat = c.val.toNat := rfl
  omega

theorem points_lt {n : Nat} (hn : n < 0x110000) : ∀ byte ∈ points n, byte < 256 := by
  intro byte h
  unfold points at h
  split at h
  · simp only [List.mem_singleton] at h; omega
  split at h
  · simp only [List.mem_cons, List.not_mem_nil, or_false] at h; omega
  split at h <;> simp only [List.mem_cons, List.not_mem_nil, or_false] at h <;> omega

theorem map_toNat_map_ofNat {bytes : List Nat} (h : ∀ byte ∈ bytes, byte < 256) :
    (bytes.map UInt8.ofNat).map UInt8.toNat = bytes := by
  induction bytes with
  | nil => rfl
  | cons byte bytes ih =>
    rw [List.forall_mem_cons] at h
    rw [List.map_cons, List.map_cons, ih h.2, UInt8.toNat_ofNat', Nat.mod_eq_of_lt h.1]

theorem map_toNat_encode (text : Text) :
    (encode text).map UInt8.toNat = text.flatMap fun c => points c.toNat := by
  induction text with
  | nil => rfl
  | cons c rest ih =>
    rw [encode, List.flatMap_cons, List.map_append, map_toNat_map_ofNat (points_lt (toNat_lt c)),
      List.flatMap_cons, ← ih, encode]

theorem decodeFrom_ascii {position byte : Nat} {rest : List Nat} (h : byte < 0x80) :
    decodeFrom position none (byte :: rest) =
      (decodeFrom (position + 1) none rest).map (Char.ofNat byte :: ·) := by
  rw [decodeFrom, if_pos h]

theorem decodeFrom_lead {position byte : Nat} {rest : List Nat} {pending : Pending}
    (h : ¬byte < 0x80) (hlead : lead? position byte = some pending) :
    decodeFrom position none (byte :: rest) = decodeFrom (position + 1) (some pending) rest := by
  rw [decodeFrom, if_neg h, hlead]

theorem decodeFrom_further {position byte : Nat} {rest : List Nat} {pending : Pending}
    (h : pending.low ≤ byte ∧ byte ≤ pending.high) (hfurther : pending.further ≠ 0) :
    decodeFrom position (some pending) (byte :: rest) =
      decodeFrom (position + 1) (some (pending.next byte)) rest := by
  rw [decodeFrom, if_pos h, if_neg hfurther]

theorem decodeFrom_last {position byte : Nat} {rest : List Nat} {pending : Pending}
    (h : pending.low ≤ byte ∧ byte ≤ pending.high) (hfurther : pending.further = 0) :
    decodeFrom position (some pending) (byte :: rest) =
      (decodeFrom (position + 1) none rest).map
        (Char.ofNat (pending.next byte).value :: ·) := by
  rw [decodeFrom, if_pos h, if_pos hfurther]

theorem lead?_two {position byte : Nat} (h : 0xC2 ≤ byte ∧ byte < 0xE0) :
    lead? position byte = some ⟨position, byte, 1, byte - 0xC0, 0, 0x80, 0xBF⟩ := by
  rw [lead?, if_neg (by omega), if_pos h.2]

theorem lead?_three {position byte : Nat} (h : 0xE0 ≤ byte ∧ byte < 0xF0) :
    lead? position byte = some ⟨position, byte, 1, byte - 0xE0, 1,
      if byte = 0xE0 then 0xA0 else 0x80, if byte = 0xED then 0x9F else 0xBF⟩ := by
  rw [lead?, if_neg (by omega), if_neg (by omega), if_pos h.2]

theorem lead?_four {position byte : Nat} (h : 0xF0 ≤ byte ∧ byte < 0xF5) :
    lead? position byte = some ⟨position, byte, 1, byte - 0xF0, 2,
      if byte = 0xF0 then 0x90 else 0x80, if byte = 0xF4 then 0x8F else 0xBF⟩ := by
  rw [lead?, if_neg (by omega), if_neg (by omega), if_neg (by omega), if_pos h.2]

/-- The bytes of a character are read as that character. -/
theorem decodeFrom_points (position : Nat) (c : Char) (rest : List Nat) :
    ∃ next, decodeFrom position none (points c.toNat ++ rest) =
      (decodeFrom next none rest).map (c :: ·) := by
  have hlt := toNat_lt c
  have hvalid := not_surrogate c
  have hc : ∀ n, n = c.toNat → Char.ofNat n = c := fun n h => h ▸ Char.ofNat_toNat c
  generalize c.toNat = n at *
  unfold points
  split
  · next h => exact ⟨_, (decodeFrom_ascii h).trans (by rw [hc n rfl]; rfl)⟩
  split
  · refine ⟨position + 1 + 1, ?_⟩
    rw [List.cons_append, decodeFrom_lead (by omega) (lead?_two (by omega)), List.cons_append,
      decodeFrom_last ⟨by simp, by simp only; omega⟩ rfl,
      hc _ (by simp only [Pending.next]; omega), List.nil_append]
  split
  · refine ⟨position + 1 + 1 + 1, ?_⟩
    rw [List.cons_append, decodeFrom_lead (by omega) (lead?_three (by omega)), List.cons_append,
      decodeFrom_further ⟨by simp only; split <;> omega, by simp only; split <;> omega⟩
        (by simp), List.cons_append,
      decodeFrom_last ⟨by simp [Pending.next], by simp only [Pending.next]; omega⟩ rfl,
      hc _ (by simp only [Pending.next]; omega), List.nil_append]
  · refine ⟨position + 1 + 1 + 1 + 1, ?_⟩
    rw [List.cons_append, decodeFrom_lead (by omega) (lead?_four (by omega)), List.cons_append,
      decodeFrom_further ⟨by simp only; split <;> omega, by simp only; split <;> omega⟩
        (by simp), List.cons_append,
      decodeFrom_further ⟨by simp [Pending.next], by simp only [Pending.next]; omega⟩
        (by simp [Pending.next]), List.cons_append,
      decodeFrom_last ⟨by simp [Pending.next], by simp only [Pending.next]; omega⟩ rfl,
      hc _ (by simp only [Pending.next]; omega), List.nil_append]

theorem decode_encode (text : Text) : decode (encode text) = .ok text := by
  rw [decode, map_toNat_encode]
  generalize 0 = position
  induction text generalizing position with
  | nil => rfl
  | cons c rest ih =>
    rw [List.flatMap_cons]
    obtain ⟨next, h⟩ := decodeFrom_points position c (rest.flatMap fun c => points c.toNat)
    rw [h, ih next]
    rfl

end Utf8

end EnumCompanion
