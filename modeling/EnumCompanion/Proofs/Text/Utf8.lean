import EnumCompanion.Proofs.Journal
import EnumCompanion.Text.LineEnds
import EnumCompanion.Text.Utf8
import Mathlib.Data.List.Basic
import Mathlib.Tactic.Common

/-!
# Bytes that are read

Bytes that are read as a text are the bytes of that text: no other bytes are read
as it. A byte below 128 stands for itself, so that carriage returns are seen in
the bytes. A text without them keeps its line ends.

* `Utf8.decode_eq_ok_iff`: the bytes that are read as a text;
* `Utf8.mem_encode_iff`: bytes that stand for themselves;
* `Text.withLineFeeds_eq_self_iff`: the texts that keep their line ends.
-/

namespace EnumCompanion

namespace Utf8

variable {position byte : Nat} {bytes rest : List Nat} {pending : Pending} {text : Text}

/-! ### One character -/

theorem exists_of_map_eq_ok {c : Char} {result : Except Fault Text}
    (h : result.map (c :: ·) = .ok text) : ∃ more, text = c :: more ∧ result = .ok more := by
  cases result with
  | error fault => exact absurd h error_ne_ok
  | ok more => exact ⟨more, (Except.ok.inj h).symm, rfl⟩

/-- Behind a character that was read in part there is a byte in range. -/
theorem exists_cons_of_pending (h : decodeFrom position (some pending) bytes = .ok text) :
    ∃ byte rest, bytes = byte :: rest ∧ pending.low ≤ byte ∧ byte ≤ pending.high := by
  cases bytes with
  | nil => exact absurd h error_ne_ok
  | cons byte rest =>
    refine ⟨byte, rest, rfl, ?_⟩
    by_contra hrange
    rw [decodeFrom, if_neg hrange] at h
    exact absurd h error_ne_ok

/-- The last byte of a character. -/
theorem exists_of_last (hfurther : pending.further = 0)
    (h : decodeFrom position (some pending) bytes = .ok text) :
    ∃ byte rest more, bytes = byte :: rest ∧ (pending.low ≤ byte ∧ byte ≤ pending.high) ∧
      text = Char.ofNat (pending.next byte).value :: more ∧
        decodeFrom (position + 1) none rest = .ok more := by
  obtain ⟨byte, rest, rfl, hrange⟩ := exists_cons_of_pending h
  rw [decodeFrom_last hrange hfurther] at h
  obtain ⟨more, rfl, hmore⟩ := exists_of_map_eq_ok h
  exact ⟨byte, rest, more, rfl, hrange, rfl, hmore⟩

/-- A byte of a character before the last one. -/
theorem exists_of_further (hfurther : pending.further ≠ 0)
    (h : decodeFrom position (some pending) bytes = .ok text) :
    ∃ byte rest, bytes = byte :: rest ∧ (pending.low ≤ byte ∧ byte ≤ pending.high) ∧
      decodeFrom (position + 1) (some (pending.next byte)) rest = .ok text := by
  obtain ⟨byte, rest, rfl, hrange⟩ := exists_cons_of_pending h
  rw [decodeFrom_further hrange hfurther] at h
  exact ⟨byte, rest, rfl, hrange, h⟩

/-- A lead byte is one of two, three or four bytes. -/
theorem range_of_lead? (h : lead? position byte = some pending) :
    (0xC2 ≤ byte ∧ byte < 0xE0) ∨ (0xE0 ≤ byte ∧ byte < 0xF0) ∨ (0xF0 ≤ byte ∧ byte < 0xF5) := by
  rw [lead?] at h
  split_ifs at h <;> omega

theorem toNat_ofNat {n : Nat} (h : n < 0xD800 ∨ 0xDFFF < n ∧ n < 0x110000) :
    (Char.ofNat n).toNat = n := by
  rw [Char.ofNat, dif_pos (show n.isValidChar from h)]
  rfl

/-- The bytes of the first character that is read are those of that character. -/
theorem exists_of_decodeFrom (h : decodeFrom position none (byte :: rest) = .ok text) :
    ∃ c more next tail, text = c :: more ∧ byte :: rest = points c.toNat ++ tail ∧
      decodeFrom next none tail = .ok more := by
  by_cases hascii : byte < 0x80
  · rw [decodeFrom_ascii hascii] at h
    obtain ⟨more, rfl, hmore⟩ := exists_of_map_eq_ok h
    refine ⟨_, more, _, rest, rfl, ?_, hmore⟩
    rw [toNat_ofNat (.inl (by omega)), points, if_pos hascii, List.singleton_append]
  cases hlead : lead? position byte with
  | none =>
    rw [decodeFrom, if_neg hascii, hlead] at h
    exact absurd h error_ne_ok
  | some pending =>
    rw [decodeFrom_lead hascii hlead] at h
    rcases range_of_lead? hlead with hbyte | hbyte | hbyte
    · obtain rfl := Option.some.inj ((lead?_two hbyte).symm.trans hlead)
      obtain ⟨second, rest, more, rfl, hsecond, rfl, hmore⟩ := exists_of_last rfl h
      refine ⟨_, more, _, rest, rfl, ?_, hmore⟩
      dsimp only [Pending.next] at hsecond ⊢
      rw [toNat_ofNat (by omega), points, if_neg (by omega), if_pos (by omega)]
      simp only [List.cons_append, List.nil_append, List.cons.injEq, and_true]
      omega
    · obtain rfl := Option.some.inj ((lead?_three hbyte).symm.trans hlead)
      obtain ⟨second, rest, rfl, hsecond, h⟩ := exists_of_further (by simp) h
      obtain ⟨third, rest, more, rfl, hthird, rfl, hmore⟩ := exists_of_last rfl h
      refine ⟨_, more, _, rest, rfl, ?_, hmore⟩
      dsimp only [Pending.next] at hsecond hthird ⊢
      have hsecond' : 0x80 ≤ second ∧ second ≤ 0xBF ∧ (byte = 0xE0 → 0xA0 ≤ second) ∧
          (byte = 0xED → second ≤ 0x9F) := by
        split_ifs at hsecond <;> omega
      rw [toNat_ofNat (by omega), points, if_neg (by omega), if_neg (by omega), if_pos (by omega)]
      simp only [List.cons_append, List.nil_append, List.cons.injEq, and_true]
      omega
    · obtain rfl := Option.some.inj ((lead?_four hbyte).symm.trans hlead)
      obtain ⟨second, rest, rfl, hsecond, h⟩ := exists_of_further (by simp) h
      obtain ⟨third, rest, rfl, hthird, h⟩ := exists_of_further (by simp [Pending.next]) h
      obtain ⟨fourth, rest, more, rfl, hfourth, rfl, hmore⟩ := exists_of_last rfl h
      refine ⟨_, more, _, rest, rfl, ?_, hmore⟩
      dsimp only [Pending.next] at hsecond hthird hfourth ⊢
      have hsecond' : 0x80 ≤ second ∧ second ≤ 0xBF ∧ (byte = 0xF0 → 0x90 ≤ second) ∧
          (byte = 0xF4 → second ≤ 0x8F) := by
        split_ifs at hsecond <;> omega
      rw [toNat_ofNat (by omega), points, if_neg (by omega), if_neg (by omega), if_neg (by omega)]
      simp only [List.cons_append, List.nil_append, List.cons.injEq, and_true]
      omega

/-! ### Texts -/

theorem eq_flatMap_of_decodeFrom (h : decodeFrom position none bytes = .ok text) :
    bytes = text.flatMap fun c => points c.toNat := by
  induction text generalizing position bytes with
  | nil =>
    cases bytes with
    | nil => rfl
    | cons byte rest =>
      obtain ⟨c, more, next, tail, hcons, -⟩ := exists_of_decodeFrom h
      exact absurd hcons.symm (List.cons_ne_nil _ _)
  | cons c text ih =>
    cases bytes with
    | nil => exact absurd (Except.ok.inj h).symm (List.cons_ne_nil _ _)
    | cons byte rest =>
      obtain ⟨c', more, next, tail, hcons, hbytes, hmore⟩ := exists_of_decodeFrom h
      obtain ⟨rfl, rfl⟩ := List.cons.inj hcons
      rw [hbytes, List.flatMap_cons, ← ih hmore]

/-- The bytes that are read as a text are those of the text. -/
theorem decode_eq_ok_iff {content : Bytes} : decode content = .ok text ↔ content = encode text := by
  constructor
  · intro h
    refine List.map_injective_iff.2 (fun a b => UInt8.toNat.inj) ?_
    rw [map_toNat_encode]
    exact eq_flatMap_of_decodeFrom h
  · rintro rfl
    exact decode_encode text

/-- The bytes below 128 in what writes a character: the character itself, if it is
    below 128. -/
theorem mem_points_iff {n : Nat} (h : byte < 0x80) : byte ∈ points n ↔ byte = n := by
  unfold points
  split_ifs <;> simp only [List.mem_cons, List.not_mem_nil, or_false] <;> omega

/-- A byte below 128 is in the bytes of a text exactly if its character is in the
    text. -/
theorem mem_encode_iff {c : Char} (h : c.toNat < 0x80) :
    UInt8.ofNat c.toNat ∈ encode text ↔ c ∈ text := by
  have hmem : UInt8.ofNat c.toNat ∈ encode text ↔ c.toNat ∈ (encode text).map UInt8.toNat := by
    have hbyte : (UInt8.ofNat c.toNat).toNat = c.toNat :=
      UInt8.toNat_ofNat_of_lt' (Nat.lt_trans h (by decide))
    have hinjective : Function.Injective UInt8.toNat := fun a b => UInt8.toNat.inj
    rw [← List.mem_map_of_injective hinjective, hbyte]
  rw [hmem, map_toNat_encode, List.mem_flatMap]
  simp only [mem_points_iff h, Char.toNat_inj, exists_eq_right']

end Utf8

namespace Text

/-- No carriage return is left in a text with line feeds for all line ends. -/
theorem notMem_withLineFeeds (text : Text) : '\r' ∉ text.withLineFeeds := by
  fun_induction withLineFeeds text with
  | case1 => exact List.not_mem_nil
  | case2 rest ih => exact List.not_mem_cons_of_ne_of_not_mem (by decide) ih
  | case3 c rest hnot ih =>
    refine List.not_mem_cons_of_ne_of_not_mem ?_ ih
    split_ifs with hc
    · decide
    · exact fun h => hc h.symm

/-- A text keeps its line ends exactly if it has no carriage return. -/
theorem withLineFeeds_eq_self_iff {text : Text} : text.withLineFeeds = text ↔ '\r' ∉ text := by
  constructor
  · intro h
    rw [← h]
    exact notMem_withLineFeeds text
  · intro h
    fun_induction withLineFeeds text with
    | case1 => rfl
    | case2 rest ih => exact absurd List.mem_cons_self h
    | case3 c rest hnot ih =>
      rw [List.mem_cons, not_or] at h
      rw [if_neg (fun hc => h.1 hc.symm), ih h.2]

end Text

end EnumCompanion
