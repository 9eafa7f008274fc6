import Workload.Model.Parser
import Mathlib.Data.Nat.Bitwise

/-!
# `Correctness.Utf8` — the bytes of characters

The parser writes characters in UTF-8 in two places: for a character reference, and when it converts a document
from UTF-16. Both agree with the encoding of the characters (`charBytes`).

* `referenceBytes_eq` — a reference to a character is replaced by its bytes.
* **`utf16Loop_eq`** — a text in UTF-16, of either byte order, is converted to the same text in UTF-8.
-/

namespace Workload

/-- The bytes of a character in UTF-8. -/
def charBytes (c : Char) : Text := (String.utf8EncodeChar c).map fun b => Char.ofNat b.toNat

/-! ## Head and payload -/

theorem or_of_lt {k a b : Nat} (h : b < 2 ^ k) : 2 ^ k * a ||| b = 2 ^ k * a + b :=
  (Nat.two_pow_add_eq_or_of_lt h a).symm

/-- One byte of the payload. -/
theorem payload_byte (c b : Nat) :
    byteChar (0x80 ||| (c >>> (6 * b) &&& 0x3F)) = Char.ofNat (c / 2 ^ (6 * b) % 64 + 0x80) := by
  have hmask : c >>> (6 * b) &&& 0x3F = c / 2 ^ (6 * b) % 64 := by
    rw [Nat.shiftRight_eq_div_pow]
    exact Nat.and_two_pow_sub_one_eq_mod _ 6
  have hlt : c / 2 ^ (6 * b) % 64 < 2 ^ 6 := Nat.mod_lt _ (by decide)
  have hor : 0x80 ||| c / 2 ^ (6 * b) % 64 = 0x80 + c / 2 ^ (6 * b) % 64 := or_of_lt (a := 2) hlt
  rw [byteChar, hmask, hor, Nat.mod_eq_of_lt (by omega), Nat.add_comm]

/-- The head of a sequence with `b` bytes of payload. -/
theorem head_byte {c b : Nat} (h : c / 2 ^ (6 * b) < 2 ^ (7 - b)) :
    byteChar ((0xFF <<< (7 - b)) ||| (c >>> (6 * b))) =
      Char.ofNat ((2 ^ (7 - b) * 0xFF + c / 2 ^ (6 * b)) % 256) := by
  rw [byteChar, Nat.shiftLeft_eq, Nat.shiftRight_eq_div_pow, Nat.mul_comm 0xFF, or_of_lt h]

theorem log2_eq {c b : Nat} (hlo : 2 ^ (5 * b + 1) ≤ c) (hhi : c < 2 ^ (5 * b + 6)) :
    (Nat.log2 c + 1 - 2) / 5 = b := by
  have hne : c ≠ 0 := by
    rintro rfl
    exact absurd hlo (Nat.not_le.mpr (Nat.two_pow_pos _))
  have hle := (Nat.le_log2 hne).mpr hlo
  have hlt := (Nat.log2_lt hne).mpr hhi
  omega

/-- Every byte of a character is written as `UInt8.ofNat` has it. -/
theorem ofNat_byte (n : Nat) : Char.ofNat (UInt8.ofNat n).toNat = Char.ofNat (n % 256) := by
  rw [UInt8.toNat_ofNat']

/-- The bytes of a character by the number of them. -/
theorem charBytes_cases (c : Char) : charBytes c = List.map (fun b => Char.ofNat b.toNat)
    (if c.toNat ≤ 0x7f then [UInt8.ofNat c.toNat]
    else if c.toNat ≤ 0x7ff then [UInt8.ofNat (c.toNat / 64 % 0x20 + 0xc0), UInt8.ofNat (c.toNat % 0x40 + 0x80)]
    else if c.toNat ≤ 0xffff then
      [UInt8.ofNat (c.toNat / 4096 % 0x10 + 0xe0), UInt8.ofNat (c.toNat / 64 % 0x40 + 0x80),
        UInt8.ofNat (c.toNat % 0x40 + 0x80)]
    else
      [UInt8.ofNat (c.toNat / 262144 % 0x08 + 0xf0), UInt8.ofNat (c.toNat / 4096 % 0x40 + 0x80),
        UInt8.ofNat (c.toNat / 64 % 0x40 + 0x80), UInt8.ofNat (c.toNat % 0x40 + 0x80)]) := rfl

theorem utf8Sequence_eq {c : Char} (h : 0x80 ≤ c.toNat) : utf8Sequence c.toNat = some (charBytes c) := by
  have hvalid : c.toNat < 0x110000 := by
    have hlt := c.valid
    unfold UInt32.isValidChar Nat.isValidChar at hlt
    change c.val.toNat < _
    omega
  rw [charBytes_cases, if_neg (Nat.not_le_of_lt h)]
  generalize c.toNat = n at h hvalid
  rcases Nat.lt_or_ge n 0x800 with h₁ | h₁
  · have hbits : (Nat.log2 n + 1 - 2) / 5 = 1 := log2_eq (by omega) (by omega)
    have hhead := head_byte (c := n) (b := 1) (by omega)
    rw [if_pos (by omega)]
    unfold utf8Sequence
    have h₀ : (2 ^ (7 - 1) * 0xFF + n / 2 ^ (6 * 1)) % 256 = (n / 64 % 0x20 + 0xc0) % 256 := by omega
    have h₁ : n / 2 ^ (6 * 0) % 64 + 0x80 = (n % 0x40 + 0x80) % 256 := by omega
    rw [hbits, if_neg (by decide), hhead, h₀]
    simp only [utf8Payload, payload_byte, h₁, List.map_cons, List.map_nil, ofNat_byte]
  · rcases Nat.lt_or_ge n 0x10000 with h₂ | h₂
    · have hbits : (Nat.log2 n + 1 - 2) / 5 = 2 := log2_eq (by omega) (by omega)
      have hhead := head_byte (c := n) (b := 2) (by omega)
      rw [if_neg (by omega), if_pos (by omega)]
      unfold utf8Sequence
      have h₀ : (2 ^ (7 - 2) * 0xFF + n / 2 ^ (6 * 2)) % 256 = (n / 4096 % 0x10 + 0xe0) % 256 := by omega
      have h₁ : n / 2 ^ (6 * 1) % 64 + 0x80 = (n / 64 % 0x40 + 0x80) % 256 := by omega
      have h₂ : n / 2 ^ (6 * 0) % 64 + 0x80 = (n % 0x40 + 0x80) % 256 := by omega
      rw [hbits, if_neg (by decide), hhead, h₀]
      simp only [utf8Payload, payload_byte, h₁, h₂, List.map_cons, List.map_nil, ofNat_byte]
    · have hbits : (Nat.log2 n + 1 - 2) / 5 = 3 := log2_eq (by omega) (by omega)
      have hhead := head_byte (c := n) (b := 3) (by omega)
      rw [if_neg (by omega), if_neg (by omega)]
      unfold utf8Sequence
      have h₀ : (2 ^ (7 - 3) * 0xFF + n / 2 ^ (6 * 3)) % 256 = (n / 262144 % 0x08 + 0xf0) % 256 := by omega
      have h₁ : n / 2 ^ (6 * 2) % 64 + 0x80 = (n / 4096 % 0x40 + 0x80) % 256 := by omega
      have h₂ : n / 2 ^ (6 * 1) % 64 + 0x80 = (n / 64 % 0x40 + 0x80) % 256 := by omega
      have h₃ : n / 2 ^ (6 * 0) % 64 + 0x80 = (n % 0x40 + 0x80) % 256 := by omega
      rw [hbits, if_neg (by decide), hhead, h₀]
      simp only [utf8Payload, payload_byte, h₁, h₂, h₃, List.map_cons, List.map_nil, ofNat_byte]

/-- The bytes of a character below 0x80. -/
theorem charBytes_of_lt {c : Char} (h : c.toNat < 0x80) : charBytes c = [byteChar c.toNat] := by
  rw [charBytes_cases, if_pos (Nat.le_of_lt_succ h), List.map_singleton, ofNat_byte, byteChar]

/-- **A reference to a character** is replaced by its bytes. -/
theorem referenceBytes_eq {c : Char} (h : c ≠ '\x00') : referenceBytes c.toNat = some (charBytes c) := by
  unfold referenceBytes
  by_cases hlt : c.toNat < 0x80
  · have hmod : ((c.toNat : Int) % 256).toNat = c.toNat := by omega
    have hne : c.toNat ≠ 0 := fun hzero => h (Char.toNat_inj.mp hzero)
    rw [if_pos (by omega), hmod]
    simp only [hne, if_false, charBytes_of_lt hlt]
  · rw [if_neg (by omega), Int.toNat_natCast, utf8Sequence_eq (Nat.not_lt.mp hlt)]

theorem utf8Bytes_eq (c : Char) : utf8Bytes c.toNat = charBytes c := by
  unfold utf8Bytes
  split_ifs with hlt
  · rw [charBytes_of_lt hlt]
  · rw [utf8Sequence_eq (Nat.not_lt.mp hlt), Option.getD_some]

/-! ## UTF-16 -/

/-- Two bytes, the high one first if `be`. -/
def unitBytes (be : Bool) (n : Nat) : Text :=
  if be then [byteChar (n / 256), byteChar n] else [byteChar n, byteChar (n / 256)]

/-- The bytes of a character in UTF-16: one unit, or a surrogate pair. -/
def utf16Char (be : Bool) (c : Char) : Text :=
  if c.toNat < 0x10000 then unitBytes be c.toNat
  else unitBytes be (0xD800 + (c.toNat - 0x10000) / 0x400) ++ unitBytes be (0xDC00 + (c.toNat - 0x10000) % 0x400)

/-- The mark in front of a document in UTF-16. -/
def byteOrderMark (be : Bool) : Text := unitBytes be 0xFEFF

theorem toNat_byteChar (n : Nat) : (byteChar n).toNat = n % 256 := by
  have hvalid : (n % 256).isValidChar := Or.inl (by omega)
  rw [byteChar, Char.ofNat, dif_pos hvalid]
  rfl

theorem byte_mask (n : Nat) : (byteChar n).toNat &&& 0xFF = n % 256 := by
  rw [toNat_byteChar]
  exact (Nat.and_two_pow_sub_one_eq_mod _ 8).trans (Nat.mod_mod _ _)

/-- The two bytes of a unit are put together again. -/
theorem utf16Unit_bytes (be : Bool) {n : Nat} (h : n < 0x10000) :
    ∃ a b, unitBytes be n = [a, b] ∧ utf16Unit be a b = n := by
  have hunit : (n / 256 % 256) <<< 8 ||| n % 256 = n := by
    have hlt : n % 256 < 2 ^ 8 := Nat.mod_lt _ (by decide)
    rw [Nat.shiftLeft_eq, Nat.mul_comm, or_of_lt hlt]
    omega
  cases be with
  | false => exact ⟨_, _, rfl, by rw [utf16Unit, if_neg Bool.false_ne_true, byte_mask, byte_mask, hunit]⟩
  | true => exact ⟨_, _, rfl, by rw [utf16Unit, if_pos rfl, byte_mask, byte_mask, hunit]⟩

theorem toNat_lt (c : Char) : c.toNat < 0xD800 ∨ 0xDFFF < c.toNat ∧ c.toNat < 0x110000 := c.valid

/-- The two halves of a pair are put together again. -/
theorem surrogates_eq {n : Nat} (h : n < 0x100000) :
    (((0xD800 + n / 0x400) &&& 0x3FF) <<< 10) ||| ((0xDC00 + n % 0x400) &&& 0x3FF) = n := by
  have hmask : ∀ m : Nat, m &&& 0x3FF = m % 2 ^ 10 := fun m => Nat.and_two_pow_sub_one_eq_mod m 10
  rw [hmask, hmask, Nat.shiftLeft_eq, Nat.mul_comm, or_of_lt (Nat.mod_lt _ (by decide))]
  omega

theorem utf16Loop_char (be : Bool) (c : Char) (s : Text) :
    utf16Loop be (utf16Char be c ++ s) = charBytes c ++ utf16Loop be s := by
  have hvalid := toNat_lt c
  unfold utf16Char
  split_ifs with hlt
  · obtain ⟨a, b, hbytes, hunit⟩ := utf16Unit_bytes be hlt
    rw [hbytes, List.cons_append, List.cons_append, List.nil_append, utf16Loop.eq_def]
    simp only [hunit, utf8Bytes_eq]
    rw [if_neg (by omega)]
  · -- a surrogate pair
    obtain ⟨a, b, hbytes, hunit⟩ := utf16Unit_bytes be (n := 0xD800 + (c.toNat - 0x10000) / 0x400) (by omega)
    obtain ⟨a', b', hbytes', hunit'⟩ := utf16Unit_bytes be (n := 0xDC00 + (c.toNat - 0x10000) % 0x400) (by omega)
    rw [hbytes, hbytes']
    simp only [List.cons_append, List.nil_append, utf16Loop, hunit, hunit']
    rw [if_pos (by omega), surrogates_eq (by omega), Nat.sub_add_cancel (Nat.not_lt.mp hlt), utf8Bytes_eq]

/-- **A text in UTF-16** is converted to the same text in UTF-8. -/
theorem utf16Loop_eq (be : Bool) (cs : List Char) :
    utf16Loop be (cs.flatMap (utf16Char be)) = cs.flatMap charBytes := by
  induction cs with
  | nil => rfl
  | cons c cs ih => rw [List.flatMap_cons, utf16Loop_char, ih, List.flatMap_cons]

theorem ezxmlStr2utf8_eq (be : Bool) (cs : List Char) :
    ezxmlStr2utf8 (byteOrderMark be ++ cs.flatMap (utf16Char be)) = some (cs.flatMap charBytes) := by
  rw [← utf16Loop_eq be cs]
  cases be <;> rfl

/-! ## Carriage returns -/

theorem charBytes_ne_nil (c : Char) : charBytes c ≠ [] := by
  simp [charBytes, String.utf8EncodeChar_ne_nil]

/-- The bytes of a character from 0x80 on are from 0x80 on. -/
theorem charBytes_high {c b : Char} (h : 0x80 ≤ c.toNat) (hb : b ∈ charBytes c) : 0x80 ≤ b.toNat := by
  have hhigh : ∀ n, 0x80 ≤ n → n < 256 → 0x80 ≤ (Char.ofNat (UInt8.ofNat n).toNat).toNat := by
    intro n hlo hhi
    rw [ofNat_byte, ← byteChar, toNat_byteChar]
    omega
  rw [charBytes_cases, if_neg (Nat.not_le_of_lt h)] at hb
  split_ifs at hb <;> simp only [List.map_cons, List.map_nil, List.mem_cons, List.not_mem_nil, or_false] at hb
  · rcases hb with rfl | rfl <;> exact hhigh _ (by omega) (by omega)
  · rcases hb with rfl | rfl | rfl <;> exact hhigh _ (by omega) (by omega)
  · rcases hb with rfl | rfl | rfl | rfl <;> exact hhigh _ (by omega) (by omega)

/-- The carriage return is its own byte, and no other character ends on it. -/
theorem charBytes_getLast {c : Char} (h : (charBytes c).getLast? = some '\r') : c = '\r' := by
  by_cases hlt : c.toNat < 0x80
  · rw [charBytes_of_lt hlt, List.getLast?_singleton] at h
    have hbyte := congrArg Char.toNat (Option.some.inj h)
    rw [toNat_byteChar, Nat.mod_eq_of_lt (by omega)] at hbyte
    exact Char.toNat_inj.mp hbyte
  · have hhigh := charBytes_high (Nat.not_lt.mp hlt) (List.mem_of_getLast? h)
    exact absurd hhigh (by decide)

/-- A carriage return right before the last byte is one right before the last character. -/
theorem dropLast_return {cs : List Char} (h : (cs.flatMap charBytes).dropLast.getLast? = some '\r') :
    cs.dropLast.getLast? = some '\r' := by
  obtain rfl | ⟨cs, last, rfl⟩ := List.eq_nil_or_concat' cs
  · exact nomatch h
  rw [List.flatMap_append, List.flatMap_singleton, List.dropLast_append_of_ne_nil (charBytes_ne_nil last)] at h
  rw [List.dropLast_concat]
  by_cases hlt : last.toNat < 0x80
  · -- one byte: what is before it ends on the last byte of the character before it
    rw [charBytes_of_lt hlt, List.dropLast_singleton, List.append_nil] at h
    obtain rfl | ⟨cs, d, rfl⟩ := List.eq_nil_or_concat' cs
    · exact nomatch h
    rw [List.flatMap_append, List.flatMap_singleton, List.getLast?_append_of_ne_nil _ (charBytes_ne_nil d)] at h
    rw [List.getLast?_concat, charBytes_getLast h]
  · -- more bytes than one: the last but one is not below 0x80
    have hhigh : ∀ b ∈ (charBytes last).dropLast, 0x80 ≤ b.toNat := fun b hb =>
      charBytes_high (Nat.not_lt.mp hlt) (List.dropLast_subset _ hb)
    have hne : (charBytes last).dropLast ≠ [] := by
      rw [charBytes_cases, if_neg (Nat.not_le_of_lt (Nat.not_lt.mp hlt))]
      split_ifs <;> exact List.cons_ne_nil _ _
    rw [List.getLast?_append_of_ne_nil _ hne] at h
    exact absurd (hhigh _ (List.mem_of_getLast? h)) (by decide)

/-- **A document in UTF-16**, of either byte order, is parsed as the same document in UTF-8 is, unless a carriage
    return comes right before its last character. -/
theorem utf16_parsed_as_utf8 (be : Bool) (c : Char) (cs : List Char)
    (hreturn : (c :: cs).dropLast.getLast? ≠ some '\r') :
    ezxmlParseStr (byteOrderMark be ++ (c :: cs).flatMap (utf16Char be)) = parseBytes ((c :: cs).flatMap charBytes) := by
  have hne : (c :: cs).flatMap charBytes ≠ [] := by
    rw [List.flatMap_cons]
    exact List.append_ne_nil_of_left_ne_nil (charBytes_ne_nil c) _
  have hbefore : ((c :: cs).flatMap charBytes).dropLast.getLast? ≠ some '\r' := fun h => hreturn (dropLast_return h)
  obtain ⟨byte, rest, hbytes⟩ := List.exists_cons_of_ne_nil hne
  rw [hbytes] at hbefore
  unfold ezxmlParseStr
  rw [ezxmlStr2utf8_eq, hbytes]
  exact if_neg hbefore

theorem utf16_parsed_as_utf8_small :
    ezxmlParseStr (byteOrderMark true ++ "<a>\r\n</a>".toList.flatMap (utf16Char true)) =
      parseBytes ("<a>\r\n</a>".toList.flatMap charBytes) :=
  utf16_parsed_as_utf8 true '<' "a>\r\n</a>".toList (by decide)

end Workload
