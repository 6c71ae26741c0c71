import Mathlib.Algebra.Group.Nat.Defs
import Mustache.Text.Utf8

/-!
# Reading back UTF-8

A text that was written in UTF-8 reads back as itself, whatever its characters. A character is a
first byte and some following ones that hold six bits each (`followers`). Decoding takes the
following bytes up one by one (`decodeFrom_followers`), so a character needs to be looked at for its
first byte alone, once for each number of bytes.

Main statements: `decode_encode` and `lines_eq_self`.
-/

namespace Mustache.Text.Utf8

variable {offset v : Nat} {r : List UInt8}

/-! ## The bytes of a text -/

theorem toList_loop (bytes : ByteArray) (i : Nat) (read : List UInt8) :
    ByteArray.toList.loop bytes i read = read.reverse ++ bytes.data.toList.drop i := by
  fun_induction ByteArray.toList.loop bytes i read with
  | case1 i read h ih =>
    have hi : i < bytes.data.toList.length := by simpa using h
    rw [ih, List.drop_eq_getElem_cons hi]
    simp [ByteArray.get!, h]
  | case2 i read h =>
    rw [List.drop_eq_nil_of_le (by simpa using Nat.le_of_not_lt h), List.append_nil]

theorem toList_toByteArray (bytes : List UInt8) : bytes.toByteArray.toList = bytes := by
  rw [ByteArray.toList, toList_loop, List.toList_data_toByteArray]
  rfl

theorem encode_ofList (s : List Char) :
    encode (String.ofList s) = s.flatMap String.utf8EncodeChar := by
  rw [encode, String.toUTF8_eq_toByteArray, String.toByteArray_ofList, List.utf8Encode,
    toList_toByteArray]

/-! ## Following bytes -/

/-- The last bytes of the character with a number, six bits in each. -/
def followers (v : Nat) : Nat → List UInt8
  | 0 => []
  | k + 1 => UInt8.ofNat (v / 64 ^ k % 64 + 0x80) :: followers v k

theorem toNat_follower (v k : Nat) :
    (UInt8.ofNat (v / 64 ^ k % 64 + 0x80)).toNat = v / 64 ^ k % 64 + 0x80 := by
  rw [UInt8.toNat_ofNat']
  omega

/-- The bits that are read so far, and those of the next byte. -/
theorem div_pow_step (v k : Nat) : v / 64 ^ (k + 1) * 64 + v / 64 ^ k % 64 = v / 64 ^ k := by
  rw [Nat.pow_succ, ← Nat.div_div_eq_div_mul, Nat.mul_comm]
  exact Nat.div_add_mod _ 64

theorem decodeFrom_followers (r : List UInt8) (v k offset : Nat) (p : Pending)
    (hfollowing : p.following = k + 1) (hbits : p.bits = v / 64 ^ (k + 1))
    (hlow : p.low ≤ v / 64 ^ k % 64 + 0x80) (hhigh : v / 64 ^ k % 64 + 0x80 ≤ p.high) :
    decodeFrom offset (some p) (followers v (k + 1) ++ r) =
      (decodeFrom (offset + (k + 1)) none r).map (Char.ofNat v :: ·) := by
  induction k generalizing offset p with
  | zero =>
    have hv : p.bits * 64 + (v / 64 ^ 0 % 64 + 0x80 - 0x80) = v := by
      rw [hbits, Nat.add_sub_cancel, div_pow_step, Nat.pow_zero, Nat.div_one]
    rw [followers, followers, List.cons_append, decodeFrom, toNat_follower]
    simp only [hlow, hhigh, hv, hfollowing, decide_true, Bool.and_self, if_true]
    rfl
  | succ k ih =>
    have hv : p.bits * 64 + (v / 64 ^ (k + 1) % 64 + 0x80 - 0x80) = v / 64 ^ (k + 1) := by
      rw [hbits, Nat.add_sub_cancel, div_pow_step]
    rw [followers, List.cons_append, decodeFrom, toNat_follower]
    simp only [hlow, hhigh, hv, hfollowing, decide_true, Bool.and_self, if_true]
    rw [if_neg (by omega), ih (offset + 1) _ rfl rfl (by simp) (by simp; omega)]
    rw [show offset + 1 + (k + 1) = offset + (k + 1 + 1) by omega]

/-! ## Characters -/

/-- A character starts with a byte that tells its first bits and how many bytes follow. -/
theorem decodeFrom_lead {k low high : Nat} {b : UInt8}
    (hlead : lead? b.toNat = some ⟨v / 64 ^ (k + 1), k + 1, low, high⟩)
    (hlow : low ≤ v / 64 ^ k % 64 + 0x80) (hhigh : v / 64 ^ k % 64 + 0x80 ≤ high) :
    decodeFrom offset none (b :: followers v (k + 1) ++ r) =
      (decodeFrom (offset + (k + 2)) none r).map (Char.ofNat v :: ·) := by
  rw [List.cons_append, decodeFrom, hlead]
  dsimp only
  rw [decodeFrom_followers r v k _ _ rfl rfl hlow hhigh]
  rw [show offset + 1 + (k + 1) = offset + (k + 2) by omega]

/-- One byte alone. -/
theorem decodeFrom_one (hv : v < 0x80) :
    decodeFrom offset none (UInt8.ofNat v :: r) =
      (decodeFrom (offset + 1) none r).map (Char.ofNat v :: ·) := by
  have h : (UInt8.ofNat v).toNat = v := by
    rw [UInt8.toNat_ofNat']
    omega
  rw [decodeFrom, h, lead?, if_pos hv]

theorem lead?_two (h : 0x80 ≤ v) (h' : v ≤ 0x7FF) :
    lead? (v / 64 + 0xC0) = some ⟨v / 64 ^ 1, 1, 0x80, 0xBF⟩ := by
  have h1 : ¬ v / 64 + 0xC0 < 0x80 := by omega
  have h2 : ¬ v / 64 + 0xC0 < 0xC2 := by omega
  have h3 : v / 64 + 0xC0 < 0xE0 := by omega
  simp only [lead?, h1, h2, h3, if_true, if_false, Nat.add_sub_cancel, Nat.pow_one]

/-- The first of three bytes. Of these characters, some have a shorter form and some are none. -/
theorem lead?_three (h : 0x800 ≤ v) (h' : v ≤ 0xFFFF) (hv : v < 0xD800 ∨ 0xDFFF < v) :
    ∃ low high, lead? (v / 4096 + 0xE0) = some ⟨v / 64 ^ 2, 2, low, high⟩ ∧
      low ≤ v / 64 ^ 1 % 64 + 0x80 ∧ v / 64 ^ 1 % 64 + 0x80 ≤ high := by
  have h1 : ¬ v / 4096 + 0xE0 < 0x80 := by omega
  have h2 : ¬ v / 4096 + 0xE0 < 0xC2 := by omega
  have h3 : ¬ v / 4096 + 0xE0 < 0xE0 := by omega
  simp only [lead?, h1, h2, h3, if_false]
  rw [show 64 ^ 2 = 4096 from rfl, show 64 ^ 1 = 64 from rfl]
  split
  · exact ⟨_, _, by rw [show v / 4096 = 0 by omega], by omega, by omega⟩
  · split
    · exact ⟨_, _, by rw [show v / 4096 = 0xD by omega], by omega, by omega⟩
    · exact ⟨0x80, 0xBF, by rw [if_pos (by omega), Nat.add_sub_cancel], by omega, by omega⟩

/-- The first of four bytes. -/
theorem lead?_four (h : 0xFFFF < v) (h' : v ≤ 0x10FFFF) :
    ∃ low high, lead? (v / 262144 + 0xF0) = some ⟨v / 64 ^ 3, 3, low, high⟩ ∧
      low ≤ v / 64 ^ 2 % 64 + 0x80 ∧ v / 64 ^ 2 % 64 + 0x80 ≤ high := by
  have h1 : ¬ v / 262144 + 0xF0 < 0x80 := by omega
  have h2 : ¬ v / 262144 + 0xF0 < 0xC2 := by omega
  have h3 : ¬ v / 262144 + 0xF0 < 0xE0 := by omega
  have h4 : ¬ v / 262144 + 0xF0 = 0xE0 := by omega
  have h5 : ¬ v / 262144 + 0xF0 = 0xED := by omega
  have h6 : ¬ v / 262144 + 0xF0 < 0xF0 := by omega
  simp only [lead?, h1, h2, h3, h4, h5, h6, if_false]
  rw [show 64 ^ 3 = 262144 from rfl, show 64 ^ 2 = 4096 from rfl]
  split
  · exact ⟨_, _, by rw [show v / 262144 = 0 by omega], by omega, by omega⟩
  · split
    · exact ⟨_, _, by rw [Nat.add_sub_cancel], by omega, by omega⟩
    · exact ⟨0x80, 0x8F, by rw [if_pos (by omega), show v / 262144 = 4 by omega], by omega,
        by omega⟩

/-- The bytes of a character: a first one, and the following ones. -/
theorem utf8EncodeChar_eq (c : Char) :
    String.utf8EncodeChar c =
      if c.toNat ≤ 0x7F then [UInt8.ofNat c.toNat]
      else if c.toNat ≤ 0x7FF then UInt8.ofNat (c.toNat / 64 + 0xC0) :: followers c.toNat 1
      else if c.toNat ≤ 0xFFFF then UInt8.ofNat (c.toNat / 4096 + 0xE0) :: followers c.toNat 2
      else UInt8.ofNat (c.toNat / 262144 + 0xF0) :: followers c.toNat 3 := by
  have hc : c.toNat < 0x110000 := by
    have := c.valid
    simp only [UInt32.isValidChar, Nat.isValidChar] at this
    simp only [Char.toNat]
    omega
  simp only [String.utf8EncodeChar, followers, Char.toNat, Nat.pow_zero, Nat.div_one,
    Nat.reducePow] at hc ⊢
  split
  · rfl
  · split
    · rw [show c.val.toNat / 64 % 0x20 = c.val.toNat / 64 by omega]
    · split
      · rw [show c.val.toNat / 4096 % 0x10 = c.val.toNat / 4096 by omega]
      · rw [show c.val.toNat / 262144 % 0x08 = c.val.toNat / 262144 by omega]

/-- A character is read back, and then what follows. -/
theorem decodeFrom_utf8EncodeChar (offset : Nat) (c : Char) (r : List UInt8) :
    decodeFrom offset none (String.utf8EncodeChar c ++ r) =
      (decodeFrom (offset + (String.utf8EncodeChar c).length) none r).map (c :: ·) := by
  have hc : c.toNat < 0xD800 ∨ 0xDFFF < c.toNat ∧ c.toNat < 0x110000 := c.valid
  have hfirst {n : Nat} (h : n < 256) : (UInt8.ofNat n).toNat = n := by
    rw [UInt8.toNat_ofNat', Nat.mod_eq_of_lt h]
  rw [utf8EncodeChar_eq]
  split
  · rw [List.singleton_append, decodeFrom_one (by omega), Char.ofNat_toNat]
    rfl
  · split
    · rw [decodeFrom_lead (by rw [hfirst (by omega)]; exact lead?_two (by omega) (by omega))
        (by omega) (by omega), Char.ofNat_toNat]
      rfl
    · split
      · obtain ⟨low, high, hlead, hlow, hhigh⟩ :=
          lead?_three (v := c.toNat) (by omega) (by omega) (by omega)
        rw [decodeFrom_lead (by rw [hfirst (by omega)]; exact hlead) hlow hhigh, Char.ofNat_toNat]
        rfl
      · obtain ⟨low, high, hlead, hlow, hhigh⟩ :=
          lead?_four (v := c.toNat) (by omega) (by omega)
        rw [decodeFrom_lead (by rw [hfirst (by omega)]; exact hlead) hlow hhigh, Char.ofNat_toNat]
        rfl

/-! ## Texts -/

theorem decodeFrom_flatMap (offset : Nat) (s : List Char) :
    decodeFrom offset none (s.flatMap String.utf8EncodeChar) = .ok s := by
  induction s generalizing offset with
  | nil => rw [List.flatMap_nil, decodeFrom]
  | cons c s ih =>
    rw [List.flatMap_cons, decodeFrom_utf8EncodeChar, ih]
    rfl

theorem decode_encode (s : String) : decode (encode s) = .ok s.toList := by
  conv => lhs; rw [← String.ofList_toList (s := s), encode_ofList]
  exact decodeFrom_flatMap 0 s.toList

/-- A text without carriage returns has the one line end already. -/
theorem lines_eq_self {s : List Char} (h : '\r' ∉ s) : lines s = s := by
  induction s with
  | nil => rw [lines]
  | cons c s ih =>
    rw [List.mem_cons, not_or] at h
    rw [lines, ih h.2]
    · rintro r rfl -
      exact h.1 rfl
    · rintro rfl
      exact h.1 rfl

end Mustache.Text.Utf8
