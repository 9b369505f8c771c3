import TssCli.Common.BigInt

/-!
# Hexadecimal texts

A text of hexadecimal digits is read in two ways: as a numeral of any length,
and, two digits at a time, as bytes.  A numeral of an even number of digits
spells the bytes of its value (`hexDecode_of_fromHex`).
-/

namespace TssCli

/-! ## Reading -/

/-- The value of a hexadecimal digit. -/
def hexValue (c : Char) : Option Nat :=
  if c.isDigit then some (c.toNat - '0'.toNat)
  else if 'a' ≤ c ∧ c ≤ 'f' then some (c.toNat - 'a'.toNat + 10)
  else if 'A' ≤ c ∧ c ≤ 'F' then some (c.toNat - 'A'.toNat + 10)
  else none

/-- `hex::decode`. -/
def hexDecode : List Char → Option (List UInt8)
  | [] => some []
  | [_] => none
  | a :: b :: rest => do
      let high ← hexValue a
      let low ← hexValue b
      let bytes ← hexDecode rest
      return UInt8.ofNat (16 * high + low) :: bytes

/-- The digits of a numeral, after those read before. -/
def readHex (acc : Nat) : List Char → Option Nat
  | [] => some acc
  | c :: rest => do
      let digit ← hexValue c
      readHex (16 * acc + digit) rest

/-- `BigInt::from_hex` on digits alone, as in the stores.  A sign and white space, which it
takes as well, are no digits here. -/
def fromHex (digits : List Char) : Option Nat :=
  if digits = [] then none else readHex 0 digits

example : hexDecode "0aF1".toList = some [10, 241] := by decide

example : fromHex "aF1".toList = some 2801 := by decide

/-! ## Digits -/

theorem hexValue_lt {c : Char} {v : Nat} (h : hexValue c = some v) : v < 16 := by
  unfold hexValue at h
  split at h
  next hc =>
    obtain rfl := Option.some.inj h
    have : c.toNat ≤ 57 := by
      simp only [Char.isDigit, Bool.and_eq_true, decide_eq_true_eq] at hc
      exact hc.2
    show c.toNat - 48 < 16
    omega
  next =>
    split at h
    next hc =>
      obtain rfl := Option.some.inj h
      have : c.toNat ≤ 102 := hc.2
      show c.toNat - 97 + 10 < 16
      omega
    next =>
      split at h
      next hc =>
        obtain rfl := Option.some.inj h
        have : c.toNat ≤ 70 := hc.2
        show c.toNat - 65 + 10 < 16
        omega
      next => cases h

/-- Only one digit is zero. -/
theorem hexValue_zero {c : Char} (h : hexValue c = some 0) : c = '0' := by
  unfold hexValue at h
  split at h
  next hc =>
    have h₁ : 48 ≤ c.toNat := by
      simp only [Char.isDigit, Bool.and_eq_true, decide_eq_true_eq] at hc
      exact hc.1
    have h₂ : c.toNat - 48 = 0 := Option.some.inj h
    exact Char.toNat_inj.mp (show c.toNat = 48 by omega)
  next =>
    split at h
    next => exact absurd (Option.some.inj h) (Nat.succ_ne_zero _)
    next =>
      split at h
      next => exact absurd (Option.some.inj h) (Nat.succ_ne_zero _)
      next => cases h

theorem readHex_cons {acc v n : Nat} {c : Char} {rest : List Char} (hc : hexValue c = some v)
    (h : readHex acc (c :: rest) = some n) : readHex (16 * acc + v) rest = some n := by
  simpa [readHex, hc] using h

theorem exists_hexValue {acc n : Nat} {c : Char} {rest : List Char}
    (h : readHex acc (c :: rest) = some n) : ∃ v, hexValue c = some v := by
  cases hc : hexValue c with
  | some v => exact ⟨v, rfl⟩
  | none => simp [readHex, hc] at h

/-! ## Values -/

/-- The digits read before weigh more than the rest. -/
theorem readHex_bounds : ∀ {digits : List Char} {acc n : Nat}, readHex acc digits = some n →
    acc * 16 ^ digits.length ≤ n ∧ n < (acc + 1) * 16 ^ digits.length
  | [], acc, n, h => by
      obtain rfl := Option.some.inj h
      simp
  | c :: rest, acc, n, h => by
      obtain ⟨v, hv⟩ := exists_hexValue h
      have hlt := hexValue_lt hv
      obtain ⟨hle, hub⟩ := readHex_bounds (readHex_cons hv h)
      rw [List.length_cons, Nat.pow_succ]
      constructor
      · calc acc * (16 ^ rest.length * 16) = 16 * acc * 16 ^ rest.length := by ring
          _ ≤ (16 * acc + v) * 16 ^ rest.length := Nat.mul_le_mul_right _ (Nat.le_add_right _ _)
          _ ≤ n := hle
      · calc n < (16 * acc + v + 1) * 16 ^ rest.length := hub
          _ ≤ (16 * (acc + 1)) * 16 ^ rest.length := Nat.mul_le_mul_right _ (by omega)
          _ = (acc + 1) * (16 ^ rest.length * 16) := by ring

/-- A numeral without a leading zero has the digits its value needs. -/
theorem length_of_fromHex {digits : List Char} {n k : Nat} (h : fromHex digits = some n)
    (hhead : digits.head? ≠ some '0') : digits.length ≤ k ↔ n < 16 ^ k := by
  unfold fromHex at h
  split at h
  next => cases h
  next hne =>
    constructor
    · intro hk
      have := (readHex_bounds h).2
      rw [Nat.zero_add, Nat.one_mul] at this
      exact this.trans_le (Nat.pow_le_pow_right (by decide) hk)
    · intro hn
      cases digits with
      | nil => exact absurd rfl hne
      | cons c rest =>
          obtain ⟨v, hv⟩ := exists_hexValue h
          have hle := (readHex_bounds (readHex_cons hv h)).1
          have hpos : 0 < v := Nat.pos_of_ne_zero fun hzero =>
            hhead (congrArg some (hexValue_zero (hzero ▸ hv)))
          rw [Nat.mul_zero, Nat.zero_add] at hle
          have hpow : 16 ^ rest.length < 16 ^ k :=
            ((Nat.le_mul_of_pos_left _ hpos).trans hle).trans_lt hn
          exact (Nat.pow_lt_pow_iff_right (by decide)).mp hpow

/-- Two digits at a time, a numeral spells the bytes of its value. -/
theorem hexDecode_of_readHex : ∀ {digits : List Char} {acc n : Nat}, readHex acc digits = some n →
    digits.length % 2 = 0 → ∃ bytes, hexDecode digits = some bytes ∧
      2 * bytes.length = digits.length ∧
      bytes.foldl (fun acc b => 256 * acc + b.toNat) acc = n
  | [], acc, n, h, _ => ⟨[], rfl, rfl, Option.some.inj h⟩
  | [_], _, _, _, heven => by cases heven
  | a :: b :: rest, acc, n, h, heven => by
      obtain ⟨high, ha⟩ := exists_hexValue h
      have h' := readHex_cons ha h
      obtain ⟨low, hb⟩ := exists_hexValue h'
      have hrest := readHex_cons hb h'
      rw [List.length_cons, List.length_cons] at heven
      obtain ⟨bytes, hdecode, hlength, hfold⟩ := hexDecode_of_readHex hrest (by omega)
      have hbyte : (UInt8.ofNat (16 * high + low)).toNat = 16 * high + low := by
        have := hexValue_lt ha
        have := hexValue_lt hb
        rw [UInt8.toNat_ofNat']
        omega
      refine ⟨UInt8.ofNat (16 * high + low) :: bytes, by simp [hexDecode, ha, hb, hdecode],
        by simp only [List.length_cons]; omega, ?_⟩
      rw [List.foldl_cons, hbyte, ← hfold]
      congr 1
      ring

theorem hexDecode_of_fromHex {digits : List Char} {n : Nat} (h : fromHex digits = some n)
    (heven : digits.length % 2 = 0) :
    ∃ bytes, hexDecode digits = some bytes ∧ 2 * bytes.length = digits.length ∧
      fromBytes bytes = n := by
  unfold fromHex at h
  split at h
  next => cases h
  next => exact hexDecode_of_readHex h heven

/-- A leading zero does not change the value. -/
theorem fromHex_zero_cons {digits : List Char} {n : Nat} (h : fromHex digits = some n) :
    fromHex ('0' :: digits) = some n := by
  unfold fromHex at h
  split at h
  next => cases h
  next => exact h

/-! ## Lengths -/

theorem length_byteArray_toList (bytes : ByteArray) : bytes.toList.length = bytes.size := by
  have loop : ∀ i r, (ByteArray.toList.loop bytes i r).length = bytes.size - i + r.length := by
    intro i r
    fun_induction ByteArray.toList.loop bytes i r with
    | case1 i r hlt ih =>
      rw [ih, List.length_cons]
      omega
    | case2 i r hlt =>
      rw [List.length_reverse]
      omega
  exact loop 0 []

theorem length_le_size_utf8Encode : ∀ l : List Char, l.length ≤ l.utf8Encode.size
  | [] => Nat.zero_le _
  | c :: l => by
      have ih := length_le_size_utf8Encode l
      have hc : 1 ≤ [c].utf8Encode.size := by
        rw [List.utf8Encode_singleton, List.size_toByteArray, String.length_utf8EncodeChar]
        exact c.utf8Size_pos
      rw [List.utf8Encode_cons, ByteArray.size_append, List.length_cons]
      omega

/-- Two digits spell a byte. -/
theorem length_hexDecode : ∀ {l : List Char} {bytes : List UInt8}, hexDecode l = some bytes →
    l.length = 2 * bytes.length
  | [], _, h => by
      obtain rfl := Option.some.inj h
      rfl
  | [_], _, h => nomatch h
  | a :: b :: rest, bytes, h => by
      obtain ⟨high, _, h⟩ := Option.bind_eq_some_iff.mp h
      obtain ⟨low, _, h⟩ := Option.bind_eq_some_iff.mp h
      obtain ⟨tail, htail, h⟩ := Option.bind_eq_some_iff.mp h
      obtain rfl := Option.some.inj h
      have ih := length_hexDecode htail
      simp only [List.length_cons]
      omega

end TssCli
