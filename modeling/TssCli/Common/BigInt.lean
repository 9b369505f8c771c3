import Mathlib.Data.Nat.Digits.Lemmas

/-!
# Integers of any size

`BigInt`, which the programs use between bytes, texts and scalars.  Its bytes are
the shortest big-endian bytes of the magnitude, one zero byte for zero, so leading
zero bytes get lost between `from_bytes` and `to_bytes`.
-/

namespace TssCli

/-! ## Bytes -/

/-- `BigInt::to_bytes`, the shortest big-endian bytes, at least one. -/
def toBytes (n : Nat) : List UInt8 :=
  if n = 0 then [0] else ((Nat.digits 256 n).map UInt8.ofNat).reverse

/-- `BigInt::from_bytes`. -/
def fromBytes (bytes : List UInt8) : Nat := bytes.foldl (fun acc b => 256 * acc + b.toNat) 0

theorem fromBytes_toBytes (n : Nat) : fromBytes (toBytes n) = n := by
  have hdigits : ∀ l : List Nat, (∀ d ∈ l, d < 256) →
      (l.map UInt8.ofNat).foldr (fun b acc => 256 * acc + b.toNat) 0 = Nat.ofDigits 256 l := by
    intro l hl
    induction l with
    | nil => rfl
    | cons d l ih =>
        have hd : (UInt8.ofNat d).toNat = d := by simp [Nat.mod_eq_of_lt (hl d (by simp))]
        rw [List.map_cons, List.foldr_cons, ih fun e he => hl e (by simp [he]), hd,
          Nat.ofDigits_cons, Nat.add_comm]
  unfold toBytes
  split
  next h => exact h.symm
  next =>
    rw [fromBytes, List.foldl_reverse, hdigits _ fun d hd => Nat.digits_lt_base (by simp) hd,
      Nat.ofDigits_digits]

theorem length_toBytes_le {n k : Nat} (hk : 0 < k) : (toBytes n).length ≤ k ↔ n < 256 ^ k := by
  unfold toBytes
  split
  next h =>
    subst h
    exact iff_of_true hk (Nat.pow_pos (by decide))
  next => simp [Nat.digits_length_le_iff]

theorem toBytes_ne_nil (n : Nat) : toBytes n ≠ [] := by
  unfold toBytes
  split
  next => exact List.cons_ne_nil _ _
  next h => simpa [Nat.digits_eq_nil_iff_eq_zero] using h

/-- An integer of 256 bits has 32 bytes unless its first byte is zero. -/
theorem length_toBytes {n : Nat} (h : n < 2 ^ 256) :
    (toBytes n).length = 32 ↔ 2 ^ 248 ≤ n := by
  have h₁ := @length_toBytes_le n 32 (by decide)
  have h₂ := @length_toBytes_le n 31 (by decide)
  norm_num at h h₁ h₂ ⊢
  omega

theorem fromBytes_eq_ofDigits (bytes : List UInt8) :
    fromBytes bytes = Nat.ofDigits 256 (bytes.reverse.map UInt8.toNat) := by
  have hfold : ∀ l : List UInt8, l.foldr (fun b acc => 256 * acc + b.toNat) 0 =
      Nat.ofDigits 256 (l.map UInt8.toNat) := by
    intro l
    induction l with
    | nil => rfl
    | cons b l ih => rw [List.foldr_cons, ih, List.map_cons, Nat.ofDigits_cons, Nat.add_comm]
  rw [fromBytes, ← hfold, List.foldr_reverse]

theorem fromBytes_lt (bytes : List UInt8) : fromBytes bytes < 256 ^ bytes.length := by
  have hlt : ∀ d ∈ bytes.reverse.map UInt8.toNat, d < 256 := by
    intro d hd
    obtain ⟨b, -, rfl⟩ := List.mem_map.mp hd
    exact b.toNat_lt
  have := Nat.ofDigits_lt_base_pow_length (by decide) hlt
  rwa [← fromBytes_eq_ofDigits, List.length_map, List.length_reverse] at this

/-- Bytes without a leading zero survive as an integer. -/
theorem toBytes_fromBytes {bytes : List UInt8} (hne : bytes ≠ []) (h : bytes.head? ≠ some 0) :
    toBytes (fromBytes bytes) = bytes := by
  have hlt : ∀ d ∈ bytes.reverse.map UInt8.toNat, d < 256 := by
    intro d hd
    obtain ⟨b, -, rfl⟩ := List.mem_map.mp hd
    exact b.toNat_lt
  have hlast : ∀ hne : bytes.reverse.map UInt8.toNat ≠ [],
      (bytes.reverse.map UInt8.toNat).getLast hne ≠ 0 := by
    intro hne hzero
    cases bytes with
    | nil => exact hne rfl
    | cons b rest =>
        rw [List.getLast_map, List.getLast_reverse] at hzero
        exact h (congrArg some (UInt8.toNat_inj.mp hzero))
  have hdigits := Nat.digits_ofDigits 256 (by decide) _ hlt hlast
  have hpos : fromBytes bytes ≠ 0 := by
    intro hzero
    rw [← fromBytes_eq_ofDigits, hzero, Nat.digits_zero] at hdigits
    exact hne (List.reverse_eq_nil_iff.mp (List.map_eq_nil_iff.mp hdigits.symm))
  rw [toBytes, if_neg hpos, fromBytes_eq_ofDigits, hdigits, List.map_map]
  have hid : UInt8.ofNat ∘ UInt8.toNat = id := funext fun b => UInt8.ofNat_toNat
  rw [hid, List.map_id, List.reverse_reverse]

theorem length_toBytes_fromBytes {bytes : List UInt8} (hne : bytes ≠ []) :
    (toBytes (fromBytes bytes)).length ≤ bytes.length :=
  (length_toBytes_le (List.length_pos_iff.mpr hne)).mpr (fromBytes_lt bytes)

theorem toBytes_injective : Function.Injective toBytes :=
  Function.LeftInverse.injective fromBytes_toBytes

/-- Only zero has a leading zero byte. -/
theorem head?_toBytes {n : Nat} (hn : n ≠ 0) : (toBytes n).head? ≠ some 0 := by
  intro h
  cases hbytes : toBytes n with
  | nil => exact toBytes_ne_nil n hbytes
  | cons b rest =>
      rw [hbytes] at h
      obtain rfl := Option.some.inj h
      have hvalue := fromBytes_toBytes n
      rw [hbytes] at hvalue
      cases rest with
      | nil => exact hn hvalue.symm
      | cons c rest =>
          have hle := length_toBytes_fromBytes (List.cons_ne_nil c rest)
          rw [show fromBytes (c :: rest) = n from hvalue, hbytes] at hle
          exact Nat.not_succ_le_self _ hle

theorem fromBytes_append (a b : List UInt8) :
    fromBytes (a ++ b) = 256 ^ b.length * fromBytes a + fromBytes b := by
  simp only [fromBytes_eq_ofDigits, List.reverse_append, List.map_append, Nat.ofDigits_append,
    List.length_map, List.length_reverse]
  exact Nat.add_comm _ _

/-- Leading zero bytes do not count. -/
theorem fromBytes_zeros_append (k : Nat) (bytes : List UInt8) :
    fromBytes (List.replicate k 0 ++ bytes) = fromBytes bytes := by
  have hzero : fromBytes (List.replicate k 0) = 0 := by
    rw [fromBytes_eq_ofDigits, List.reverse_replicate, List.map_replicate]
    exact Nat.ofDigits_replicate_zero
  rw [fromBytes_append, hzero, Nat.mul_zero, Nat.zero_add]

theorem fromBytes_eq_zero {bytes : List UInt8} : fromBytes bytes = 0 ↔ ∀ b ∈ bytes, b = 0 := by
  induction bytes with
  | nil => exact iff_of_true rfl (fun _ hb => nomatch hb)
  | cons b rest ih =>
      have hb : fromBytes [b] = b.toNat := by simp [fromBytes]
      have hpow : 256 ^ rest.length ≠ 0 := (Nat.pow_pos (by decide)).ne'
      rw [← List.singleton_append, fromBytes_append, hb, Nat.add_eq_zero_iff, ih,
        Nat.mul_eq_zero, or_iff_right hpow, List.singleton_append, List.forall_mem_cons]
      exact and_congr_left' ⟨fun h => UInt8.toNat_inj.mp h, fun h => by rw [h]; rfl⟩

/-- Among bytes of one length an integer has one encoding. -/
theorem fromBytes_inj {a b : List UInt8} (hlength : a.length = b.length)
    (h : fromBytes a = fromBytes b) : a = b := by
  have hlt : ∀ bytes : List UInt8, ∀ d ∈ bytes.reverse.map UInt8.toNat, d < 256 := by
    intro bytes d hd
    obtain ⟨x, -, rfl⟩ := List.mem_map.mp hd
    exact x.toNat_lt
  rw [fromBytes_eq_ofDigits, fromBytes_eq_ofDigits] at h
  have hdigits := Nat.ofDigits_inj_of_len_eq (by decide) (by simpa using hlength) (hlt a) (hlt b) h
  exact List.reverse_injective (List.map_injective_iff.mpr (fun _ _ => UInt8.toNat_inj.mp) hdigits)

/-- The shortest bytes, filled up with zero bytes, are the bytes there were. -/
theorem replicate_append_toBytes {bytes : List UInt8} (hne : bytes ≠ []) :
    List.replicate (bytes.length - (toBytes (fromBytes bytes)).length) 0 ++
      toBytes (fromBytes bytes) = bytes := by
  refine fromBytes_inj ?_ ?_
  · rw [List.length_append, List.length_replicate, Nat.sub_add_cancel (length_toBytes_fromBytes hne)]
  · rw [fromBytes_zeros_append, fromBytes_toBytes]

/-! ## Texts -/

/-- `isspace` of C. -/
def isSpace (c : Char) : Bool := c = ' ' ∨ '\t' ≤ c ∧ c ≤ '\r'

/-- `BigInt::from_str_radix(.., 10)`: decimal digits after an optional minus sign.  White
space in front of the sign and after the first digit does not count. -/
def fromDecimal (text : List Char) : Option Int :=
  match text.dropWhile isSpace with
  | '-' :: digits => (natural digits).map fun n => -(n : Int)
  | digits => (natural digits).map fun n => (n : Int)
where
  natural : List Char → Option Nat
    | [] => none
    | first :: rest =>
        let digits := first :: rest.filter fun c => !isSpace c
        if digits.all Char.isDigit then some (Nat.ofDigitChars 10 digits 0) else none

example : fromDecimal " -4 4\n".toList = some (-44) := by decide

end TssCli
