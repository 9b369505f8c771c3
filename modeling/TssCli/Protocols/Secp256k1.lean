import Mathlib.Tactic.NormNum.Prime
import TssCli.Lib.Primality
import TssCli.Protocols.Curve

/-!
# The curve secp256k1

The curve of the ECDSA protocols, `y ^ 2 = x ^ 3 + 7` over a prime field, in the
subgroup that its generator spans.  A point of the subgroup stands here for its
discrete logarithm, so that the group is the additive one, and its coordinates
are computed from there by doubling and adding in Jacobian coordinates.
-/

namespace TssCli

namespace Secp256k1

open Primality

/-! ## Its numbers -/

/-- The order of the field of the coordinates. -/
def fieldOrder : Nat := 2 ^ 256 - 2 ^ 32 - 977

/-- The order of the generator. -/
def order : Nat := 0xFFFFFFFFFFFFFFFFFFFFFFFFFFFFFFFEBAAEDCE6AF48A03BBFD25E8CD0364141

/-- The coordinates of the generator. -/
def base : Nat × Nat :=
  (0x79BE667EF9DCBBAC55A06295CE870B07029BFCDB2DCE28D959F2815B16F81798,
   0x483ADA7726A3C4655DA4FBFC0E1108A8FD17B448A68554199C47D08FFB10D4B8)

/-! ## Its points -/

/-- A point in Jacobian coordinates, with `z = 0` at infinity. -/
structure Jacobian where
  x : Nat
  y : Nat
  z : Nat

/-- `a - b` in the field. -/
def sub (a b : Nat) : Nat := (a + (fieldOrder - b % fieldOrder)) % fieldOrder

def double (a : Jacobian) : Jacobian :=
  let s := 4 * a.x * a.y ^ 2 % fieldOrder
  let m := 3 * a.x ^ 2 % fieldOrder
  let x := sub (m ^ 2) (2 * s)
  { x, y := sub (m * sub s x) (8 * a.y ^ 4), z := 2 * a.y * a.z % fieldOrder }

/-- The generator added to a point that is neither it nor its negative. -/
def addBase (a : Jacobian) : Jacobian :=
  if a.z = 0 then { x := base.1, y := base.2, z := 1 } else
  let h := sub (base.1 * a.z ^ 2) a.x
  let r := sub (base.2 * a.z ^ 3) a.y
  let x := sub (r ^ 2) (h ^ 3 + 2 * a.x * h ^ 2)
  { x, y := sub (r * sub (a.x * h ^ 2) x) (a.y * h ^ 3), z := h * a.z % fieldOrder }

/-- The multiple of the generator by a scalar of at most `bits` bits. -/
def mulBase : Nat → Nat → Jacobian
  | 0, _ => { x := 1, y := 1, z := 0 }
  | bits + 1, k =>
      let a := double (mulBase bits (k / 2))
      if k % 2 = 1 then addBase a else a

/-- The coordinates of a multiple of the generator. -/
def coordinates (k : Nat) : Nat × Nat :=
  let a := mulBase 256 k
  let inv := mulPowMod fieldOrder 256 1 a.z (fieldOrder - 2)
  (a.x * inv ^ 2 % fieldOrder, a.y * inv ^ 3 % fieldOrder)

example : coordinates 2 =
    (0xC6047F9441ED7D6D3045406E95C07CD85C778E4B8CEF3CA7ABAC09B95C709EE5,
     0x1AE168FEA63DC339A3C58419466CEAEEF7F632653266D0E1236431A950CFE52A) := by decide +kernel

/-! ## Its order is prime -/

theorem prime_order : order.Prime := by
  have h₁ : Nat.Prime 107361793816595537 :=
    prime_of_lucas 64 3 [2, 2, 2, 2, 16699, 85831, 4681609] (by norm_num) (by decide +kernel)
  have h₂ : Nat.Prime 44706919 :=
    prime_of_lucas 32 6 [2, 3, 797, 9349] (by norm_num) (by decide +kernel)
  have h₃ : Nat.Prime 174723607534414371449 :=
    prime_of_lucas 128 3 [44706919, 2, 2, 2, 17, 59, 4051, 120233]
      (List.forall_mem_cons.mpr ⟨h₂, by norm_num⟩) (by decide +kernel)
  have h₄ : Nat.Prime 545358713 :=
    prime_of_lucas 32 5 [2, 2, 2, 41, 59, 28181] (by norm_num) (by decide +kernel)
  have h₅ : Nat.Prime 297159362677 :=
    prime_of_lucas 64 2 [2, 2, 3, 3, 11, 461, 1627771] (by norm_num) (by decide +kernel)
  have h₆ : Nat.Prime 29047611873442575647497758179 :=
    prime_of_lucas 128 2 [545358713, 297159362677, 2, 293, 305873]
      (List.forall_mem_cons.mpr ⟨h₄, List.forall_mem_cons.mpr ⟨h₅, by norm_num⟩⟩)
      (by decide +kernel)
  have h₇ : Nat.Prime 341948486974166000522343609283189 :=
    prime_of_lucas 128 2 [29047611873442575647497758179, 2, 2, 3, 3, 3, 109]
      (List.forall_mem_cons.mpr ⟨h₆, by norm_num⟩) (by decide +kernel)
  exact prime_of_lucas 256 7
    [107361793816595537, 174723607534414371449, 341948486974166000522343609283189,
      2, 2, 2, 2, 2, 2, 3, 149, 631]
    (List.forall_mem_cons.mpr ⟨h₁, List.forall_mem_cons.mpr ⟨h₃,
      List.forall_mem_cons.mpr ⟨h₇, by norm_num⟩⟩⟩) (by decide +kernel)

instance factPrimeOrder : Fact order.Prime := ⟨prime_order⟩

/-! ## The curve -/

/-- A point in its compressed form. -/
def compress (point : Nat × Nat) : List UInt8 :=
  let xBytes := toBytes point.1
  (if point.2 % 2 = 0 then 2 else 3) :: (List.replicate (32 - xBytes.length) 0 ++ xBytes)

/-- The bytes of a point, by its discrete logarithm.  The identity has zero bytes only. -/
noncomputable def encode (a : ZMod order) : List UInt8 :=
  if a = 0 then List.replicate 33 0 else compress (coordinates a.val)

end Secp256k1

open Secp256k1

/-- The curve, on discrete logarithms. -/
noncomputable def secp256k1 : Curve (ZMod order) (ZMod order) where
  generator := 1
  xCoord a := if a = 0 then none else some (coordinates a.val).1
  yCoord a := if a = 0 then none else some (coordinates a.val).2
  pointBytes := encode
  pointFromBytes := Function.partialInv encode
  toBigint := ZMod.val
  ofBigint n := n

theorem secp256k1_pointBytes {a : ZMod order} (ha : a ≠ 0) :
    secp256k1.pointBytes a = compress (coordinates a.val) := if_neg ha

theorem coordinates_lt (k : Nat) : (coordinates k).1 < fieldOrder :=
  Nat.mod_lt _ (by decide)

theorem secp256k1_documented : secp256k1.Documented where
  natCast_inj i j hi hj h := by
    have hlt : (2 : Nat) ^ 16 ≤ order := by decide
    have := congrArg ZMod.val h
    rwa [ZMod.val_cast_of_lt (hi.trans_le hlt), ZMod.val_cast_of_lt (hj.trans_le hlt)] at this
  generator_ne_zero := one_ne_zero
  ofBigint_toBigint s := by simp [secp256k1]
  toBigint_lt s := (ZMod.val_lt s).trans (by decide)
  xCoord_lt a ha := ⟨(coordinates a.val).1, by simp [secp256k1, ha],
    (coordinates_lt _).trans (by decide)⟩

/-- The coordinate of half the generator begins with twelve zero bytes. -/
theorem coordinates_half :
    (coordinates ((order + 1) / 2)).1 = 0x3B78CE563F89A0ED9414F5AA28AD0D96D6795F9C63 := by
  decide +kernel

end TssCli
