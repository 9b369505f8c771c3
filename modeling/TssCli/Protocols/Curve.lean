import Mathlib.Algebra.Field.ZMod
import Mathlib.Algebra.Module.Torsion.Field
import TssCli.Common.BigInt
import TssCli.Common.Exchange

/-!
# Curves and proofs of discrete logarithms

The protocols take curve arithmetic and its proofs from a library.  Scalars are
a field `F` and points a vector space `G` over it: both curves are used in their
subgroup of prime order.  What else the library gives is a record, and what the
protocols rely on is stated apart from it, as `Documented`.
-/

namespace TssCli

/-! ## Curves -/

/-- A curve, as the library presents it. -/
structure Curve (F G : Type) where
  generator : G
  /-- `Point::x_coord`. -/
  xCoord : G → Option Nat
  /-- `Point::y_coord`. -/
  yCoord : G → Option Nat
  /-- `Point::to_bytes(true)`. -/
  pointBytes : G → List UInt8
  /-- `Point::from_bytes`. -/
  pointFromBytes : List UInt8 → Option G
  /-- `Scalar::to_bigint`. -/
  toBigint : F → Nat
  /-- `Scalar::from`, which reduces modulo the order. -/
  ofBigint : Nat → F

/-- What the documentation says of a curve. -/
structure Curve.Documented {F G : Type} [Field F] [AddCommGroup G] (curve : Curve F G) :
    Prop where
  /-- The order is above the numbers of 16 bits. -/
  natCast_inj : ∀ i j : Nat, i < 2 ^ 16 → j < 2 ^ 16 → (i : F) = j → i = j
  generator_ne_zero : curve.generator ≠ 0
  /-- A scalar is read back from its integer. -/
  ofBigint_toBigint : ∀ s, curve.ofBigint (curve.toBigint s) = s
  toBigint_lt : ∀ s, curve.toBigint s < 2 ^ 256
  /-- A coordinate is below the order of a field of at most `256` bits. -/
  xCoord_lt : ∀ p, p ≠ 0 → ∃ x, curve.xCoord p = some x ∧ x < 2 ^ 256

/-! ## Proofs of discrete logarithms -/

/-- `DLogProof`.  A proof carries the public key it is about. -/
structure DLog (F G : Type) where
  Proof : Type
  pk : Proof → G
  /-- `DLogProof::prove`, with the random scalar it draws. -/
  prove : F → F → Proof
  /-- `DLogProof::verify(..).is_ok()`. -/
  verify : Proof → Bool

/-- What the documentation says of the proofs. -/
structure DLog.Documented {F G : Type} [Field F] [AddCommGroup G] [Module F G] (generator : G)
    (dlog : DLog F G) : Prop where
  pk_prove : ∀ x r, dlog.pk (dlog.prove x r) = x • generator
  verify_prove : ∀ x r, dlog.verify (dlog.prove x r) = true

/-! ## The additive group of a prime field

The laws hold of it, so it serves where some curve is needed. -/

section

variable (p : Nat) [Fact p.Prime]

def additiveCurve : Curve (ZMod p) (ZMod p) where
  generator := 1
  xCoord x := if x = 0 then none else some x.val
  yCoord x := if x = 0 then none else some x.val
  pointBytes x := 2 :: toBytes x.val
  pointFromBytes
    | 2 :: bytes => some (fromBytes bytes)
    | _ => none
  toBigint := ZMod.val
  ofBigint n := n

/-- Proofs that show the scalar. -/
def additiveDLog : DLog (ZMod p) (ZMod p) where
  Proof := ZMod p × ZMod p
  pk := Prod.fst
  prove x _ := (x, x)
  verify proof := proof.1 = proof.2

theorem additiveCurve_documented (h₁ : 2 ^ 16 ≤ p) (hp : p < 2 ^ 256) :
    (additiveCurve p).Documented where
  natCast_inj i j hi hj h := by
    have := congrArg ZMod.val h
    rwa [ZMod.val_cast_of_lt (hi.trans_le h₁), ZMod.val_cast_of_lt (hj.trans_le h₁)] at this
  generator_ne_zero := one_ne_zero
  ofBigint_toBigint s := by simp [additiveCurve]
  toBigint_lt s := (ZMod.val_lt s).trans hp
  xCoord_lt x hx := ⟨x.val, by simp [additiveCurve, hx], (ZMod.val_lt x).trans hp⟩

theorem additiveDLog_documented : (additiveDLog p).Documented (additiveCurve p).generator where
  pk_prove x _ := by simp [additiveDLog, additiveCurve]
  verify_prove x _ := by simp [additiveDLog]

end

instance prime5 : Fact (Nat.Prime 5) := ⟨by decide⟩

/-! ## Sums -/

/-- `split_at(1)`, and a `fold` of the tail from the head. -/
def sumVec {α : Type} [Add α] : List α → Except Panic α
  | [] => .error .outOfBounds
  | head :: tail => .ok (tail.foldl (· + ·) head)

theorem foldl_add {α : Type} [AddMonoid α] :
    ∀ (l : List α) (a : α), l.foldl (· + ·) a = a + l.sum
  | [], a => by simp
  | b :: l, a => by simp [foldl_add l, add_assoc]

theorem sumVec_eq {α : Type} [AddMonoid α] {l : List α} (h : l ≠ []) : sumVec l = .ok l.sum := by
  cases l with
  | nil => exact absurd rfl h
  | cons head tail => rw [sumVec, foldl_add, List.sum_cons]

end TssCli
