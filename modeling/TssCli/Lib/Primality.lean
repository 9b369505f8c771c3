import Mathlib.Data.List.Prime
import Mathlib.NumberTheory.LucasPrimality

/-!
# Primes by their factors

Lucas's test shows that `p` is prime from the primes below it: some `a` has order
`p - 1`, and for that it is enough to look at the exponents `(p - 1) / q` for the
prime factors `q` of `p - 1`.  `lucas` is the test on numbers, with powers by
repeated squaring, so that it can be evaluated for large `p`.
-/

namespace Primality

/-- `acc * a ^ e` modulo `m`, by squaring once for each of at most `fuel` bits. -/
def mulPowMod (m : Nat) : Nat → Nat → Nat → Nat → Nat
  | 0, acc, _, _ => acc % m
  | fuel + 1, acc, a, e =>
      mulPowMod m fuel (if e % 2 = 1 then acc * a % m else acc) (a * a % m) (e / 2)

theorem mulPowMod_eq {m : Nat} : ∀ {fuel acc a e : Nat}, e < 2 ^ fuel →
    mulPowMod m fuel acc a e = acc * a ^ e % m
  | 0, acc, a, e, h => by
      obtain rfl : e = 0 := by simpa using h
      simp [mulPowMod]
  | fuel + 1, acc, a, e, h => by
      have hhalf : e / 2 < 2 ^ fuel := by
        rw [pow_succ] at h
        omega
      have hsq : (a * a % m) ^ (e / 2) ≡ a ^ (2 * (e / 2)) [MOD m] := by
        rw [pow_mul, pow_two]
        exact (Nat.mod_modEq _ _).pow _
      rw [mulPowMod, mulPowMod_eq hhalf]
      split
      next hodd =>
        have he : a ^ e = a * a ^ (2 * (e / 2)) := by
          rw [← pow_succ']
          congr 1
          omega
        rw [he, ← mul_assoc]
        exact (Nat.mod_modEq _ _).mul hsq
      next heven =>
        have he : e = 2 * (e / 2) := by omega
        conv_rhs => rw [he]
        exact hsq.mul_left _

/-- Lucas's test for `p`, on the factors of `p - 1`. -/
def lucas (fuel p a : Nat) (factors : List Nat) : Bool :=
  1 < p && p ≤ 2 ^ fuel && factors.prod == p - 1 && mulPowMod p fuel 1 a (p - 1) == 1 &&
    factors.all fun q => mulPowMod p fuel 1 a ((p - 1) / q) != 1

theorem natCast_pow_eq_one {p : Nat} (hp : 1 < p) (a e : Nat) :
    (a : ZMod p) ^ e = 1 ↔ a ^ e % p = 1 := by
  rw [← Nat.cast_pow, ← Nat.cast_one, ZMod.natCast_eq_natCast_iff', Nat.mod_eq_of_lt hp]

/-- A number that passes the test on prime factors is prime. -/
theorem prime_of_lucas {p : Nat} (fuel a : Nat) (factors : List Nat)
    (hfactors : ∀ q ∈ factors, q.Prime) (h : lucas fuel p a factors = true) : p.Prime := by
  simp only [lucas, Bool.and_eq_true, decide_eq_true_eq, beq_iff_eq, bne_iff_ne, ne_eq,
    List.all_eq_true] at h
  obtain ⟨⟨⟨⟨hp, hfuel⟩, hprod⟩, hone⟩, hnot⟩ := h
  have hpow : ∀ e, e ≤ p - 1 → mulPowMod p fuel 1 a e = a ^ e % p := fun e he => by
    rw [mulPowMod_eq (by omega), one_mul]
  refine lucas_primality p a ?_ fun q hq hdvd => ?_
  · rw [natCast_pow_eq_one hp, ← hpow _ le_rfl, hone]
  · rw [← hprod] at hdvd
    obtain ⟨r, hr, hqr⟩ := (Prime.dvd_prod_iff hq.prime).mp hdvd
    obtain rfl := (Nat.prime_dvd_prime_iff_eq hq (hfactors r hr)).mp hqr
    rw [Ne, natCast_pow_eq_one hp, ← hpow _ (Nat.div_le_self _ _)]
    exact hnot q hr

end Primality
