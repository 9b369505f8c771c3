import Mathlib.LinearAlgebra.Lagrange

/-!
# Secret sharing

A polynomial over a field shares its value at `0`: its values at other points
are the shares.  Commitments to the coefficients, as multiples of a point `g` of
a vector space, are public; a share is checked against them by evaluating the
commitments.

Polynomials add up: the shares of a sum are the sums of the shares.  And as many
values as the degree allows fix the secret.
-/

namespace Sharing

open Polynomial

variable {F G : Type} [Field F] [AddCommGroup G] [Module F G]

/-- Commitments to the first `t + 1` coefficients. -/
noncomputable def commit (g : G) (t : Nat) (p : F[X]) : List G :=
  (List.range (t + 1)).map fun k => p.coeff k • g

/-- The polynomial that is committed to, evaluated at `x` as a multiple of the
base point. -/
def evalCommit (commitments : List G) (x : F) : G :=
  ∑ k ∈ Finset.range commitments.length, x ^ k • commitments.getD k 0

variable {g : G} {t : Nat} {p : F[X]}

@[simp] theorem length_commit : (commit g t p).length = t + 1 := by simp [commit]

theorem commit_getD {k : Nat} (hk : k ≤ t) : (commit g t p).getD k 0 = p.coeff k • g := by
  have hlt : k < t + 1 := Nat.lt_succ_of_le hk
  simp [commit, hlt]

/-- The first commitment is to the secret. -/
theorem commit_head : (commit g t p).head? = some (p.eval 0 • g) := by
  rw [commit, List.range_succ_eq_map, List.map_cons, List.head?_cons, ← coeff_zero_eq_eval_zero]

/-- Shares pass the check. -/
theorem evalCommit_commit (hp : p.natDegree ≤ t) (x : F) :
    evalCommit (commit g t p) x = p.eval x • g := by
  rw [evalCommit, length_commit, eval_eq_sum_range' (Nat.lt_succ_of_le hp), Finset.sum_smul]
  refine Finset.sum_congr rfl fun k hk => ?_
  rw [commit_getD (Finset.mem_range_succ_iff.mp hk), smul_smul, mul_comm]

/-- What is added to the first commitment is added to every value. -/
theorem evalCommit_add_head (c d : G) (cs : List G) (x : F) :
    evalCommit ((c + d) :: cs) x = evalCommit (c :: cs) x + d := by
  simp only [evalCommit, List.length_cons, Finset.sum_range_succ', List.getD_cons_succ,
    List.getD_cons_zero, pow_zero, one_smul, add_assoc]

/-! ## Joint polynomials -/

variable {ι : Type} {s : Finset ι} {ps : ι → F[X]}

theorem natDegree_sum_le (h : ∀ i ∈ s, (ps i).natDegree ≤ t) :
    (∑ i ∈ s, ps i).natDegree ≤ t :=
  (Polynomial.natDegree_sum_le s ps).trans (Finset.sup_le h)

theorem natDegree_sum_map {ι : Type} {l : List ι} {poly : ι → F[X]} (h : ∀ j, (poly j).natDegree ≤ t) :
    (l.map poly).sum.natDegree ≤ t := by
  induction l with
  | nil => simp
  | cons j l ih =>
      rw [List.map_cons, List.sum_cons]
      exact (natDegree_add_le _ _).trans (max_le (h j) ih)

/-! ## Interpolation -/

/-- Values at more points than the degree interpolate to the secret. -/
theorem interpolate_secret [DecidableEq ι] {x : ι → F} (value : ι → F) (hx : Set.InjOn x s)
    (hcard : t < s.card) (hp : p.natDegree ≤ t) (hvalue : ∀ i ∈ s, value i = p.eval (x i)) :
    (Lagrange.interpolate s x value).eval 0 = p.eval 0 := by
  have hdeg : p.degree < s.card :=
    lt_of_le_of_lt (degree_le_natDegree.trans (WithBot.coe_le_coe.mpr hp))
      (WithBot.coe_lt_coe.mpr hcard)
  rw [← Lagrange.eq_interpolate_of_eval_eq value hx hdeg fun i hi => (hvalue i hi).symm]

/-- The coefficient of party `i` in the value at `0`. -/
noncomputable def weight [DecidableEq ι] (s : Finset ι) (x : ι → F) (i : ι) : F :=
  (Lagrange.basis s x i).eval 0

/-- The weighted sum of the shares is the secret. -/
theorem sum_weight [DecidableEq ι] {x : ι → F} (hx : Set.InjOn x s) (hcard : t < s.card)
    (hp : p.natDegree ≤ t) : ∑ i ∈ s, weight s x i * p.eval (x i) = p.eval 0 := by
  rw [← interpolate_secret (fun i => p.eval (x i)) hx hcard hp fun _ _ => rfl,
    Lagrange.interpolate_apply, eval_finsetSum]
  refine Finset.sum_congr rfl fun i _ => ?_
  rw [eval_mul, eval_C, weight, mul_comm]

/-! ## Products -/

/-- Shares of all products of two different parties' factors, with the own products,
add up to the product of the sums. -/
theorem sum_products [DecidableEq ι] {a b : ι → F} {alpha beta : ι → ι → F}
    (h : ∀ i ∈ s, ∀ j ∈ s, j ≠ i → alpha j i + beta j i = a i * b j) :
    ∑ i ∈ s, (a i * b i + ∑ j ∈ s.erase i, alpha j i + ∑ j ∈ s.erase i, beta i j) =
      (∑ i ∈ s, a i) * ∑ j ∈ s, b j := by
  have hswap : ∑ i ∈ s, ∑ j ∈ s.erase i, beta i j = ∑ i ∈ s, ∑ j ∈ s.erase i, beta j i := by
    refine Finset.sum_comm' fun i j => ?_
    simp only [Finset.mem_erase]
    exact ⟨fun h => ⟨⟨Ne.symm h.2.1, h.1⟩, h.2.2⟩, fun h => ⟨h.1.2, Ne.symm h.1.1, h.2⟩⟩
  rw [Finset.sum_add_distrib, hswap, ← Finset.sum_add_distrib, Finset.sum_mul]
  refine Finset.sum_congr rfl fun i hi => ?_
  rw [Finset.mul_sum, add_assoc, ← Finset.sum_add_distrib, ← Finset.add_sum_erase s _ hi]
  refine congrArg _ (Finset.sum_congr rfl fun j hj => ?_)
  exact h i hi j (Finset.mem_of_mem_erase hj) (Finset.ne_of_mem_erase hj)

end Sharing
