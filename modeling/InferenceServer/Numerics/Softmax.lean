import InferenceServer.Numerics.Array2
import Mathlib.Algebra.BigOperators.Field
import Mathlib.Algebra.Order.BigOperators.Group.Finset
import Mathlib.Algebra.Order.Field.Basic
import Mathlib.Data.Fintype.Card
import Mathlib.Tactic.FieldSimp

set_option relaxedAutoImplicit false
set_option autoImplicit false

/-!
# Softmax

The softmax of a row over an ordered field, for any function that behaves like the exponential.

## Main definitions

* `Softmax.IsExp` — positive, strictly increasing, and sums become products.
* `Softmax.weights` — the softmax of a row.

## Main results

* `Softmax.weights_sub` — a shift of the row does not change it.
* `Softmax.argmax_weights` — it is largest where the row is.
* `Softmax.inv_card_le_weights` — its largest entry is at least `1 / m`.
-/

namespace Softmax

variable {K : Type*} [Field K] [LinearOrder K] {m : ℕ}

/-- A function like the exponential. -/
structure IsExp (exp : K → K) : Prop where
  pos : ∀ x, 0 < exp x
  strictMono : StrictMono exp
  add : ∀ x y, exp (x + y) = exp x * exp y

/-- The softmax of a row. -/
def weights (exp : K → K) (row : Fin m → K) : Fin m → K := fun j => exp (row j) / ∑ k, exp (row k)

variable {exp : K → K}

/-- **A shift of the row does not change its softmax.**

**Proof sketch.** `exp (x - c)` is `exp x * exp (-c)`, and the second factor cancels. -/
theorem weights_sub (h : IsExp exp) (row : Fin m → K) (c : K) :
    weights exp (fun j => row j - c) = weights exp row := by
  have hshift : ∀ j, exp (row j - c) = exp (row j) * exp (-c) := by
    intro j
    rw [sub_eq_add_neg, h.add]
  funext j
  simp only [weights, hshift]
  rw [← Finset.sum_mul, mul_div_mul_right _ _ (h.pos (-c)).ne']

variable [IsStrictOrderedRing K]

/-- The denominator is positive. -/
lemma IsExp.sum_pos [NeZero m] (h : IsExp exp) (row : Fin m → K) : 0 < ∑ k, exp (row k) :=
  Finset.sum_pos (fun k _ => h.pos (row k)) ⟨0, Finset.mem_univ 0⟩

/-- The entries sum to `1`. -/
lemma sum_weights [NeZero m] (h : IsExp exp) (row : Fin m → K) : ∑ j, weights exp row j = 1 := by
  simp only [weights]
  rw [← Finset.sum_div, div_self (h.sum_pos row).ne']

/-- **The softmax is largest where the row is**, first in the same place.

**Proof sketch.** Each entry is the same increasing function of its logit. -/
theorem argmax_weights [NeZero m] (h : IsExp exp) (row : Fin m → K) :
    Array2.argmax (weights exp row) = Array2.argmax row := by
  refine Array2.argmax_comp (f := fun x => exp x / ∑ k, exp (row k)) ?_ row
  intro x y hxy
  exact div_lt_div_of_pos_right (h.strictMono hxy) (h.sum_pos row)

/-- **The largest of `m` entries is at least `1 / m`**, because they sum to `1`. -/
theorem inv_card_le_weights [NeZero m] (h : IsExp exp) {row : Fin m → K} {i : Fin m}
    (hi : Array2.IsFirstMax row i) : 1 / (m : K) ≤ weights exp row i := by
  have hle : ∀ j ∈ Finset.univ, weights exp row j ≤ weights exp row i := fun j _ =>
    div_le_div_of_nonneg_right (h.strictMono.monotone (hi.max j)) (h.sum_pos row).le
  have hsum := Finset.sum_le_card_nsmul Finset.univ (weights exp row) (weights exp row i) hle
  rw [sum_weights h, Finset.card_univ, Fintype.card_fin, nsmul_eq_mul] at hsum
  have hm : (0 : K) < m := Nat.cast_pos.mpr (Nat.pos_of_neZero m)
  rwa [div_le_iff₀ hm, mul_comm]

end Softmax
