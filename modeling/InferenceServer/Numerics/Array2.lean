import Mathlib.Algebra.BigOperators.Group.Finset.Basic
import Mathlib.Algebra.BigOperators.Group.List.Basic
import Mathlib.Algebra.GroupWithZero.Nat
import Mathlib.Data.Finset.Lattice.Fold
import Mathlib.Data.Fintype.Basic
import Mathlib.Data.List.FinRange

set_option relaxedAutoImplicit false
set_option autoImplicit false

/-!
# Two-dimensional arrays

The operations of an array library along the last axis: a reduction that keeps the axis, the
broadcast of its result, and `argmax`.

## Main definitions

* `Array2` — an array, given by its rows.
* `Array2.maxLast`, `Array2.sumLast`, `Array2.broadcast` — the operations.
* `Array2.argmax`, `Array2.IsFirstMax` — the first index of the maximum.

## Main results

* `Array2.broadcast_map` — a reduction and its broadcast work row by row.
* `Array2.argmax_isFirstMax`, `Array2.argmax_comp` — what `argmax` finds, and that an increasing
  function does not move it.
-/

/-- An array with `m` columns: its rows. -/
abbrev Array2 (K : Type*) (m : ℕ) := List (Fin m → K)

namespace Array2

variable {K L : Type*} {m : ℕ}

/-! ## Reductions -/

/-- `a.max(axis=-1, keepdims=True)`. -/
def maxLast [LinearOrder K] [NeZero m] (a : Array2 K m) : Array2 K 1 :=
  a.map fun row _ => Finset.univ.sup' ⟨0, Finset.mem_univ 0⟩ row

/-- `a.sum(axis=-1, keepdims=True)`. -/
def sumLast [AddCommMonoid K] (a : Array2 K m) : Array2 K 1 := a.map fun row _ => ∑ j, row j

/-- `op(a, b)` where `b` has one column. -/
def broadcast (op : K → K → K) (a : Array2 K m) (b : Array2 K 1) : Array2 K m :=
  List.zipWith (fun row c j => op (row j) (c 0)) a b

/-- A function of every entry. -/
def entrywise (f : K → L) (a : Array2 K m) : Array2 L m := a.map fun row j => f (row j)

/-- **A reduction and its broadcast work row by row.** -/
theorem broadcast_map (op : K → K → K) (f : (Fin m → K) → Fin 1 → K) (a : Array2 K m) :
    broadcast op a (a.map f) = a.map fun row j => op (row j) (f row 0) := by
  rw [broadcast, List.zipWith_map_right, List.zipWith_self]

/-! ## The first maximum -/

/-- `np.argmax` of a row: the loop that keeps the best index so far. -/
def argmax [LinearOrder K] [NeZero m] (row : Fin m → K) : Fin m :=
  (List.finRange m).foldl (fun best j => if row best < row j then j else best) 0

/-- The index is the first one at which the row is largest. -/
structure IsFirstMax [LE K] [LT K] (row : Fin m → K) (i : Fin m) : Prop where
  max : ∀ j, row j ≤ row i
  first : ∀ j < i, row j < row i

variable [LinearOrder K]

/-- The loop over increasing indices finds the first maximum of what it has seen.

**Proof sketch.** Induction on the indices that are left, for every best index so far. If the next
entry is larger, it takes the place of the best one; if it is not, it stays below the first maximum
because the best one does. -/
lemma foldl_firstMax (row : Fin m → K) (l : List (Fin m)) (best : Fin m)
    (hl : (best :: l).Pairwise (· < ·)) :
    ∀ j ∈ best :: l,
      row j ≤ row (l.foldl (fun best j => if row best < row j then j else best) best) ∧
      (j < l.foldl (fun best j => if row best < row j then j else best) best →
        row j < row (l.foldl (fun best j => if row best < row j then j else best) best)) := by
  induction l generalizing best with
  | nil =>
    intro j hj
    obtain rfl := List.mem_singleton.mp hj
    exact ⟨le_rfl, fun h => absurd h (lt_irrefl _)⟩
  | cons x l ih =>
    obtain ⟨hbest, hx, hrest⟩ : (∀ j ∈ x :: l, best < j) ∧ (∀ j ∈ l, x < j) ∧
        l.Pairwise (· < ·) := by
      simpa [List.pairwise_cons] using hl
    intro j hj
    rw [List.foldl_cons]
    split_ifs with hlt
    · have hseen := ih x (List.pairwise_cons.mpr ⟨hx, hrest⟩)
      rcases List.mem_cons.mp hj with rfl | hj
      · have hbelow := hlt.trans_le (hseen x List.mem_cons_self).1
        exact ⟨hbelow.le, fun _ => hbelow⟩
      · exact hseen j hj
    · have hseen := ih best (List.pairwise_cons.mpr
        ⟨fun j hj => hbest j (List.mem_cons_of_mem x hj), hrest⟩)
      have hle := hseen best List.mem_cons_self
      rcases List.mem_cons.mp hj with rfl | hj
      · exact hle
      · rcases List.mem_cons.mp hj with rfl | hj
        · refine ⟨(not_lt.mp hlt).trans hle.1, fun hlater => (not_lt.mp hlt).trans_lt (hle.2 ?_)⟩
          exact (hbest j List.mem_cons_self).trans hlater
        · exact hseen j (List.mem_cons_of_mem best hj)

variable [NeZero m]

/-- **`argmax` finds the first maximum.** -/
theorem argmax_isFirstMax (row : Fin m → K) : IsFirstMax row (argmax row) := by
  obtain ⟨n, rfl⟩ : ∃ n, m = n + 1 := Nat.exists_eq_succ_of_ne_zero (NeZero.ne m)
  have hloop : argmax row = ((List.finRange n).map Fin.succ).foldl
      (fun best j => if row best < row j then j else best) 0 := by
    rw [argmax, List.finRange_succ, List.foldl_cons, if_neg (lt_irrefl _)]
  have hsorted : (0 :: (List.finRange n).map Fin.succ).Pairwise (· < ·) := by
    rw [← List.finRange_succ]
    exact List.pairwise_lt_finRange (n + 1)
  have hseen := foldl_firstMax row _ _ hsorted
  rw [← List.finRange_succ, ← hloop] at hseen
  exact ⟨fun j => (hseen j (List.mem_finRange j)).1, fun j => (hseen j (List.mem_finRange j)).2⟩

/-- **An increasing function does not move the first maximum.** -/
theorem argmax_comp [LinearOrder L] {f : K → L} (hf : StrictMono f) (row : Fin m → K) :
    argmax (fun j => f (row j)) = argmax row := by
  simp only [argmax, hf.lt_iff_lt]

end Array2
