import Mathlib.Tactic.Lemma
import Mathlib.Tactic.TypeStar

set_option relaxedAutoImplicit false
set_option autoImplicit false

/-!
# Statements with exceptions

Python statements on a state: a statement changes the state and completes normally, with an
exception that `except Exception` catches, or with a cancellation, which passes it by.

## Main definitions

* `Completion` — how a statement completes.
* `Stmt` — statements; `seq`, `forEach`, `tryExcept`, `tryFinally` and the simple ones.

## Main results

* `Stmt.seq_of_normal`, `Stmt.forEach_cons_of_normal`, `Stmt.forEach_invariant`,
  `Stmt.forEach_normal` — sequence and loop.
* `Stmt.tryExcept_of_normal`, `Stmt.tryExcept_of_raised`, `Stmt.tryExcept_of_cancelled`,
  `Stmt.tryFinally_of_normal` — the rules of the clauses.
-/

/-- How a statement completes. -/
inductive Completion (ε : Type*)
  | normal
  | raised (e : ε)
  /-- a `BaseException` that is no `Exception` -/
  | cancelled
  deriving DecidableEq, Repr

/-- A statement on a state. -/
abbrev Stmt (ε σ : Type*) := σ → Completion ε × σ

namespace Stmt

variable {ε σ α : Type*}

/-- An assignment. -/
def assign (f : σ → σ) : Stmt ε σ := fun s => (.normal, f s)

/-- `raise e`. -/
def raise (e : ε) : Stmt ε σ := fun s => (.raised e, s)

/-- The statement is cancelled. -/
def cancel : Stmt ε σ := fun s => (.cancelled, s)

/-- One statement after the other. -/
def seq (p q : Stmt ε σ) : Stmt ε σ := fun s =>
  match p s with
  | (.normal, s') => q s'
  | r => r

/-- `for x in xs: body x`. -/
def forEach : List α → (α → Stmt ε σ) → Stmt ε σ
  | [], _ => fun s => (.normal, s)
  | x :: xs, body => seq (body x) (forEach xs body)

/-- `try: body` with `except Exception as e: handler e`. -/
def tryExcept (body : Stmt ε σ) (handler : ε → Stmt ε σ) : Stmt ε σ := fun s =>
  match body s with
  | (.raised e, s') => handler e s'
  | r => r

/-- `try: body` with `finally: last`. -/
def tryFinally (body last : Stmt ε σ) : Stmt ε σ := fun s =>
  match last (body s).2 with
  | (.normal, s') => ((body s).1, s')
  | r => r

/-- After a statement that completes normally the next one runs. -/
lemma seq_of_normal {p q : Stmt ε σ} {s s' : σ} (h : p s = (.normal, s')) :
    seq p q s = q s' := by
  simp [seq, h]

/-- After an iteration that completes normally the loop goes on. -/
lemma forEach_cons_of_normal {x : α} {xs : List α} (body : α → Stmt ε σ) {s s' : σ}
    (h : body x s = (.normal, s')) : forEach (x :: xs) body s = forEach xs body s' :=
  seq_of_normal h

/-- **What each iteration keeps, the loop keeps**, however it completes. -/
theorem forEach_invariant {I : σ → Prop} (xs : List α) (body : α → Stmt ε σ)
    (h : ∀ x ∈ xs, ∀ s, I s → I (body x s).2) {s : σ} (hs : I s) : I (forEach xs body s).2 := by
  induction xs generalizing s with
  | nil => exact hs
  | cons x xs ih =>
    have hx : I (body x s).2 := h x List.mem_cons_self s hs
    simp only [forEach, seq]
    split
    · rename_i s' hbody
      rw [hbody] at hx
      exact ih (fun y hy => h y (List.mem_cons_of_mem x hy)) hx
    · exact hx

/-- A loop whose iterations complete normally does so. -/
lemma forEach_normal {xs : List α} {body : α → Stmt ε σ}
    (h : ∀ x ∈ xs, ∀ s, (body x s).1 = .normal) (s : σ) : (forEach xs body s).1 = .normal := by
  induction xs generalizing s with
  | nil => rfl
  | cons x xs ih =>
    have hx : body x s = (.normal, (body x s).2) := Prod.ext (h x List.mem_cons_self s) rfl
    rw [forEach_cons_of_normal body hx]
    exact ih (fun y hy => h y (List.mem_cons_of_mem x hy)) _

/-- A body that completes normally needs no handler. -/
lemma tryExcept_of_normal {body : Stmt ε σ} {handler : ε → Stmt ε σ} {s s' : σ}
    (h : body s = (.normal, s')) : tryExcept body handler s = (.normal, s') := by
  simp [tryExcept, h]

/-- The handler takes over where the body raises. -/
lemma tryExcept_of_raised {body : Stmt ε σ} {handler : ε → Stmt ε σ} {e : ε} {s s' : σ}
    (h : body s = (.raised e, s')) : tryExcept body handler s = handler e s' := by
  simp [tryExcept, h]

/-- The handler does not see a cancellation. -/
lemma tryExcept_of_cancelled {body : Stmt ε σ} {handler : ε → Stmt ε σ} {s s' : σ}
    (h : body s = (.cancelled, s')) : tryExcept body handler s = (.cancelled, s') := by
  simp [tryExcept, h]

/-- **A `finally` clause that completes normally changes only the state.** -/
theorem tryFinally_of_normal {body last : Stmt ε σ} {c : Completion ε} {s s' s'' : σ}
    (hb : body s = (c, s')) (hl : last s' = (.normal, s'')) :
    tryFinally body last s = (c, s'') := by
  simp [tryFinally, hb, hl]

end Stmt
