import InferenceServer.CircuitBreaker.Basic

set_option relaxedAutoImplicit false
set_option autoImplicit false

/-!
# Two breakers that nobody can tell apart

`_refresh` applies a transition that is due by the clock, and every method but `record_success` and
`record_failure` begins with it. So it does not matter to a caller whether somebody else has made it
do so before: two breakers that agree after `_refresh` answer alike for ever.

## Main definitions

* `CircuitBreaker.Alike` — agreement after `_refresh`, from a clock reading on.

## Main results

* `CircuitBreaker.Alike.perform` — every method answers alike and keeps the agreement.
* `CircuitBreaker.alike_refresh` — a breaker that has been polled agrees with itself.
-/

namespace InferenceServer

namespace CircuitBreaker

variable {args : BreakerArgs} {cb c c' c'' : CircuitBreaker args} {now later : ℚ}

/-- `_refresh` leaves nothing to do for an earlier `_refresh`. -/
lemma refresh_refresh (hle : now ≤ later) : (cb.refresh now).refresh later = cb.refresh later := by
  unfold refresh refreshTest
  by_cases h : cb.state = .OPEN ∧ args.cooldownSeconds ≤ now - cb.openedAt
  · have hlater : cb.state = .OPEN ∧ args.cooldownSeconds ≤ later - cb.openedAt :=
      ⟨h.1, h.2.trans (sub_le_sub_right hle _)⟩
    simp [h, hlater, setState]
  · simp [h]

/-- From `now` on the two breakers agree after `_refresh`. -/
def Alike (now : ℚ) (c c' : CircuitBreaker args) : Prop :=
  ∀ u, now ≤ u → c.refresh u = c'.refresh u

namespace Alike

/-- A breaker agrees with itself. -/
lemma refl (now : ℚ) (c : CircuitBreaker args) : Alike now c c := fun _ _ => rfl

/-- The agreement has two sides. -/
lemma symm (h : Alike now c c') : Alike now c' c := fun u hu => (h u hu).symm

/-- Agreement is handed on. -/
lemma trans (h : Alike now c c') (h' : Alike now c' c'') : Alike now c c'' :=
  fun u hu => (h u hu).trans (h' u hu)

/-- The agreement goes on. -/
lemma mono (h : Alike now c c') (hle : now ≤ later) : Alike later c c' :=
  fun u hu => h u (hle.trans hu)

end Alike

/-- A breaker that has been polled agrees with itself. -/
lemma alike_refresh (now : ℚ) (c : CircuitBreaker args) : Alike now (c.refresh now) c :=
  fun _ hu => refresh_refresh hu

/-- `record_success` makes up for a `_refresh` before it. -/
lemma recordSuccess_refresh (now : ℚ) (c : CircuitBreaker args) :
    (c.refresh now).recordSuccess = c.recordSuccess := by
  unfold refresh
  split_ifs with h
  · have ho : c.state = .OPEN := (of_decide_eq_true h).1
    simp [recordSuccess, setState, ho]
  · rfl

/-- `record_failure` opens the breaker whatever its state was, or leaves the state to `_refresh`. -/
lemma recordFailure_refresh (now : ℚ) (c : CircuitBreaker args) :
    Alike now ((c.refresh now).recordFailure now) (c.recordFailure now) := by
  intro u hu
  rcases c.refresh_cases now with ⟨ho, hcool, -⟩ | ⟨-, he⟩
  · have hr : c.refresh now = c.setState .HALF_OPEN := by
      simp [refresh, refreshTest, ho, hcool]
    have hlater : args.cooldownSeconds ≤ u - c.openedAt := hcool.trans (sub_le_sub_right hu _)
    rw [hr]
    unfold recordFailure
    by_cases hopens : c.probeInFlight = true ∨ args.failureThreshold ≤ c.failureCount + 1
    · simp [setState, hopens]
    · simp [setState, hopens, refresh, refreshTest, ho, hlater]
  · rw [he]

namespace Alike

/-- `check` admits and rejects alike, with the same message. -/
lemma check (h : Alike now c c') : c.check now = c'.check now := by
  unfold CircuitBreaker.check
  rw [h now le_rfl]

/-- `status` reports alike. -/
lemma status (h : Alike now c c') : c.status now = c'.status now := by
  unfold CircuitBreaker.status
  rw [h now le_rfl]

/-- `record_success` leaves the same breaker. -/
lemma recordSuccess (h : Alike now c c') : c.recordSuccess = c'.recordSuccess := by
  rw [← recordSuccess_refresh now c, ← recordSuccess_refresh now c', h now le_rfl]

/-- `record_failure` keeps the agreement. -/
lemma recordFailure (h : Alike now c c') :
    Alike now (c.recordFailure now) (c'.recordFailure now) := by
  have hc := recordFailure_refresh now c
  have hc' := recordFailure_refresh now c'
  rw [h now le_rfl] at hc
  exact hc.symm.trans hc'

/-- **Every method answers alike**, and afterwards the two breakers still agree.

**Proof sketch.** One case for each method: those that begin with `_refresh` do the same from there
on, and the two outcomes make up for it. -/
theorem perform (h : Alike now c c') (call : Call) :
    (c.perform now call).2 = (c'.perform now call).2 ∧
      Alike now (c.perform now call).1 (c'.perform now call).1 := by
  cases call with
  | check =>
    simp only [CircuitBreaker.perform, h.check]
    exact ⟨trivial, .refl now _⟩
  | recordSuccess =>
    simp only [CircuitBreaker.perform, h.recordSuccess]
    exact ⟨trivial, .refl now _⟩
  | recordFailure => exact ⟨rfl, h.recordFailure⟩
  | status =>
    simp only [CircuitBreaker.perform, h.status]
    exact ⟨trivial, .refl now _⟩
  | state =>
    simp only [CircuitBreaker.perform, h now le_rfl]
    exact ⟨trivial, .refl now _⟩

end Alike

end CircuitBreaker

end InferenceServer
