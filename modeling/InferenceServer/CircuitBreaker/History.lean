import InferenceServer.CircuitBreaker.Basic

set_option relaxedAutoImplicit false
set_option autoImplicit false

/-!
# The circuit breaker as a function of its outcome history

The code keeps five mutable fields and turns an open breaker half-open only when somebody looks.
Here is what the component is for, with no state at all: everything a caller can see is a
function of the calls made so far, and polls do not count among them.

## Main definitions

* `CircuitBreaker.History` — the calls made so far, newest first.
* `History.failures`, `History.lastFailure` — the failures since the last success, and the time
  of the latest failure.
* `History.stateAt`, `History.probed`, `History.Admits`, `History.rejected`, `History.report` — the
  state at a time, whether the probe is out, which checks are admitted, how many were not, and what
  `status()` reports.
* `CircuitBreaker.Refines` — the object agrees with a history.

## Main results

* `CircuitBreaker.refines_exec` — after every run the object agrees with the calls made.
* `CircuitBreaker.breaker_refines_history` — what the object reports is what the history says,
  and polling changes none of it.

## Design

The relation `Refines` carries `Consistent`: the lazy transition agrees with the history only
because a held token means half-open, and a breaker that is not closed has its latest failure in
`openedAt`.
-/

namespace InferenceServer

namespace CircuitBreaker

/-- Calls with the clock readings they were made at, newest first. -/
abbrev History := List (ℚ × Call)

/-- The calls that only look: `status()` and reads of `state`. -/
def Call.isPoll : Call → Bool
  | .status => true
  | .state => true
  | _ => false

/-- A trace without its polls. -/
def erasePolls (h : List (ℚ × Call)) : List (ℚ × Call) := h.filter fun e => !e.2.isPoll

/-- A poll is dropped from a trace. -/
lemma erasePolls_cons_poll {c : Call} (hc : c.isPoll = true) (t : ℚ) (h : List (ℚ × Call)) :
    erasePolls ((t, c) :: h) = erasePolls h := by
  simp [erasePolls, hc]

/-- Every other call stays in it. -/
lemma erasePolls_cons_call {c : Call} (hc : c.isPoll = false) (t : ℚ)
    (h : List (ℚ × Call)) : erasePolls ((t, c) :: h) = (t, c) :: erasePolls h := by
  simp [erasePolls, hc]

namespace History

/-- The number of `record_failure` calls since the last `record_success`. -/
def failures : History → ℕ
  | [] => 0
  | (_, c) :: h =>
    match c with
    | .recordSuccess => 0
    | .recordFailure => failures h + 1
    | _ => failures h

/-- The time of the last `record_failure`. -/
def lastFailure : History → Option ℚ
  | [] => none
  | (t, c) :: h =>
    match c with
    | .recordFailure => some t
    | _ => lastFailure h

variable (args : BreakerArgs)

/-- The state at time `t`: closed below the threshold, open for `cooldownSeconds` from the last
failure on, half-open from then on. -/
def stateAt (h : History) (t : ℚ) : State :=
  if (failures h : ℤ) < args.failureThreshold then .CLOSED
  else
    match lastFailure h with
    | some f => if t - f < args.cooldownSeconds then .OPEN else .HALF_OPEN
    | none => .HALF_OPEN

/-- A `check` has been admitted half-open since the last recorded outcome. -/
def probed : History → Bool
  | [] => false
  | (t, c) :: h =>
    match c with
    | .check => probed h || (stateAt args h t == .HALF_OPEN && !probed h)
    | .recordSuccess => false
    | .recordFailure => false
    | _ => probed h

/-- A `check` at time `t` is admitted: the breaker is closed, or it is half-open and no check
has been admitted half-open since the last recorded outcome. -/
def Admits (h : History) (t : ℚ) : Prop :=
  stateAt args h t = .CLOSED ∨ stateAt args h t = .HALF_OPEN ∧ probed args h = false

instance (h : History) (t : ℚ) : Decidable (Admits args h t) :=
  inferInstanceAs (Decidable (_ ∨ _))

/-- The number of checks that were not admitted. -/
def rejected : History → ℕ
  | [] => 0
  | (t, c) :: h =>
    match c with
    | .check => if Admits args h t then rejected h else rejected h + 1
    | _ => rejected h

/-- What `status()` reports at time `t`. -/
def report (h : History) (t : ℚ) : Status where
  state := (stateAt args h t).value
  failureCount := failures h
  threshold := args.failureThreshold
  cooldownSeconds := args.cooldownSeconds
  rejections := rejected args h
  secondsUntilProbe :=
    if stateAt args h t = .OPEN then
      (lastFailure h).map fun f => pyRound (max 0 (args.cooldownSeconds - (t - f))) 1
    else none
  probeInFlight := if stateAt args h t = .HALF_OPEN then some (probed args h) else none

/-! ### Polls do not count -/

/-- Dropping the polls changes neither the count nor the time of the failures. -/
lemma failures_erasePolls (h : History) :
    failures (erasePolls h) = failures h ∧ lastFailure (erasePolls h) = lastFailure h := by
  induction h with
  | nil => exact ⟨rfl, rfl⟩
  | cons e h ih =>
    obtain ⟨t, c⟩ := e
    cases hc : c.isPoll with
    | true =>
      rw [erasePolls_cons_poll hc]
      cases c <;> first | exact ih | cases hc
    | false =>
      rw [erasePolls_cons_call hc]
      cases c <;> simp [failures, lastFailure, ih.1, ih.2]

/-- Dropping the polls changes no state. -/
lemma stateAt_erasePolls (h : History) (t : ℚ) :
    stateAt args (erasePolls h) t = stateAt args h t := by
  obtain ⟨hf, hl⟩ := failures_erasePolls h
  simp only [stateAt, hf, hl]

/-- Dropping the polls changes neither the probe flag nor the number of rejections.

**Proof sketch.** Induction on the history. A check sees the same state without the polls
(`stateAt_erasePolls`) and, by the induction hypothesis, the same probe flag. -/
lemma probed_erasePolls (h : History) :
    probed args (erasePolls h) = probed args h ∧
      rejected args (erasePolls h) = rejected args h := by
  induction h with
  | nil => exact ⟨rfl, rfl⟩
  | cons e h ih =>
    obtain ⟨t, c⟩ := e
    have hs := stateAt_erasePolls args h t
    cases hc : c.isPoll with
    | true =>
      rw [erasePolls_cons_poll hc]
      cases c <;> first | exact ih | cases hc
    | false =>
      have ha : Admits args (erasePolls h) t ↔ Admits args h t := by
        simp only [Admits, hs, ih.1]
      rw [erasePolls_cons_call hc]
      cases c <;> simp only [probed, rejected, ha, hs, ih.1, ih.2, and_self]

end History

open History

variable {args : BreakerArgs} {cb cb' : CircuitBreaker args} {h h' : History}
  {now now' t : ℚ}

/-! ## The refinement -/

/-- The object agrees with the history `h` of its calls at clock reading `now`. -/
structure Refines (h : History) (cb : CircuitBreaker args) (now : ℚ) : Prop where
  consistent : cb.Consistent now
  failureCount : cb.failureCount = failures h
  openedAt : cb.state ≠ .CLOSED → lastFailure h = some cb.openedAt
  probeInFlight : cb.probeInFlight = probed args h
  rejections : cb.rejections = rejected args h

namespace Refines

/-- A new object agrees with the empty history. -/
lemma initial (t : ℚ) : Refines [] (new args) t where
  consistent := consistent_new t
  failureCount := rfl
  openedAt := by simp [new]
  probeInFlight := rfl
  rejections := rfl

/-- Agreement outlasts the passing of time. -/
lemma mono (hr : Refines h cb now) (ht : now ≤ t) : Refines h cb t :=
  { hr with consistent := hr.consistent.mono ht }

/-- The state seen at `t` is the one the history gives.

**Proof sketch.** Closed on both sides means a count below the threshold, by `closed_iff`. Above
it `openedAt` is the last failure, and the stored state is open or half-open; a stored
`HALF_OPEN` was reached after the cooldown and time has only passed since. -/
lemma refresh_state (hr : Refines h cb now) (hthr : 1 ≤ args.failureThreshold) (ht : now ≤ t) :
    (cb.refresh t).state = stateAt args h t := by
  have hlim : cb.state = .CLOSED ↔ (failures h : ℤ) < args.failureThreshold := by
    rw [hr.consistent.closed_iff, hr.failureCount, BreakerArgs.limit]
    omega
  unfold stateAt
  by_cases hc : cb.state = .CLOSED
  · rw [if_pos (hlim.mp hc), refresh_state_eq_closed_iff]
    exact hc
  · rw [if_neg (mt hlim.mpr hc), hr.openedAt hc]
    dsimp only
    split_ifs with ho
    · rw [refresh_state_eq_open_iff]
      refine ⟨?_, ho⟩
      cases hs : cb.state with
      | CLOSED => exact absurd hs hc
      | OPEN => rfl
      | HALF_OPEN => exact absurd ho (not_lt.mpr ((hr.consistent.mono ht).cooled hs))
    · cases hs : (cb.refresh t).state with
      | CLOSED => exact absurd ((cb.refresh_state_eq_closed_iff t).mp hs) hc
      | OPEN => exact absurd ((cb.refresh_state_eq_open_iff t).mp hs).2 ho
      | HALF_OPEN => rfl

/-- `check` at `t` returns exactly when the history admits it. -/
lemma check_isOk (hr : Refines h cb now) (hthr : 1 ≤ args.failureThreshold) (ht : now ≤ t) :
    (cb.check t).2.isOk ↔ Admits args h t := by
  have hs := hr.refresh_state hthr ht
  unfold Admits
  rw [← hs, ← hr.probeInFlight]
  rcases cb.check_cases t with ⟨hc, he⟩ | ⟨hh, hp, he⟩ | ⟨hn, e, -, he⟩
  · simp [he, hc, Except.isOk, Except.toBool]
  · simp [he, hh, hp, Except.isOk, Except.toBool]
  · rcases hn with ho | ⟨hh, hp⟩
    · simp [he, ho, Except.isOk, Except.toBool]
    · simp [he, hh, hp, Except.isOk, Except.toBool]

/-- `status` at `t` reports what the history says. -/
lemma status_eq (hr : Refines h cb now) (hthr : 1 ≤ args.failureThreshold) (ht : now ≤ t) :
    (cb.status t).2 = report args h t := by
  have hs := hr.refresh_state hthr ht
  unfold CircuitBreaker.status report
  simp only [← hs, refresh_failureCount, refresh_rejections, refresh_probeInFlight,
    ← hr.failureCount, ← hr.rejections, ← hr.probeInFlight]
  congr 1
  split_ifs with ho
  · have hopen := ((cb.refresh_state_eq_open_iff t).mp ho).1
    rw [hr.openedAt (by simp [hopen]), wait, refresh_openedAt]
    rfl
  · rfl

/-- `check` keeps the agreement. -/
lemma check (hr : Refines h cb t) (hthr : 1 ≤ args.failureThreshold) :
    Refines ((t, .check) :: h) (cb.check t).1 t := by
  have hs := hr.refresh_state hthr le_rfl
  have hopen : (cb.refresh t).state ≠ .CLOSED → lastFailure h = some cb.openedAt := by
    rw [Ne, refresh_state_eq_closed_iff]
    exact hr.openedAt
  rcases cb.check_cases t with ⟨hc, he⟩ | ⟨hh, hp, he⟩ | ⟨hn, e, -, he⟩
  · have hst : stateAt args h t = .CLOSED := by
      rw [← hs, refresh_state_eq_closed_iff]
      exact hc
    rw [he]
    exact ⟨hr.consistent, hr.failureCount, hr.openedAt, by simp [probed, hst, hr.probeInFlight],
      by simp [rejected, Admits, hst, hr.rejections]⟩
  · have hst : stateAt args h t = .HALF_OPEN := hs ▸ hh
    have hpr : probed args h = false := hr.probeInFlight ▸ hp
    have hcons := hr.consistent.check
    rw [he] at hcons ⊢
    exact ⟨hcons, by simp [failures, hr.failureCount], by simpa [lastFailure] using hopen,
      by simp [probed, hst, hpr], by simp [rejected, Admits, hst, hpr, hr.rejections]⟩
  · have hcons := hr.consistent.check
    rw [he] at hcons ⊢
    refine ⟨hcons, by simp [countRejection, failures, hr.failureCount],
      by simpa [countRejection, lastFailure] using hopen, ?_, ?_⟩
    · rcases hn with ho | ⟨hh, hp⟩
      · simp [countRejection, probed, hr.probeInFlight, ← hs, ho]
      · simp [countRejection, probed, ← hr.probeInFlight, hp]
    · rcases hn with ho | ⟨hh, hp⟩
      · simp [countRejection, rejected, Admits, ← hs, ho, hr.rejections]
      · simp [countRejection, rejected, Admits, ← hs, hh, ← hr.probeInFlight, hp, hr.rejections]

/-- A poll keeps the agreement. -/
lemma refresh (hr : Refines h cb t) : Refines h (cb.refresh t) t where
  consistent := hr.consistent.refresh
  failureCount := by simp [hr.failureCount]
  openedAt := by
    rw [Ne, refresh_state_eq_closed_iff, refresh_openedAt]
    exact hr.openedAt
  probeInFlight := by simp [hr.probeInFlight]
  rejections := by simp [hr.rejections]

/-- **Every call keeps the agreement.** -/
theorem perform (hr : Refines h cb now) (hthr : 1 ≤ args.failureThreshold) (ht : now ≤ t)
    (c : Call) : Refines ((t, c) :: h) (cb.perform t c).1 t := by
  have hr := hr.mono ht
  cases c with
  | check => exact hr.check hthr
  | recordSuccess =>
    exact ⟨.recordSuccess cb t, by simp [CircuitBreaker.perform, failures],
      by simp [CircuitBreaker.perform], by simp [CircuitBreaker.perform, probed],
      by simp [CircuitBreaker.perform, rejected, hr.rejections]⟩
  | recordFailure =>
    refine ⟨hr.consistent.recordFailure,
      by simp [CircuitBreaker.perform, failures, hr.failureCount], ?_,
      by simp [CircuitBreaker.perform, probed],
      by simp [CircuitBreaker.perform, rejected, hr.rejections]⟩
    intro hs
    rcases hr.consistent.recordFailure_state t with ⟨-, -, ho⟩ | ⟨-, -, hc⟩
    · simp [CircuitBreaker.perform, lastFailure, ho]
    · exact absurd hc hs
  | status =>
    obtain ⟨h1, h2, h3, h4, h5⟩ := hr.refresh
    exact ⟨h1, h2, h3, h4, h5⟩
  | state =>
    obtain ⟨h1, h2, h3, h4, h5⟩ := hr.refresh
    exact ⟨h1, h2, h3, h4, h5⟩

/-- Two objects whose histories differ only in polls answer every later call alike.

**Proof sketch.** Without the polls the histories are equal, so the two refreshed objects agree
in state, count, probe flag and rejections, and in `openedAt` while not closed. Each reply is
computed from these, the waiting time only while open. -/
lemma reply_eq (hr : Refines h cb now) (hr' : Refines h' cb' now')
    (hthr : 1 ≤ args.failureThreshold) (he : erasePolls h' = erasePolls h) (ht : now ≤ t)
    (ht' : now' ≤ t) (c : Call) : (cb'.perform t c).2 = (cb.perform t c).2 := by
  have hst : (cb'.refresh t).state = (cb.refresh t).state := by
    rw [hr.refresh_state hthr ht, hr'.refresh_state hthr ht', ← stateAt_erasePolls, he,
      stateAt_erasePolls]
  have hfc : cb'.failureCount = cb.failureCount := by
    rw [hr.failureCount, hr'.failureCount, ← (failures_erasePolls h').1, he,
      (failures_erasePolls h).1]
  have hpr : cb'.probeInFlight = cb.probeInFlight := by
    rw [hr.probeInFlight, hr'.probeInFlight, ← (probed_erasePolls args h').1, he,
      (probed_erasePolls args h).1]
  have hrj : cb'.rejections = cb.rejections := by
    rw [hr.rejections, hr'.rejections, ← (probed_erasePolls args h').2, he,
      (probed_erasePolls args h).2]
  have hop : (cb.refresh t).state = .OPEN → cb'.openedAt = cb.openedAt := by
    intro ho
    have ho' := (cb'.refresh_state_eq_open_iff t).mp (hst.trans ho)
    rw [refresh_state_eq_open_iff] at ho
    have h1 := hr.openedAt (by simp [ho.1])
    have h2 := hr'.openedAt (by simp [ho'.1])
    rw [← (failures_erasePolls h').2, he, (failures_erasePolls h).2, h1] at h2
    exact (Option.some.inj h2).symm
  cases c with
  | check =>
    cases hs : (cb.refresh t).state with
    | CLOSED => simp [CircuitBreaker.perform, CircuitBreaker.check, hst, hs]
    | OPEN =>
      simp [CircuitBreaker.perform, CircuitBreaker.check, hst, hs, openError, wait, hfc, hop hs]
    | HALF_OPEN =>
      cases hp : cb.probeInFlight <;>
        simp [CircuitBreaker.perform, CircuitBreaker.check, hst, hs, hpr, hp]
  | recordSuccess => rfl
  | recordFailure => rfl
  | status =>
    cases hs : (cb.refresh t).state with
    | OPEN => simp [CircuitBreaker.perform, status, hst, hs, wait, hfc, hrj, hop hs]
    | _ => simp [CircuitBreaker.perform, status, hst, hs, hfc, hrj, hpr]
  | state => simp [CircuitBreaker.perform, hst]

end Refines

/-- **After every run the object agrees with the calls made.** -/
theorem refines_exec (hthr : 1 ≤ args.failureThreshold) {t₀ : ℚ} {calls : List (ℚ × Call)}
    (hrun : Machine.exec step (new args, t₀) calls = some (cb, now)) :
    Refines calls.reverse cb now := by
  refine Machine.exec_induction
    (P := fun calls (s : CircuitBreaker args × ℚ) => Refines calls.reverse s.1 s.2)
    ?_ ?_ calls (cb, now) hrun
  · exact Refines.initial t₀
  · rintro calls ⟨t, c⟩ ⟨cb, now⟩ s' - hr hstep
    obtain ⟨ht, rfl⟩ := step_eq_some.mp hstep
    rw [List.reverse_append]
    exact hr.perform hthr ht c

/-- **The breaker refines its outcome history.** After every run of calls at non-decreasing
clock readings on a new breaker: the failure count is the number of failures since the last
success; the state seen at a later time `t`, and whether a check at `t` is admitted, are the ones
the history gives; the rejections are the checks that were not admitted; `status()` at `t` reports
what the history says; and a second run that differs from the first in polls only leaves a breaker
that answers every later call in the same way. -/
theorem breaker_refines_history (args : BreakerArgs) (hthr : 1 ≤ args.failureThreshold)
    (t₀ : ℚ) (calls : List (ℚ × Call)) (cb : CircuitBreaker args) (now : ℚ)
    (hrun : Machine.exec step (new args, t₀) calls = some (cb, now)) :
    cb.failureCount = failures calls.reverse ∧
    (∀ t, now ≤ t → (cb.refresh t).state = stateAt args calls.reverse t) ∧
    (∀ t, now ≤ t → ((cb.check t).2.isOk ↔ Admits args calls.reverse t)) ∧
    cb.rejections = rejected args calls.reverse ∧
    (∀ t, now ≤ t → (cb.status t).2 = report args calls.reverse t) ∧
    (∀ t₀' calls' cb' now', Machine.exec step (new args, t₀') calls' = some (cb', now') →
      erasePolls calls' = erasePolls calls →
      ∀ t c, now ≤ t → now' ≤ t → (cb'.perform t c).2 = (cb.perform t c).2) := by
  have hr := refines_exec hthr hrun
  refine ⟨hr.failureCount, fun t ht => hr.refresh_state hthr ht,
    fun t ht => hr.check_isOk hthr ht, hr.rejections, fun t ht => hr.status_eq hthr ht, ?_⟩
  intro t₀' calls' cb' now' hrun' he t c ht ht'
  have hr' := refines_exec hthr hrun'
  refine hr.reply_eq hr' hthr ?_ ht ht' c
  unfold erasePolls at he ⊢
  rw [List.filter_reverse, List.filter_reverse, he]

/-- Two failures at a threshold of two, a poll before and a check after the cooldown: the check
is the probe. -/
theorem breaker_refines_history_probe :
    Admits ⟨2, 1 / 2⟩ [(1 / 4, .status), (0, .recordFailure), (0, .recordFailure)] 1 :=
  ((breaker_refines_history ⟨2, 1 / 2⟩ (by decide) 0
    [(0, .recordFailure), (0, .recordFailure), (1 / 4, .status)]
    { state := .OPEN, failureCount := 2, rejections := 0, openedAt := 0, probeInFlight := false,
      stateGauge := 2, rejectionsCounter := 0 } (1 / 4) (by decide +kernel)).2.2.1 1
    (by decide +kernel)).mp (by decide +kernel)

end CircuitBreaker

end InferenceServer
