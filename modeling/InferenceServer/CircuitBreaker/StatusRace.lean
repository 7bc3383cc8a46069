import InferenceServer.CircuitBreaker.Basic

set_option relaxedAutoImplicit false
set_option autoImplicit false

/-!
# `status()` on a worker thread

`/health` is a plain `def`, so its `status()` runs on a thread of the pool while `check`,
`record_success` and `record_failure` run on the event loop. Each of the three is still atomic;
the `_refresh` inside `status()` is a test, an assignment of `_state` and a write of the gauge,
and anything may happen in between. The reads that build the report come after these and write
nothing.

## Main definitions

* `StatusRace.Phase` — where a `status()` call stands in `_refresh`.
* `StatusRace.RaceState`, `StatusRace.raceStep` — the breaker, the threads, and their steps.
* `StatusRace.StateSafe`, `StatusRace.GaugeSafe` — what is promised of every state.
* `StatusRace.AssignFresh`, `StatusRace.GaugeFresh` — a write that is not out of date.

## Main results

* `StatusRace.exec_refresh` — a thread that is not interrupted performs `_refresh`.
* `StatusRace.status_race` — the promise on the state holds along a run exactly when none of the
  assignments in it is out of date, and the promise on the gauge if no gauge write is, either.
* `StatusRace.status_race_unsafe` — a run with an assignment that is out of date.
-/

namespace InferenceServer

namespace StatusRace

open CircuitBreaker

/-- The program points of one `status()` call, as far as it writes. -/
inductive Phase
  /-- before the test of `_refresh` -/
  | test
  /-- the test has succeeded, before `self._state = new` -/
  | assign
  /-- before `circuit_breaker_state.set(...)` -/
  | gauge
  /-- `_refresh` has returned -/
  | done
  deriving DecidableEq, Repr

/-- The breaker shared by the event loop and the threads, one entry for each `status()` call
entered so far, the time of the latest `record_failure`, which no step reads, and the latest
clock reading. -/
structure RaceState (args : BreakerArgs) where
  cb : CircuitBreaker args
  threads : List Phase
  lastFailure : Option ℚ
  now : ℚ
  deriving DecidableEq

/-- What can happen next: a whole call on the event loop, a thread entering `status()`, or one
atomic step of the thread `i`. -/
inductive RaceAction
  | call (c : Call)
  | enter
  | test (i : ℕ)
  | assign (i : ℕ)
  | gauge (i : ℕ)

variable {args : BreakerArgs}

/-- The start: a new breaker and no thread. -/
def start (args : BreakerArgs) (now : ℚ) : RaceState args where
  cb := new args
  threads := []
  lastFailure := none
  now := now

/-- The thread `i`, standing at `p`, moves on to `q`. -/
def advance (s : RaceState args) (i : ℕ) (p q : Phase) : Option (RaceState args) :=
  if s.threads[i]? = some p then some { s with threads := s.threads.set i q } else none

/-- The effect of an action at time `s.now`. -/
def raceAct (s : RaceState args) : RaceAction → Option (RaceState args)
  | .call c => some
      { s with
        cb := (s.cb.perform s.now c).1
        lastFailure := if c = .recordFailure then some s.now else s.lastFailure }
  | .enter => some { s with threads := s.threads ++ [.test] }
  | .test i => advance s i .test (if s.cb.refreshTest s.now then .assign else .done)
  | .assign i => advance { s with cb := { s.cb with state := .HALF_OPEN } } i .assign .gauge
  | .gauge i =>
      advance { s with cb := { s.cb with stateGauge := gaugeValue .HALF_OPEN } } i .gauge .done

/-- The machine: an action at a clock reading that is not before the latest one. -/
def raceStep (s : RaceState args) (e : ℚ × RaceAction) : Option (RaceState args) :=
  if s.now ≤ e.1 then raceAct { s with now := e.1 } e.2 else none

/-- A step is an action at a clock reading that is not before the latest one. -/
lemma raceStep_eq_some {s s' : RaceState args} {e : ℚ × RaceAction} :
    raceStep s e = some s' ↔ s.now ≤ e.1 ∧ raceAct { s with now := e.1 } e.2 = some s' := by
  unfold raceStep
  split_ifs with h <;> simp [h]

/-- A thread moves on only from where it stands. -/
lemma advance_eq_some {s s' : RaceState args} {i : ℕ} {p q : Phase} :
    advance s i p q = some s' ↔
      s.threads[i]? = some p ∧ { s with threads := s.threads.set i q } = s' := by
  unfold advance
  split_ifs with h <;> simp [h]

/-- **A thread that is not interrupted performs `_refresh`**: entered and run at one clock
reading, it leaves the breaker that the atomic `_refresh` leaves.

**Proof sketch.** By the outcome of the test: the assignment and the gauge write together are
`_set_state`. -/
theorem exec_refresh (cb : CircuitBreaker args) (f : Option ℚ) (t : ℚ) :
    (Machine.exec raceStep ⟨cb, [], f, t⟩
        ([(t, .enter), (t, .test 0)] ++
          if cb.refreshTest t then [(t, .assign 0), (t, .gauge 0)] else [])).map (·.cb) =
      some (cb.refresh t) := by
  by_cases h : cb.refreshTest t = true
  · simp [h, Machine.exec, raceStep, raceAct, advance, refresh, setState]
  · rw [Bool.not_eq_true] at h
    simp [h, Machine.exec, raceStep, raceAct, advance, refresh]

/-! ## What is promised -/

/-- The state is closed exactly while the count is below the threshold, and half-open only after
the cooldown since the last recorded failure. -/
structure StateSafe (s : RaceState args) : Prop where
  closed_iff : s.cb.state = .CLOSED ↔ (s.cb.failureCount : ℤ) < args.failureThreshold
  cooled : s.cb.state = .HALF_OPEN →
    ∃ f, s.lastFailure = some f ∧ args.cooldownSeconds ≤ s.now - f

/-- While no call is in progress the gauge shows the state. -/
def GaugeSafe (s : RaceState args) : Prop :=
  (∀ p ∈ s.threads, p = .done) → s.cb.stateGauge = gaugeValue s.cb.state

/-- An assignment of `HALF_OPEN` finds a breaker that is not closed and whose cooldown has
elapsed, as the test that led to it did. -/
def AssignFresh (s : RaceState args) (e : ℚ × RaceAction) : Prop :=
  match e.2 with
  | .assign _ => s.cb.state ≠ .CLOSED ∧ args.cooldownSeconds ≤ e.1 - s.cb.openedAt
  | _ => True

/-- A gauge write finds the breaker half-open, as the assignment before it left it. -/
def GaugeFresh (s : RaceState args) (e : ℚ × RaceAction) : Prop :=
  match e.2 with
  | .gauge _ => s.cb.state = .HALF_OPEN
  | _ => True

instance (s : RaceState args) : ∀ e : ℚ × RaceAction, Decidable (AssignFresh s e)
  | (_, .assign _) => inferInstanceAs (Decidable (_ ∧ _))
  | (_, .call _) | (_, .enter) | (_, .test _) | (_, .gauge _) => isTrue trivial

instance (s : RaceState args) : ∀ e : ℚ × RaceAction, Decidable (GaugeFresh s e)
  | (_, .gauge _) => inferInstanceAs (Decidable (_ = _))
  | (_, .call _) | (_, .enter) | (_, .test _) | (_, .assign _) => isTrue trivial

/-! ## Invariants -/

/-- From the limit on, `openedAt` is the time of the last recorded failure. -/
def OpenedAtLast (s : RaceState args) : Prop :=
  args.limit ≤ s.cb.failureCount → s.lastFailure = some s.cb.openedAt

/-- Every step keeps `openedAt` at the last recorded failure.

**Proof sketch.** Only calls touch the count, `openedAt` and the last failure. `record_failure`
below the limit and `record_success` leave a count below the limit; `record_failure` at the
limit sets `openedAt`; the other calls leave all three alone. -/
lemma OpenedAtLast.step {s s' : RaceState args} {e : ℚ × RaceAction} (h : OpenedAtLast s)
    (hstep : raceStep s e = some s') : OpenedAtLast s' := by
  obtain ⟨t, a⟩ := e
  obtain ⟨-, ha⟩ := raceStep_eq_some.mp hstep
  cases a with
  | call c =>
    simp only [raceAct, Option.some.injEq] at ha
    subst ha
    intro hlim
    cases c with
    | check =>
      rcases s.cb.check_cases t with ⟨-, he⟩ | ⟨-, -, he⟩ | ⟨-, e, -, he⟩ <;>
        simp only [perform, he, countRejection, refresh_failureCount, refresh_openedAt]
          at hlim ⊢ <;>
        exact h hlim
    | recordSuccess =>
      simp [perform, BreakerArgs.limit] at hlim
    | recordFailure =>
      simp only [perform, recordFailure_failureCount] at hlim
      rcases s.cb.recordFailure_cases t with ⟨-, -, ho⟩ | ⟨⟨-, hl⟩, -⟩
      · simp [perform, ho]
      · omega
    | status => simpa [perform, status] using h (by simpa [perform, status] using hlim)
    | state => simpa [perform] using h (by simpa [perform] using hlim)
  | enter =>
    simp only [raceAct, Option.some.injEq] at ha
    subst ha
    exact h
  | test i =>
    obtain ⟨-, rfl⟩ := advance_eq_some.mp ha
    exact h
  | assign i =>
    obtain ⟨-, rfl⟩ := advance_eq_some.mp ha
    exact h
  | gauge i =>
    obtain ⟨-, rfl⟩ := advance_eq_some.mp ha
    exact h

/-- A step whose assignments are not out of date keeps the fields consistent.

**Proof sketch.** Whole calls do (`Consistent.perform`). An assignment of `HALF_OPEN` that is
not out of date finds the count at the limit and the cooldown elapsed. The gauge is not among
the consistent fields. -/
lemma consistent_step {s s' : RaceState args} {e : ℚ × RaceAction}
    (h : s.cb.Consistent s.now) (hf : AssignFresh s e) (hstep : raceStep s e = some s') :
    s'.cb.Consistent s'.now := by
  obtain ⟨t, a⟩ := e
  obtain ⟨ht, ha⟩ := raceStep_eq_some.mp hstep
  have h := h.mono ht
  cases a with
  | call c =>
    simp only [raceAct, Option.some.injEq] at ha
    subst ha
    exact h.perform c
  | enter =>
    simp only [raceAct, Option.some.injEq] at ha
    subst ha
    exact h
  | test i =>
    obtain ⟨-, rfl⟩ := advance_eq_some.mp ha
    exact h
  | assign i =>
    obtain ⟨-, rfl⟩ := advance_eq_some.mp ha
    obtain ⟨hne, hcool⟩ := hf
    have hlim : ¬ s.cb.failureCount < args.limit := by
      rw [← h.closed_iff]
      exact hne
    exact ⟨by simpa using hlim, fun _ => rfl, fun _ => hcool, fun _ => h.openedAt_le hne⟩
  | gauge i =>
    obtain ⟨-, rfl⟩ := advance_eq_some.mp ha
    exact ⟨h.closed_iff, h.halfOpen_of_probe, h.cooled, h.openedAt_le⟩

/-- The gauge shows the state, or a thread is about to set it to the half-open state. -/
def GaugePending (s : RaceState args) : Prop :=
  s.cb.stateGauge = gaugeValue s.cb.state ∨ s.cb.state = .HALF_OPEN ∧ .gauge ∈ s.threads

/-- A thread that stands elsewhere is still in the list when another one moves on. -/
private lemma mem_set_of_ne {l : List Phase} {i : ℕ} {p q r : Phase} (hr : r ∈ l)
    (hi : l[i]? = some p) (hne : p ≠ r) : r ∈ l.set i q := by
  obtain ⟨j, hj⟩ := List.mem_iff_getElem?.mp hr
  refine List.mem_iff_getElem?.mpr ⟨j, ?_⟩
  have hij : i ≠ j := by
    rintro rfl
    rw [hi] at hj
    exact hne (Option.some.inj hj)
  rw [List.getElem?_set_ne hij]
  exact hj

/-- A step whose gauge writes are not out of date keeps the gauge right or about to be. -/
lemma GaugePending.step {s s' : RaceState args} {e : ℚ × RaceAction} (h : GaugePending s)
    (hf : GaugeFresh s e) (hstep : raceStep s e = some s') : GaugePending s' := by
  obtain ⟨t, a⟩ := e
  obtain ⟨-, ha⟩ := raceStep_eq_some.mp hstep
  cases a with
  | call c =>
    simp only [raceAct, Option.some.injEq] at ha
    subst ha
    unfold GaugePending
    rcases s.cb.perform_gauge t c with hg | ⟨hs, hg⟩
    · exact .inl hg
    · dsimp only
      rw [hs, hg]
      exact h
  | enter =>
    simp only [raceAct, Option.some.injEq] at ha
    subst ha
    apply h.imp_right
    rintro ⟨hs, hm⟩
    exact ⟨hs, List.mem_append_left _ hm⟩
  | test i =>
    obtain ⟨hi, rfl⟩ := advance_eq_some.mp ha
    apply h.imp_right
    rintro ⟨hs, hm⟩
    exact ⟨hs, mem_set_of_ne hm hi (by decide)⟩
  | assign i =>
    obtain ⟨hi, rfl⟩ := advance_eq_some.mp ha
    exact .inr ⟨rfl, List.mem_set (List.getElem?_eq_some_iff.mp hi).1 _⟩
  | gauge i =>
    obtain ⟨hi, rfl⟩ := advance_eq_some.mp ha
    refine .inl ?_
    dsimp only
    rw [show s.cb.state = .HALF_OPEN from hf]

/-- Consistent fields and `openedAt` at the last failure make the state safe. -/
lemma stateSafe_of_consistent (hthr : 1 ≤ args.failureThreshold) {s : RaceState args}
    (hl : OpenedAtLast s) (hc : s.cb.Consistent s.now) : StateSafe s where
  closed_iff := by
    rw [hc.closed_iff, BreakerArgs.limit]
    omega
  cooled hs := ⟨s.cb.openedAt, hl (hc.limit_le (.inr (by simp [hs]))), hc.cooled hs⟩

/-- A new breaker has no failure to remember. -/
lemma openedAtLast_start (t₀ : ℚ) : OpenedAtLast (start args t₀) := by
  intro hlim
  simp [start, new, BreakerArgs.limit] at hlim

/-- After a run whose assignments are not out of date the state is safe. -/
lemma stateSafe_exec (hthr : 1 ≤ args.failureThreshold) {t₀ : ℚ} {s : RaceState args}
    {es : List (ℚ × RaceAction)}
    (hC : Machine.StepsSatisfy raceStep AssignFresh (start args t₀) es)
    (hrun : Machine.exec raceStep (start args t₀) es = some s) : StateSafe s := by
  have hc₀ : (start args t₀).cb.Consistent (start args t₀).now := consistent_new t₀
  have hinv : OpenedAtLast s ∧ s.cb.Consistent s.now := by
    refine Machine.exec_invariant_of_steps (I := fun s => OpenedAtLast s ∧ s.cb.Consistent s.now)
      ?_ ⟨openedAtLast_start t₀, hc₀⟩ hC hrun
    rintro s e s' ⟨hl, hc⟩ hf hstep
    exact ⟨hl.step hstep, consistent_step hc hf hstep⟩
  exact stateSafe_of_consistent hthr hinv.1 hinv.2

/-- After a run whose gauge writes are not out of date the gauge shows the state when no call is
in progress. -/
lemma gaugeSafe_exec {t₀ : ℚ} {s : RaceState args} {es : List (ℚ × RaceAction)}
    (hC : Machine.StepsSatisfy raceStep GaugeFresh (start args t₀) es)
    (hrun : Machine.exec raceStep (start args t₀) es = some s) : GaugeSafe s := by
  have hg : GaugePending s := by
    refine Machine.exec_invariant_of_steps ?_ (.inl rfl) hC hrun
    intro s e s' hg hf hstep
    exact hg.step hf hstep
  intro hdone
  rcases hg with hg | ⟨-, hm⟩
  · exact hg
  · exact absurd (hdone _ hm) (by decide)

/-- An assignment between two safe states was not out of date.

**Proof sketch.** It does not change the count, so the state before was closed only if the state
after, half-open, were; and the cooldown has elapsed since the last failure, which is
`openedAt`. -/
lemma assignFresh_of_stateSafe (hthr : 1 ≤ args.failureThreshold) {s s' : RaceState args}
    {e : ℚ × RaceAction} (hl : OpenedAtLast s) (hs : StateSafe s) (hs' : StateSafe s')
    (hstep : raceStep s e = some s') : AssignFresh s e := by
  obtain ⟨t, a⟩ := e
  cases a with
  | call c => trivial
  | enter => trivial
  | test i => trivial
  | gauge i => trivial
  | assign i => ?_
  obtain ⟨-, ha⟩ := raceStep_eq_some.mp hstep
  obtain ⟨-, rfl⟩ := advance_eq_some.mp ha
  have hcount : ¬ (s.cb.failureCount : ℤ) < args.failureThreshold := by
    simpa using hs'.closed_iff
  obtain ⟨f, hf, hcool⟩ := hs'.cooled rfl
  refine ⟨mt hs.closed_iff.mp hcount, ?_⟩
  have hlim : args.limit ≤ s.cb.failureCount := by
    unfold BreakerArgs.limit
    omega
  obtain rfl : s.cb.openedAt = f := Option.some.inj ((hl hlim).symm.trans hf)
  exact hcool

/-- **When `status()` is safe on a thread.** Along every run of calls, threads and clock
readings on a new breaker: every state is safe exactly when every assignment of `HALF_OPEN` by a
thread finds a breaker that is not closed and whose cooldown has elapsed; and if, besides, every
gauge write by a thread finds the breaker half-open, then in every state without a call in
progress the gauge shows the state.

**Proof sketch.** Under the condition the fields stay consistent, and `openedAt` is the last
failure in any case (`stateSafe_exec`). Conversely an assignment between two safe states was not
out of date (`assignFresh_of_stateSafe`). The gauge is wrong only while a thread is about to correct
it (`gaugeSafe_exec`). -/
theorem status_race (args : BreakerArgs) (hthr : 1 ≤ args.failureThreshold) (t₀ : ℚ)
    (es : List (ℚ × RaceAction)) (s : RaceState args)
    (hrun : Machine.exec raceStep (start args t₀) es = some s) :
    (Machine.StepsSatisfy raceStep AssignFresh (start args t₀) es ↔
      Machine.Along raceStep StateSafe (start args t₀) es) ∧
    (Machine.StepsSatisfy raceStep (fun s e => AssignFresh s e ∧ GaugeFresh s e)
        (start args t₀) es →
      Machine.Along raceStep (fun s => StateSafe s ∧ GaugeSafe s) (start args t₀) es) := by
  have hsafe : Machine.StepsSatisfy raceStep AssignFresh (start args t₀) es →
      Machine.Along raceStep StateSafe (start args t₀) es := by
    intro hC pre t hpre ht
    exact stateSafe_exec hthr (hC.of_prefix hpre) ht
  refine ⟨⟨hsafe, ?_⟩, ?_⟩
  · intro hP
    refine Machine.steps_of_along (I := OpenedAtLast) ?_ ?_ (openedAtLast_start t₀) hrun hP
    · intro s e s' hl hstep
      exact hl.step hstep
    · intro s e s' hl hs hs' hstep
      exact assignFresh_of_stateSafe hthr hl hs hs' hstep
  · intro hC pre t hpre ht
    have hassign : Machine.StepsSatisfy raceStep AssignFresh (start args t₀) es := by
      intro pre e t hpre ht
      exact (hC pre e t hpre ht).1
    have hgauge : Machine.StepsSatisfy raceStep GaugeFresh (start args t₀) pre := by
      intro pre' e t hpre' ht
      exact (hC pre' e t (hpre'.trans hpre) ht).2
    exact ⟨hsafe hassign pre t hpre ht, gaugeSafe_exec hgauge ht⟩

/-- A thread that polls an open breaker after its cooldown, with a check behind it: no write is
out of date. -/
theorem status_race_undisturbed :
    Machine.Along raceStep (fun s => StateSafe s ∧ GaugeSafe s) (start ⟨1, 1⟩ 0)
      [(0, .call .recordFailure), (1, .enter), (1, .test 0), (1, .assign 0), (1, .call .check),
        (1, .gauge 0)] :=
  (status_race ⟨1, 1⟩ (by decide) 0 _
    { cb := { state := .HALF_OPEN, failureCount := 1, rejections := 0, openedAt := 0,
              probeInFlight := true, stateGauge := 1, rejectionsCounter := 0 }
      threads := [.done], lastFailure := some 0, now := 1 } (by decide +kernel)).2
    (by decide +kernel)

/-- A thread tests an open breaker after its cooldown, and before it assigns the probe is
admitted and succeeds. -/
def staleRun : List (ℚ × RaceAction) :=
  [(0, .call .recordFailure), (1, .enter), (1, .test 0), (1, .call .check),
    (1, .call .recordSuccess), (1, .assign 0), (1, .gauge 0)]

/-- **`status()` is not safe on a thread**: after `staleRun` the breaker is half-open although no
failure has been recorded since the last success. -/
theorem status_race_unsafe :
    ¬ Machine.Along raceStep (fun s => StateSafe s ∧ GaugeSafe s) (start ⟨1, 1⟩ 0) staleRun := by
  intro h
  have hend : Machine.exec raceStep (start ⟨1, 1⟩ 0) staleRun = some
      { cb := { state := .HALF_OPEN, failureCount := 0, rejections := 0, openedAt := 0,
                probeInFlight := false, stateGauge := 1, rejectionsCounter := 0 }
        threads := [.done], lastFailure := some 0, now := 1 } := by
    decide +kernel
  have hsafe := (h.finish hend).1.closed_iff
  simp at hsafe

end StatusRace

end InferenceServer
