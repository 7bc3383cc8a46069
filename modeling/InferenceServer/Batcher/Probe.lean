import InferenceServer.Batcher.Gate

set_option relaxedAutoImplicit false
set_option autoImplicit false

/-!
# The recovery probe

The probe token is claimed in `predict` and cleared in whichever batch records its outcome next.
So a batch that was admitted before the breaker opened can clear it too early, and if the batch of
the probe records nothing, nobody clears it at all.

## Main definitions

* `InferenceBatcher.ProbeAttended` — a held token has a probe whose outcome can still free it.
* `InferenceBatcher.ProbeUnharmed` — the batch of the probe is not lost to an exception that passes
  the handler.
* `InferenceBatcher.Orphaned` — the token is held, and nothing is left that could free it.
* `InferenceBatcher.ProbeLaw` — what the token is for: while a probe waits for its verdict nobody
  else is admitted, and its failure reopens the breaker.
* `InferenceBatcher.ProbeVerdict` — an outcome recorded while the token is held is the probe's.

## Main results

* `InferenceBatcher.probe_not_orphaned` — the token is attended along a run exactly when no batch
  of a probe with the token is lost.
* `InferenceBatcher.orphaned_exec` — an orphaned token stays so, and everybody is rejected.
* `InferenceBatcher.probe_law` — the law holds along a run exactly when every outcome recorded
  while the token is held is the probe's.
* `InferenceBatcher.probe_law_stale_success` — a run on which it is not.
-/

namespace InferenceServer

/-- `predict_fn` raises `concurrent.futures.CancelledError`. -/
def Behaviour.raisesCancelledError {ρ : Type} : Behaviour ρ → Bool
  | .raised e => e.cls = .futuresCancelledError
  | _ => false

/-- Then the `await` ends with a cancellation. -/
lemma Behaviour.isCancelled_of_raisesCancelledError {ρ : Type} {b : Behaviour ρ}
    (h : b.raisesCancelledError = true) : b.delivered.isCancelled = true := by
  cases b with
  | raised e =>
    have hc : e.cls = .futuresCancelledError := of_decide_eq_true h
    simp [delivered, hc, isCancelled]
  | _ => cases h

/-- An `await` that ends with a cancellation although the task is not cancelled. -/
lemma Behaviour.raisesCancelledError_of_isCancelled {ρ : Type} {b : Behaviour ρ}
    (h : b.delivered.isCancelled = true) (hn : ¬ b.isCancelled = true) :
    b.raisesCancelledError = true := by
  cases b with
  | raised e =>
    rcases he : e.cls <;> simp_all [delivered, isCancelled, raisesCancelledError]
  | _ => exact absurd h hn

/-- The action is the end of a batch on which `predict_fn` raises
`concurrent.futures.CancelledError`. -/
def Action.raisesCancelledError {ρ : Type} : Action ρ → Bool
  | .finish _ b => b.raisesCancelledError
  | _ => false

/-- The task has ended without an outcome. -/
def TaskPhase.lost {ρ : Type} (p : TaskPhase ρ) : Bool := p.ended && !p.recorded

namespace InferenceBatcher

variable {args : BatcherArgs} {ρ : Type} {s s' : InferenceBatcher args ρ} {a : Action ρ}
  {e : ℚ × Action ρ} {f : ℕ}

/-! ## The token has an owner -/

/-- A held token belongs to the latest probe, whose outcome has not been recorded. -/
def TokenOwned (s : InferenceBatcher args ρ) : Prop :=
  s.circuitBreaker.probeInFlight = true → ∃ f, s.latestProbe = some f ∧ s.Awaiting f

/-- Every action keeps a held token owned. -/
lemma Effect.tokenOwned (h : Effect s a s') (hi : FlowInv s) (ht : TokenOwned s) :
    TokenOwned s' := by
  intro hp
  rcases h.gate.token_cases with ⟨-, -, -, text, hc⟩ | ⟨-, hfree, -⟩ | ⟨hv, he, hc⟩
  · refine ⟨_, h.latestProbe_of_probe hc, (h.awaiting_iff hi _).mpr (.inr ?_)⟩
    exact ⟨⟨text, s.futures.length⟩, by simp [hc, items], rfl⟩
  · exact absurd hp (by simp [hfree])
  · obtain ⟨f, hf, hw⟩ := ht (he.symm.trans hp)
    exact ⟨f, (h.latestProbe_eq hc).trans hf,
      (h.awaiting_iff hi f).mpr (.inl ⟨hw, fun hn => hn.1 hv⟩)⟩

/-- Every step keeps a held token owned. -/
lemma tokenOwned_step (hi : FlowInv s) (ht : TokenOwned s) (h : step s e = some s') :
    TokenOwned s' := by
  obtain ⟨-, heff⟩ := step_effect h
  exact heff.tokenOwned (hi.tick _) ht

/-- A new batcher's token is free. -/
lemma tokenOwned_new (t₀ : ℚ) : TokenOwned (new args ρ t₀) := by
  intro hp
  cases hp

/-- **A held token is owned after every run.** -/
theorem tokenOwned_exec {t₀ : ℚ} {es : List (ℚ × Action ρ)}
    (hrun : Machine.exec step (new args ρ t₀) es = some s) : TokenOwned s := by
  refine Machine.exec_invariant_relative (fun _ _ _ => flowInv_step) ?_ (flowInv_new t₀)
    (tokenOwned_new t₀) hrun
  intro s e s' hi ht h
  exact tokenOwned_step hi ht h

/-! ## Batches that end without an outcome -/

/-- `stop()` is never undone. -/
lemma Effect.notCalled (h : Effect s a s') (hs : s'.stopping = .notCalled) :
    s.stopping = .notCalled := by
  cases h with
  | stop permits he hp => exact he
  | stopReturn ks he hk => cases hs
  | _ => exact hs

/-- No batch was stopped before `stop()` was called. -/
lemma notCalled_exec {es : List (ℚ × Action ρ)} (hrun : Machine.exec step s es = some s')
    (hs : s'.stopping = .notCalled) : s.stopping = .notCalled := by
  revert hs
  refine Machine.exec_induction (P := fun _ u => u.stopping = .notCalled → s.stopping = .notCalled)
    id ?_ es s' hrun
  intro es e u u' _ ih hstep hu
  obtain ⟨-, heff⟩ := step_effect hstep
  exact ih (heff.notCalled hu)

/-- The request with the future `f` was in a batch that has ended without an outcome. -/
def Lost (s : InferenceBatcher args ρ) (f : ℕ) : Prop :=
  ∃ t ∈ s.tasks, t.phase.lost = true ∧ ∃ it ∈ t.batch, it.future = f

/-- A request that waits and is not lost is in the queue, in the collector's batch, or in a
dispatched batch that has not ended. -/
lemma Awaiting.pending (h : s.Awaiting f) (hn : ¬ s.Lost f) :
    (∃ it ∈ s.queue, it.future = f) ∨ (∃ it ∈ s.worker.held, it.future = f) ∨
      ∃ t ∈ s.tasks, t.phase.ended = false ∧ ∃ it ∈ t.batch, it.future = f := by
  refine h.imp_right (Or.imp_right ?_)
  rintro ⟨t, ht, hr, hit⟩
  refine ⟨t, ht, Bool.eq_false_iff.mpr fun he => hn ⟨t, ht, ?_, hit⟩, hit⟩
  simp [TaskPhase.lost, he, hr]

/-- A request is lost by the end of its batch. -/
lemma Effect.lost_cases (h : Effect s a s') (hf : s'.Lost f) :
    s.Lost f ∨ ∃ k b, a = .finish k b ∧ b.delivered.isCancelled = true ∧
      ∃ it ∈ s.endedBatch a, it.future = f := by
  obtain ⟨t, ht, hl, hit⟩ := hf
  cases h with
  | dispatch batch hw =>
    rcases List.mem_append.mp ht with ht | ht
    · exact .inl ⟨t, ht, hl, hit⟩
    · obtain rfl := List.mem_singleton.mp ht
      cases hl
  | callPredictFn k batch hk =>
    rcases List.mem_or_eq_of_mem_set ht with ht | rfl
    · exact .inl ⟨t, ht, hl, hit⟩
    · cases hl
  | finish k b batch hk hb =>
    rcases List.mem_or_eq_of_mem_set ht with ht | rfl
    · exact .inl ⟨t, ht, hl, hit⟩
    · refine .inr ⟨k, b, rfl, ?_, by simpa [endedBatch, hk] using hit⟩
      simpa [TaskPhase.lost, TaskPhase.recorded, TaskPhase.ended] using hl
  | batchDone k batch b hk =>
    rcases List.mem_or_eq_of_mem_set ht with ht | rfl
    · exact .inl ⟨t, ht, hl, hit⟩
    · exact .inl ⟨_, List.mem_of_getElem? hk, hl, hit⟩
  | _ => exact .inl ⟨t, ht, hl, hit⟩

/-- Only an admitted request can be lost. -/
lemma FlowInv.lost_lt (hi : FlowInv s) (hf : s.Lost f) : f < s.futures.length := by
  obtain ⟨t, ht, -, it, hit, rfl⟩ := hf
  obtain ⟨k, hk⟩ := List.mem_iff_getElem?.mp ht
  exact hi.future_lt (mem_flow hk hit)

/-- `predict_fn` does not raise `concurrent.futures.CancelledError` on the batch of the probe while
the probe holds the token. -/
def ProbeUnharmed (s : InferenceBatcher args ρ) (e : ℚ × Action ρ) : Prop :=
  e.2.raisesCancelledError = true → s.circuitBreaker.probeInFlight = true →
    ∀ f ∈ s.latestProbe, ∀ it ∈ s.endedBatch e.2, it.future ≠ f

instance (s : InferenceBatcher args ρ) (e : ℚ × Action ρ) : Decidable (ProbeUnharmed s e) :=
  inferInstanceAs (Decidable (_ → _ → _))

/-- The probe that holds the token is not lost. -/
def TokenSafe (s : InferenceBatcher args ρ) : Prop :=
  s.circuitBreaker.probeInFlight = true → ∀ f ∈ s.latestProbe, ¬ s.Lost f

/-- Before `stop()` an action that spares the probe keeps it so.

**Proof sketch.** A new probe has a new future, which no batch has. Otherwise the probe stays the
same, and only a batch whose `predict_fn` raised `concurrent.futures.CancelledError` is lost. -/
lemma Effect.tokenSafe (h : Effect s a s') (hi : FlowInv s) (hs : s.stopping = .notCalled)
    (hC : ProbeUnharmed s (s.now, a)) (hsafe : TokenSafe s) : TokenSafe s' := by
  intro hp f hf hl
  rcases h.gate.token_cases with ⟨-, -, -, text, hc⟩ | ⟨-, hfree, -⟩ | ⟨-, he, hc⟩
  · obtain rfl := Option.some.inj ((h.latestProbe_of_probe hc).symm.trans hf)
    rcases h.lost_cases hl with hl | ⟨k, b, rfl, -⟩
    · exact absurd (hi.lost_lt hl) (lt_irrefl _)
    · cases hc
  · cases hfree.symm.trans hp
  · have hp' : s.circuitBreaker.probeInFlight = true := he.symm.trans hp
    have hf' : f ∈ s.latestProbe := (h.latestProbe_eq hc) ▸ hf
    rcases h.lost_cases hl with hl | ⟨k, b, rfl, hb, it, hit, hif⟩
    · exact hsafe hp' f hf' hl
    · refine hC ?_ hp' f hf' it hit hif
      cases h with
      | finish _ _ batch hk hcan =>
        exact Behaviour.raisesCancelledError_of_isCancelled hb fun hc => hcan hc hs

/-- **The token is safe along every run that spares the probe.** -/
theorem tokenSafe_exec {t₀ : ℚ} {es : List (ℚ × Action ρ)}
    (hC : Machine.StepsSatisfy step ProbeUnharmed (new args ρ t₀) es)
    (hrun : Machine.exec step (new args ρ t₀) es = some s) (hs : s.stopping = .notCalled) :
    TokenSafe s := by
  have hinv : FlowInv s ∧ (s.stopping = .notCalled → TokenSafe s) := by
    refine Machine.exec_invariant_of_steps
      (I := fun s => FlowInv s ∧ (s.stopping = .notCalled → TokenSafe s)) ?_
      ⟨flowInv_new t₀, fun _ hp => by cases hp⟩ hC hrun
    rintro s e s' ⟨hi, hsafe⟩ hC hstep
    obtain ⟨-, heff⟩ := step_effect hstep
    refine ⟨flowInv_step hi hstep, fun hs' => ?_⟩
    have hs := heff.notCalled hs'
    exact heff.tokenSafe (hi.tick _) hs hC (hsafe hs)
  exact hinv.2 hs

/-- A recorded outcome leaves the token free. -/
lemma Effect.token_free (h : Effect s a s') (hv : verdict s a ≠ none) :
    s'.circuitBreaker.probeInFlight = false := by
  rcases h.gate.token_cases with ⟨-, -, hn, -⟩ | ⟨-, hf, -⟩ | ⟨hn, -⟩
  · exact absurd hn hv
  · exact hf
  · exact absurd hn hv

/-- A held token belongs to the most recently admitted probe request; that request is in the queue,
in the collector's batch, or in a dispatched batch that has not ended; and a recorded outcome frees
the token. -/
def ProbeAttended (s : InferenceBatcher args ρ) : Prop :=
  s.circuitBreaker.probeInFlight = true → ∃ f, s.latestProbe = some f ∧
    ((∃ it ∈ s.queue, it.future = f) ∨ (∃ it ∈ s.worker.held, it.future = f) ∨
      ∃ t ∈ s.tasks, t.phase.ended = false ∧ ∃ it ∈ t.batch, it.future = f) ∧
    ∀ t k b s', step s (t, .finish k b) = some s' → verdict s (.finish k b) ≠ none →
      s'.circuitBreaker.probeInFlight = false

/-- A request whose batch has ended is nowhere else. -/
lemma FlowInv.not_pending_of_ended (hi : FlowInv s) {k : ℕ} {t : BatchTask ρ}
    (hk : s.tasks[k]? = some t) (he : t.phase.ended = true) {it : Item} (hit : it ∈ t.batch) :
    ¬ ((∃ x ∈ s.queue, x.future = it.future) ∨ (∃ x ∈ s.worker.held, x.future = it.future) ∨
      ∃ u ∈ s.tasks, u.phase.ended = false ∧ ∃ x ∈ u.batch, x.future = it.future) := by
  obtain ⟨htask, hw, hq⟩ := hi.unique hk hit
  rintro (h | h | ⟨u, hu, hp, hx⟩)
  · exact hq h
  · exact hw h
  · obtain ⟨j, hj⟩ := List.mem_iff_getElem?.mp hu
    obtain rfl := htask j u hj hx
    obtain rfl := Option.some.inj (hk.symm.trans hj)
    cases he.symm.trans hp

/-- A step after which the token is attended has spared the probe.

**Proof sketch.** An end that delivers a cancellation leaves the token and the probe as they were,
and a probe of the batch that it ends is in no other holder. -/
lemma probeUnharmed_of_attended (hi : FlowInv s) (ha : ProbeAttended s') (h : step s e = some s') :
    ProbeUnharmed s e := by
  intro hraise hp f hf it hit hif
  have hi' := flowInv_step hi h
  obtain ⟨-, heff⟩ := step_effect h
  obtain ⟨t, a⟩ := e
  cases heff with
  | finish k b batch hk hb =>
    have hend := Behaviour.isCancelled_of_raisesCancelledError hraise
    have ho : outcome batch.length b = none := outcome_eq_none.mpr hend
    have hget : (s.tasks.set k ⟨batch, .finished b⟩)[k]? = some ⟨batch, .finished b⟩ :=
      List.getElem?_set_self (List.getElem?_eq_some_iff.mp hk).1
    have hmem : it ∈ batch := by simpa [endedBatch, hk] using hit
    obtain ⟨g, hg, hpend, -⟩ := ha (by simpa [ho, record] using hp)
    obtain rfl : f = g := Option.some.inj (hf.symm.trans hg)
    subst hif
    exact hi'.not_pending_of_ended hget rfl hmem hpend
  | _ => cases hraise

/-- **The probe token and `concurrent.futures.CancelledError`.** Before `stop()` the token is
attended in every state of a run exactly when `predict_fn` never raised
`concurrent.futures.CancelledError` on the batch of a probe that held the token.

**Proof sketch.** `TokenOwned` is an invariant: the admission of a probe puts it into the queue,
`Effect.awaiting_iff` keeps it waiting until an outcome is recorded, and every recorded outcome
frees the token. Along a run that meets the condition the probe is not lost, either
(`tokenSafe_exec`). Conversely the batch of the probe that ends with that exception records nothing
and leaves the token held, and no other holder has the probe. -/
theorem probe_not_orphaned (args : BatcherArgs) (ρ : Type) (t₀ : ℚ) (es : List (ℚ × Action ρ))
    (s : InferenceBatcher args ρ) (hrun : Machine.exec step (new args ρ t₀) es = some s)
    (hstop : s.stopping = .notCalled) :
    Machine.StepsSatisfy step ProbeUnharmed (new args ρ t₀) es ↔
      Machine.Along step ProbeAttended (new args ρ t₀) es := by
  constructor
  · intro hC pre u hpre hu hp
    have hstop' : u.stopping = .notCalled := by
      obtain ⟨post, rfl⟩ := hpre
      obtain ⟨m, hm, hpost⟩ := Machine.exec_append_eq_some.mp hrun
      obtain rfl := Option.some.inj (hm.symm.trans hu)
      exact notCalled_exec hpost hstop
    obtain ⟨f, hf, hw⟩ := tokenOwned_exec hu hp
    refine ⟨f, hf, hw.pending (tokenSafe_exec (hC.of_prefix hpre) hu hstop' hp f hf), ?_⟩
    intro t k b s' hstep hv
    obtain ⟨-, heff⟩ := step_effect hstep
    exact heff.token_free hv
  · refine Machine.steps_of_along (I := FlowInv) (fun _ _ _ => flowInv_step) ?_ (flowInv_new t₀)
      hrun
    intro s e s' hi _ ha hstep
    exact probeUnharmed_of_attended hi ha hstep

/-- One request fails and opens the breaker; the next one, after the cooldown, is the probe. -/
def probeRun : List (ℚ × Action ℕ) :=
  [(0, .start), (0, .predict "a"), (0, .collectFirst), (0, .loopTest), (0, .acquire),
    (0, .dispatch), (0, .callPredictFn 0), (0, .finish 0 (.raised ⟨.other, "boom"⟩)),
    (0, .batchDone 0), (1, .predict "p")]

/-- The token is attended all along when the caller of the probe is cancelled in the queue and
`predict_fn` raises an ordinary exception. -/
theorem probe_not_orphaned_cancelled :
    Machine.Along step ProbeAttended (new ⟨1, 0, 1, ⟨1, 1⟩⟩ ℕ 0)
      (probeRun ++ [(1, .cancel 1), (1, .collectFirst), (1, .loopTest), (1, .acquire),
        (1, .dispatch), (1, .callPredictFn 1), (2, .finish 1 (.raised ⟨.other, "boom"⟩))]) := by
  obtain ⟨s, hs, hn⟩ :
      ∃ s ∈ Machine.exec step (new ⟨1, 0, 1, ⟨1, 1⟩⟩ ℕ 0)
        (probeRun ++ [(1, .cancel 1), (1, .collectFirst), (1, .loopTest), (1, .acquire),
          (1, .dispatch), (1, .callPredictFn 1), (2, .finish 1 (.raised ⟨.other, "boom"⟩))]),
        s.stopping = .notCalled := by
    decide +kernel
  exact (probe_not_orphaned _ ℕ 0 _ s hs hn).mp (by decide +kernel)

/-- The token is held, and there is no request whose outcome could free it. -/
structure Orphaned (s : InferenceBatcher args ρ) : Prop where
  probe : s.circuitBreaker.probeInFlight = true
  state : s.circuitBreaker.state = .HALF_OPEN
  queue : s.queue = []
  held : s.worker.held = []
  ended : ∀ t ∈ s.tasks, t.phase.ended = true

instance (s : InferenceBatcher args ρ) : Decidable (Orphaned s) :=
  decidable_of_iff
    (s.circuitBreaker.probeInFlight = true ∧ s.circuitBreaker.state = .HALF_OPEN ∧ s.queue = [] ∧
      s.worker.held = [] ∧ ∀ t ∈ s.tasks, t.phase.ended = true)
    ⟨fun ⟨h₁, h₂, h₃, h₄, h₅⟩ => ⟨h₁, h₂, h₃, h₄, h₅⟩,
      fun h => ⟨h.probe, h.state, h.queue, h.held, h.ended⟩⟩

/-- With the token held nobody is admitted. -/
lemma predict_of_probe (hp : s.circuitBreaker.probeInFlight = true)
    (hs : s.circuitBreaker.state = .HALF_OPEN) (text : String) :
    ∃ e, (s.predict text).2 = .error e := by
  rcases s.circuitBreaker.check_cases s.now with ⟨hcl, -⟩ | ⟨-, hfree, -⟩ | ⟨-, e, -, he⟩
  · cases hs.symm.trans hcl
  · cases hp.symm.trans hfree
  · exact ⟨e, by simp [predict, he]⟩

/-- A step from a state with an orphaned token leads to another one: nobody is admitted, and no
batch is left to record an outcome. -/
lemma Effect.orphaned (h : Effect s a s') (hi : FlowInv s) (ho : Orphaned s) : Orphaned s' := by
  obtain ⟨hp, hs, hq, hh, ht⟩ := ho
  have hr : s.circuitBreaker.refresh s.now = s.circuitBreaker :=
    s.circuitBreaker.refresh_of_ne_open _ (by simp [hs])
  have htask : ∀ (k : ℕ) (t : BatchTask ρ), s.tasks[k]? = some t → t.phase.ended = true :=
    fun k t hk => ht t (List.mem_of_getElem? hk)
  cases h with
  | reject text cb e hc =>
    rcases s.circuitBreaker.check_cases s.now with ⟨-, he⟩ | ⟨-, -, he⟩ | ⟨-, x, -, he⟩
    · cases hc.symm.trans he
    · cases hc.symm.trans he
    · obtain ⟨rfl, -⟩ := Prod.mk.inj (hc.symm.trans he)
      rw [hr]
      exact ⟨hp, hs, hq, hh, ht⟩
  | accept text cb hc =>
    obtain ⟨e, he⟩ := predict_of_probe hp hs text
    simp [predict, hc] at he
  | poll => exact ⟨by simpa using hp, hr.symm ▸ hs, hq, hh, ht⟩
  | start hw _ => exact ⟨hp, hs, hq, rfl, ht⟩
  | collectFirst item queue hw hq' => cases hq.symm.trans hq'
  | wait batch deadline hw hlen hd => exact ⟨hp, hs, hq, by simpa [hw, Worker.held] using hh, ht⟩
  | full batch deadline hw hd => exact ⟨hp, hs, hq, by simpa [hw, Worker.held] using hh, ht⟩
  | collectNext batch deadline item queue hw hq' => cases hq.symm.trans hq'
  | collectTimeout batch deadline hw hd =>
    exact ⟨hp, hs, hq, by simpa [hw, Worker.held] using hh, ht⟩
  | acquire batch hw hpos => exact ⟨hp, hs, hq, by simpa [hw, Worker.held] using hh, ht⟩
  | dispatch batch hw =>
    -- the collector dispatches no empty batch
    have hlegal := hi.worker
    obtain rfl : batch = [] := by simpa [hw, Worker.held] using hh
    simp [hw, Worker.Legal] at hlegal
  | callPredictFn k batch hk => cases htask k _ hk
  | finish k b batch hk hb => cases htask k _ hk
  | batchDone k batch b hk =>
    refine ⟨hp, hs, hq, hh, fun t hmem => ?_⟩
    rcases List.mem_or_eq_of_mem_set hmem with hmem | rfl
    · exact ht t hmem
    · rfl
  | stop permits he _ => exact ⟨hp, hs, hq, by simpa using hh, ht⟩
  | _ => exact ⟨hp, hs, hq, hh, ht⟩

/-- **An orphaned token is held for ever**, and nobody is admitted any more. -/
theorem orphaned_exec {es : List (ℚ × Action ρ)} (hi : FlowInv s) (ho : Orphaned s)
    (hrun : Machine.exec step s es = some s') :
    Orphaned s' ∧ ∀ text, ∃ e, (s'.predict text).2 = .error e := by
  have ho' : Orphaned s' := by
    refine Machine.exec_invariant_relative (fun _ _ _ => flowInv_step) ?_ hi ho hrun
    intro s e s' hi ho hstep
    obtain ⟨-, heff⟩ := step_effect hstep
    exact heff.orphaned (hi.tick _) ⟨ho.probe, ho.state, ho.queue, ho.held, ho.ended⟩
  exact ⟨ho', predict_of_probe ho'.probe ho'.state⟩

/-- The probe is handed to `predict_fn`, which raises `concurrent.futures.CancelledError`. -/
def lostProbeRun : List (ℚ × Action ℕ) :=
  probeRun ++ [(1, .collectFirst), (1, .loopTest), (1, .acquire), (1, .dispatch),
    (1, .callPredictFn 1), (2, .finish 1 (.raised ⟨.futuresCancelledError, ""⟩)),
    (2, .batchDone 1)]

/-- Then the token is held with no outcome pending, before `stop()`, and whatever happens next it
stays so and every request is rejected. -/
theorem probe_not_orphaned_lost :
    ∃ s, Machine.exec step (new ⟨1, 0, 1, ⟨1, 1⟩⟩ ℕ 0) lostProbeRun = some s ∧
      s.stopping = .notCalled ∧ ¬ ProbeAttended s ∧
        ∀ es u, Machine.exec step s es = some u →
          u.circuitBreaker.probeInFlight = true ∧ ∀ text, ∃ e, (u.predict text).2 = .error e := by
  obtain ⟨s, hs, hn, ho⟩ :
      ∃ s ∈ Machine.exec step (new ⟨1, 0, 1, ⟨1, 1⟩⟩ ℕ 0) lostProbeRun,
        s.stopping = .notCalled ∧ Orphaned s := by
    decide +kernel
  refine ⟨s, hs, hn, fun ha => ?_, fun es u hu => ?_⟩
  · obtain ⟨f, -, hpend, -⟩ := ha ho.probe
    rcases hpend with ⟨it, hit, -⟩ | ⟨it, hit, -⟩ | ⟨t, ht, hp, -⟩
    · simp [ho.queue] at hit
    · simp [ho.held] at hit
    · cases (ho.ended t ht).symm.trans hp
  · obtain ⟨ho', hrej⟩ := orphaned_exec (flowInv_exec hs) ho hu
    exact ⟨ho'.probe, hrej⟩

/-! ## Whose verdict it is -/

/-- What the token is for. While a probe waits for the outcome of its batch the token is held,
every check is rejected, no other probe waits, and if that batch fails the breaker is open at once
with its cooldown restarted. -/
structure ProbeLaw (s : InferenceBatcher args ρ) : Prop where
  held : ∀ f ∈ probes s.calls, s.Awaiting f → s.circuitBreaker.probeInFlight = true
  rejects : ∀ f ∈ probes s.calls, s.Awaiting f → ∀ t text, s.now ≤ t →
    ∃ e, ({ s with now := t }.predict text).2 = .error e
  alone : ∀ f ∈ probes s.calls, ∀ g ∈ probes s.calls, s.Awaiting f → s.Awaiting g → f = g
  reopens : ∀ f ∈ probes s.calls, s.Awaiting f → ∀ t k b s',
    (∃ it ∈ s.endedBatch (.finish k b), it.future = f) → verdict s (.finish k b) = some false →
      step s (t, .finish k b) = some s' →
        s'.circuitBreaker.state = .OPEN ∧ s'.circuitBreaker.openedAt = t

/-- An outcome that is recorded while the token is held is the one of the batch that contains
the probe. -/
def ProbeVerdict (s : InferenceBatcher args ρ) (e : ℚ × Action ρ) : Prop :=
  verdict s e.2 ≠ none → s.circuitBreaker.probeInFlight = true →
    ∃ f ∈ s.latestProbe, ∃ it ∈ s.endedBatch e.2, it.future = f

instance (s : InferenceBatcher args ρ) (e : ℚ × Action ρ) : Decidable (ProbeVerdict s e) :=
  inferInstanceAs (Decidable (_ → _ → _))

/-- The invariant of the runs on which only the probe decides: a probe that waits is the latest
one, and the token is held. -/
def WaitsWithToken (s : InferenceBatcher args ρ) : Prop :=
  ∀ f ∈ probes s.calls, s.Awaiting f →
    s.circuitBreaker.probeInFlight = true ∧ s.latestProbe = some f

/-- An action whose outcome, if it records one with the token held, is the probe's keeps the
invariant.

**Proof sketch.** By what happens to the token. It is claimed: nobody waited, as it was free, and
the new probe is the latest. It is cleared: a probe that waits was the latest, so its batch is the
one that has ended, and it waits no longer. It is left alone: so are the probes and those that
wait. -/
lemma Effect.waitsWithToken (h : Effect s a s') (hi : FlowInv s) (hw : WaitsWithToken s)
    (hv : ProbeVerdict s (s.now, a)) : WaitsWithToken s' := by
  intro f hf hwait
  rw [h.calls_eq, probes_append] at hf
  rw [h.awaiting_iff hi] at hwait
  rcases h.gate.token_cases with ⟨hfree, hheld, -, text, hc⟩ | ⟨hrec, -, hc⟩ | ⟨hnone, he, hc⟩
  · have hnew : f = s.futures.length := by
      rcases hwait with ⟨hold, -⟩ | ⟨it, hit, rfl⟩
      · rcases List.mem_append.mp hf with hf | hf
        · exact absurd (hw f hf hold).1 (by simp [hfree])
        · simpa [hc, probes] using hf
      · simp only [hc, items, List.filterMap_cons, List.filterMap_nil,
          List.mem_singleton] at hit
        rw [hit]
    exact ⟨hheld, hnew ▸ h.latestProbe_of_probe hc⟩
  · simp only [hc, items, probes, List.filterMap_nil, List.append_nil, List.not_mem_nil,
      false_and, exists_false, or_false] at hf hwait
    obtain ⟨hheld, hlast⟩ := hw f hf hwait.1
    obtain ⟨g, hg, hmem⟩ := hv hrec hheld
    obtain rfl : f = g := Option.some.inj (hlast.symm.trans hg)
    exact absurd ⟨hrec, hmem⟩ hwait.2
  · rw [hc, List.append_nil] at hf
    have hold : s.Awaiting f := by
      rcases hwait with ⟨hold, -⟩ | ⟨it, hit, rfl⟩
      · exact hold
      · exact absurd (hi.probe_lt hf) (by rw [h.gate.new_item hit]; exact lt_irrefl _)
    obtain ⟨hheld, hlast⟩ := hw f hf hold
    exact ⟨he.trans hheld, (h.latestProbe_eq hc).trans hlast⟩

/-- A held token and consistent fields give the law to a probe that waits. -/
lemma WaitsWithToken.probeLaw (hw : WaitsWithToken s)
    (hc : s.circuitBreaker.Consistent s.now) : ProbeLaw s where
  held f hf hwait := (hw f hf hwait).1
  rejects f hf hwait t text ht :=
    have hp := (hw f hf hwait).1
    predict_of_probe (s := { s with now := t }) hp (hc.halfOpen_of_probe hp) text
  alone f hf g hg hwf hwg := Option.some.inj ((hw f hf hwf).2.symm.trans (hw g hg hwg).2)
  reopens f hf hwait t k b s' hmem hv hstep := by
    obtain ⟨-, heff⟩ := step_effect hstep
    rw [heff.gate.eq_recordFailure hv]
    rcases s.circuitBreaker.recordFailure_cases t with ⟨-, ho⟩ | ⟨⟨hfree, -⟩, -⟩
    · exact ho
    · cases ((hw f hf hwait).1).symm.trans hfree

/-- **The law holds after every run on which only the probe decides.** -/
theorem probeLaw_exec {t₀ : ℚ} {es : List (ℚ × Action ρ)}
    (hC : Machine.StepsSatisfy step ProbeVerdict (new args ρ t₀) es)
    (hrun : Machine.exec step (new args ρ t₀) es = some s) : ProbeLaw s := by
  have hinv : FlowInv s ∧ WaitsWithToken s := by
    refine Machine.exec_invariant_of_steps (I := fun s => FlowInv s ∧ WaitsWithToken s) ?_
      ⟨flowInv_new t₀, by simp [WaitsWithToken, new, probes]⟩ hC hrun
    rintro s e s' ⟨hi, hw⟩ hv hstep
    obtain ⟨-, heff⟩ := step_effect hstep
    exact ⟨flowInv_step hi hstep, heff.waitsWithToken (hi.tick _) hw hv⟩
  exact hinv.2.probeLaw (consistent_exec hrun)

/-- A step that keeps the law has recorded no outcome but the probe's: otherwise the probe still
waits, with the token gone. -/
lemma probeVerdict_of_law (hi : FlowInv s) (ht : TokenOwned s) (hl : ProbeLaw s')
    (h : step s e = some s') : ProbeVerdict s e := by
  intro hv hp
  obtain ⟨f, hf, hwait⟩ := ht hp
  obtain ⟨-, heff⟩ := step_effect h
  refine ⟨f, hf, by_contra fun hn => ?_⟩
  have hwait' : s'.Awaiting f :=
    (heff.awaiting_iff (hi.tick _) f).mpr
      (.inl ⟨hwait, fun hc => hn hc.2⟩)
  have hmem : f ∈ probes s'.calls := by
    rw [heff.calls_eq, probes_append]
    exact List.mem_append_left _ (List.mem_of_getLast? hf)
  have hfree := heff.token_free hv
  cases (hl.held f hmem hwait').symm.trans hfree

/-- **Probe exclusivity and verdict.** The law holds in every state of a run exactly when every
outcome recorded on it while the token is held is the outcome of the batch that contains the
probe.

**Proof sketch.** Along a run that meets the condition `WaitsWithToken` is an invariant, and it
gives the law (`probeLaw_exec`). Conversely an outcome of another batch frees the token of a probe
that still waits, since a held token is owned (`TokenOwned`). -/
theorem probe_law (args : BatcherArgs) (ρ : Type) (t₀ : ℚ) (es : List (ℚ × Action ρ))
    (s : InferenceBatcher args ρ) (hrun : Machine.exec step (new args ρ t₀) es = some s) :
    Machine.StepsSatisfy step ProbeVerdict (new args ρ t₀) es ↔
      Machine.Along step ProbeLaw (new args ρ t₀) es := by
  constructor
  · intro hC pre t hpre ht
    exact probeLaw_exec (hC.of_prefix hpre) ht
  · refine Machine.steps_of_along (I := fun s => FlowInv s ∧ TokenOwned s) ?_ ?_
      ⟨flowInv_new t₀, tokenOwned_new t₀⟩ hrun
    · rintro s e s' ⟨hi, ht⟩ hstep
      exact ⟨flowInv_step hi hstep, tokenOwned_step hi ht hstep⟩
    · rintro s e s' ⟨hi, ht⟩ - hl hstep
      exact probeVerdict_of_law hi ht hl hstep

/-- The probe after a failure, dispatched and answered with nothing else in flight. -/
def recoveryRun : List (ℚ × Action ℕ) :=
  [(0, .start), (0, .predict "a"), (0, .collectFirst), (0, .loopTest), (0, .acquire),
    (0, .dispatch), (0, .callPredictFn 0), (0, .finish 0 (.raised ⟨.other, "boom"⟩)),
    (1, .predict "p"), (1, .predict "q"), (1, .collectFirst), (1, .loopTest), (1, .batchDone 0),
    (1, .acquire), (1, .dispatch), (1, .callPredictFn 1), (2, .finish 1 (.returned [7]))]

/-- Nothing disturbs the probe there. -/
theorem probe_law_recovery :
    Machine.Along step ProbeLaw (new ⟨1, 0, 1, ⟨1, 1⟩⟩ ℕ 0) recoveryRun := by
  obtain ⟨s, hs, -⟩ :
      ∃ s ∈ Machine.exec step (new ⟨1, 0, 1, ⟨1, 1⟩⟩ ℕ 0) recoveryRun, True := by
    decide +kernel
  exact (probe_law _ ℕ 0 recoveryRun s hs).mp (by decide +kernel)

/-- Three batches run when two of them fail and open the breaker; after the cooldown the next
request is the probe; then the third batch succeeds. -/
def staleSuccessRun : List (ℚ × Action ℕ) :=
  [(0, .start), (0, .predict "a"), (0, .predict "b"), (0, .predict "c"),
    (0, .collectFirst), (0, .loopTest), (0, .acquire), (0, .dispatch), (0, .callPredictFn 0),
    (0, .collectFirst), (0, .loopTest), (0, .acquire), (0, .dispatch), (0, .callPredictFn 1),
    (0, .collectFirst), (0, .loopTest), (0, .acquire), (0, .dispatch), (0, .callPredictFn 2),
    (0, .finish 0 (.raised ⟨.other, "boom"⟩)), (0, .finish 1 (.raised ⟨.other, "boom"⟩)),
    (1, .predict "p"), (1, .finish 2 (.returned [7]))]

/-- Then the probe is dispatched and fails. -/
def failedProbeRun : List (ℚ × Action ℕ) :=
  [(1, .collectFirst), (1, .loopTest), (1, .acquire), (1, .dispatch), (1, .callPredictFn 3),
    (2, .finish 3 (.raised ⟨.other, "boom"⟩))]

/-- The late success takes the token from the probe, and the breaker stays closed when the probe
fails. -/
theorem probe_law_stale_success :
    (∃ s ∈ Machine.exec step (new ⟨1, 0, 4, ⟨2, 1⟩⟩ ℕ 0) staleSuccessRun, ¬ ProbeLaw s) ∧
      ∃ s ∈ Machine.exec step (new ⟨1, 0, 4, ⟨2, 1⟩⟩ ℕ 0) (staleSuccessRun ++ failedProbeRun),
        probes s.calls = [3] ∧ s.circuitBreaker.state = .CLOSED := by
  refine ⟨?_, by decide +kernel⟩
  obtain ⟨s, hs, hp, hw, hfree⟩ :
      ∃ s ∈ Machine.exec step (new ⟨1, 0, 4, ⟨2, 1⟩⟩ ℕ 0) staleSuccessRun,
        3 ∈ probes s.calls ∧ s.Awaiting 3 ∧ s.circuitBreaker.probeInFlight = false := by
    decide +kernel
  exact ⟨s, hs, fun hl => absurd (hl.held 3 hp hw) (by simp [hfree])⟩

end InferenceBatcher

end InferenceServer
