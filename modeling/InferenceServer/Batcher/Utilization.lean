import InferenceServer.Batcher.Latency

set_option relaxedAutoImplicit false
set_option autoImplicit false

/-!
# The permits are in use while requests wait

The collector takes a permit before it dispatches, so there are never more than
`max_concurrent_batches` calls of `predict_fn`. Conversely, in a punctual run there are never fewer
as long as the queue is not empty: no capacity is lost.

## Main definitions

* `MeteredBatcher.backlog` — the time during which requests have waited in the queue.
* `MeteredBatcher.lostSeconds` — the time of the calls that have not returned.
* `MeteredBatcher.service` — the time of all calls of `predict_fn`.

## Main results

* `MeteredBatcher.service_effect`, `MeteredBatcher.service_tick` — an action changes no time of
  service, and time that passes is spent by each call that runs.
* `MeteredBatcher.card_running_eq` — all permits are in use while a request is in the queue.
* `MeteredBatcher.saturated` — the bounds for the time of service.
-/

namespace InferenceServer

namespace MeteredBatcher

open InferenceBatcher

variable {args : BatcherArgs} {ρ : Type} {m m' : MeteredBatcher args ρ}
  {b : InferenceBatcher args ρ} {a : Action ρ} {e : ℚ × Action ρ} {D t₀ u : ℚ}

/-- The time that passes before a step while requests are in the queue. -/
def backlog (m : MeteredBatcher args ρ) (e : ℚ × Action ρ) (_ : MeteredBatcher args ρ) : List ℚ :=
  if m.batcher.queue = [] then [] else [e.1 - m.batcher.now]

/-- The time of a call of `predict_fn` that raises or is cancelled, which
`model_inference_seconds` does not observe. -/
def lostSeconds (m : MeteredBatcher args ρ) (e : ℚ × Action ρ) (_ : MeteredBatcher args ρ) :
    List ℚ :=
  match e.2 with
  | .finish _ (.returned _) => []
  | .finish k _ => [e.1 - m.tStart k]
  | _ => []

/-- The time of all calls of `predict_fn`: the `seconds` of those that have ended, and the time of
those that still run. -/
def service (m : MeteredBatcher args ρ) (seconds : List ℚ) : ℚ :=
  seconds.sum + ∑ k ∈ m.batcher.running, (m.batcher.now - m.tStart k)

/-! ## Calls begin and end -/

/-- **What a step may do to the calls of `predict_fn`**, those that have ended having taken
`seconds`: nothing; begin one, and observe the size of its batch; or end one. -/
inductive Serves (m : MeteredBatcher args ρ) (seconds : List ℚ) (m' : MeteredBatcher args ρ) :
    List ℚ → Prop
  | other (hsizes : m'.batchSizes = m.batchSizes) (ht : m'.tStart = m.tStart)
      (hrunning : m'.batcher.running = m.batcher.running) : Serves m seconds m' seconds
  | call (k n : ℕ) (hsizes : m'.batchSizes = m.batchSizes ++ [n])
      (ht : m'.tStart = Function.update m.tStart k m.batcher.now) (hk : k ∉ m.batcher.running)
      (hrunning : m'.batcher.running = insert k m.batcher.running) : Serves m seconds m' seconds
  | done (k : ℕ) (seconds' : List ℚ)
      (hseconds : seconds'.Perm (seconds ++ [m.batcher.now - m.tStart k]))
      (hsizes : m'.batchSizes = m.batchSizes) (ht : m'.tStart = m.tStart)
      (hk : k ∈ m.batcher.running) (hrunning : m'.batcher.running = m.batcher.running.erase k) :
      Serves m seconds m' seconds'

/-- A rule of the batcher does one of these.

**Proof sketch.** One case for each action that moves a task; a call that ends is observed, or its
time is lost. -/
lemma serves (heff : Effect m.batcher a b) (lost : List ℚ)
    (hm : m' = { m.observe m.batcher.now a with batcher := b }) :
    Serves m (m.inferenceSeconds ++ lost) m'
      (m'.inferenceSeconds ++ (lost ++ lostSeconds m (m.batcher.now, a) m')) := by
  subst hm
  cases a with
  | callPredictFn k =>
    obtain ⟨batch, hk, hs⟩ := heff.tasks_callPredictFn
    obtain ⟨hnot, hrunning⟩ := running_call hk hs
    simp only [lostSeconds, List.append_nil]
    exact .call k batch.length (by simp [observe, hk]) rfl hnot hrunning
  | finish k r =>
    obtain ⟨batch, hk, hs⟩ := heff.tasks_finish
    have hmem : k ∈ m.batcher.running := mem_running.mpr ⟨batch, hk⟩
    cases r with
    | returned results =>
      refine .done k _ ?_ rfl rfl hmem (running_finish hk hs)
      simp only [observe, lostSeconds, List.append_nil, List.append_assoc]
      exact List.perm_append_comm.append_left _
    | raised e =>
      refine .done k _ ?_ rfl rfl hmem (running_finish hk hs)
      simp only [observe, lostSeconds, List.append_assoc]
      exact .refl _
    | cancelled =>
      refine .done k _ ?_ rfl rfl hmem (running_finish hk hs)
      simp only [observe, lostSeconds, List.append_assoc]
      exact .refl _
  | dispatch =>
    obtain ⟨batch, hs⟩ := heff.tasks_dispatch
    simp only [lostSeconds, List.append_nil]
    exact .other rfl rfl (running_dispatch hs)
  | batchDone k =>
    obtain ⟨batch, r, hk, hs⟩ := heff.tasks_batchDone
    simp only [lostSeconds, List.append_nil]
    exact .other rfl rfl (running_reap hk hs)
  | _ =>
    have hs : b.tasks = m.batcher.tasks := by cases heff <;> rfl
    simp only [lostSeconds, List.append_nil]
    exact .other rfl rfl (by rw [running, hs, running])

/-! ## The time of service -/

/-- While time passes each call that runs takes it. -/
lemma service_tick (m : MeteredBatcher args ρ) (seconds : List ℚ) (u : ℚ) :
    service { m with batcher := { m.batcher with now := u } } seconds =
      service m seconds + m.batcher.running.card * (u - m.batcher.now) := by
  show seconds.sum + ∑ k ∈ m.batcher.running, (u - m.tStart k) = _
  rw [sum_tick _ _ m.batcher.now, ← add_assoc]
  rfl

/-- Nothing but time changes the time of service.

**Proof sketch.** A call that begins has no time behind it, and one that ends takes its time to
those that have ended. -/
lemma Serves.service_eq {seconds seconds' : List ℚ} (h : Serves m seconds m' seconds')
    (hnow : m'.batcher.now = m.batcher.now) : service m' seconds' = service m seconds := by
  unfold service
  cases h with
  | other hsizes ht hrunning => rw [hnow, ht, hrunning]
  | call k n hsizes ht hk hrunning => rw [hnow, ht, hrunning, sum_call hk]
  | done k seconds' hseconds hsizes ht hk hrunning =>
    rw [hnow, ht, hrunning, hseconds.sum_eq, List.sum_append, List.sum_singleton, add_assoc,
      Finset.add_sum_erase _ (fun j => m.batcher.now - m.tStart j) hk]

/-- Each call that has begun has ended or still runs, and each of them has observed a batch. -/
lemma Serves.calls {seconds seconds' : List ℚ} (h : Serves m seconds m' seconds')
    (hcalls : m.batchSizes.length = seconds.length + m.batcher.running.card) :
    m'.batchSizes.length = seconds'.length + m'.batcher.running.card := by
  cases h with
  | other hsizes ht hrunning => rw [hsizes, hrunning, hcalls]
  | call k n hsizes ht hk hrunning =>
    rw [hsizes, hrunning, Finset.card_insert_of_notMem hk, List.length_append,
      List.length_singleton, hcalls, add_assoc]
  | done k seconds' hseconds hsizes ht hk hrunning =>
    have hcard := Finset.card_erase_add_one hk
    rw [hsizes, hrunning, hcalls, hseconds.length_eq, List.length_append, List.length_singleton]
    omega

/-- A call that ends has not taken longer than it may. -/
lemma Serves.short {seconds seconds' : List ℚ} (h : Serves m seconds m' seconds')
    (ht : ∀ k ∈ m.batcher.running, m.batcher.now ≤ m.tStart k + D)
    (hshort : ∀ x ∈ seconds, x ≤ D) : ∀ x ∈ seconds', x ≤ D := by
  cases h with
  | other | call => exact hshort
  | done k seconds' hseconds hsizes hts hk hrunning =>
    intro x hx
    rcases List.mem_append.mp (hseconds.mem_iff.mp hx) with hx | hx
    · exact hshort x hx
    · rw [List.mem_singleton.mp hx]
      linarith [ht k hk]

/-! ## Nothing is lost -/

/-- **While time passes and a request is in the queue, all permits are in use.**

**Proof sketch.** The collector would take the request, or go on with its batch: so it waits for a
permit, and there is none. Those that hold one would go on if they did not wait for `predict_fn`. -/
lemma card_running_eq (hp : PermitInv m.batcher) (hw : m.batcher.Waits u)
    (hq : m.batcher.queue ≠ []) (hstart : m.batcher.worker ≠ .notStarted)
    (halive : ∀ batch, m.batcher.worker ≠ .cancelled batch) :
    m.batcher.running.card = args.maxConcurrentBatches := by
  obtain ⟨htasks, hworker⟩ := hw
  have hcard : m.batcher.running.card = m.batcher.heldPermits := by
    rw [running, card_filter_range, heldPermits]
    apply List.countP_congr
    intro t ht
    constructor
    · intro hrun
      cases hphase : t.phase <;> simp_all [TaskPhase.isRunning, TaskPhase.holdsPermit]
    · exact htasks t ht
  rw [hcard]
  unfold PermitInv at hp
  cases hwhere : m.batcher.worker with
  | notStarted => exact absurd hwhere hstart
  | cancelled batch => exact absurd hwhere (halive batch)
  | awaitFirst =>
    rw [hwhere] at hworker
    exact absurd hworker hq
  | loopHead batch deadline =>
    rw [hwhere] at hworker
    exact False.elim hworker
  | waitFor batch deadline =>
    rw [hwhere] at hworker
    exact absurd hworker.1 hq
  | acquire batch =>
    rw [hwhere] at hworker hp
    have hnone : m.batcher.permits = 0 := hworker
    simp only [Worker.permits] at hp
    omega
  | dispatch batch =>
    rw [hwhere] at hworker
    exact False.elim hworker

/-- The account of the calls of `predict_fn`, those that have ended having taken `seconds`: there
are as many as observed batches, none has taken longer than `D`, and they have taken no more time
than there was, and no less than what requests have been `waiting`. -/
structure Spent (D t₀ : ℚ) (seconds waiting : List ℚ) (m : MeteredBatcher args ρ) : Prop where
  calls : m.batchSizes.length = seconds.length + m.batcher.running.card
  short : ∀ x ∈ seconds, x ≤ D
  lower : args.maxConcurrentBatches * waiting.sum ≤ service m seconds
  upper : service m seconds ≤ args.maxConcurrentBatches * (m.batcher.now - t₀)

/-- The account is right after the time has passed.

**Proof sketch.** No more calls run than there are permits (`card_running_le`); and no fewer, if a
request is in the queue (`card_running_eq`). -/
lemma Spent.tick {seconds waiting : List ℚ} (h : Spent D t₀ seconds waiting m) (ho : OnTime D m)
    (hstart : m.batcher.worker ≠ .notStarted) (hp : Punctual D m e) (hle : m.batcher.now ≤ e.1)
    (next : MeteredBatcher args ρ) : Spent D t₀ seconds (waiting ++ backlog m e next)
      { m with batcher := { m.batcher with now := e.1 } } := by
  obtain ⟨t₀', es, hrun⟩ := ho.run
  have hdt : 0 ≤ e.1 - m.batcher.now := sub_nonneg.mpr hle
  refine ⟨h.calls, h.short, ?_, ?_⟩
  · rw [service_tick, List.sum_append, mul_add]
    refine add_le_add h.lower ?_
    unfold backlog
    split_ifs with hq
    · simpa using mul_nonneg (Nat.cast_nonneg _) hdt
    · rw [List.sum_singleton]
      rcases hle.eq_or_lt with he | hlt
      · rw [he]
        simp
      · rw [card_running_eq (permits_exec hrun) (hp.waits hlt) hq hstart
          (workerAlive_exec hrun ho.notStopped)]
  · have hcard : (m.batcher.running.card : ℚ) ≤ args.maxConcurrentBatches :=
      Nat.cast_le.mpr (card_running_le (permits_exec hrun))
    have hmul := mul_le_mul_of_nonneg_right hcard hdt
    rw [service_tick]
    calc service m seconds + m.batcher.running.card * (e.1 - m.batcher.now)
        ≤ args.maxConcurrentBatches * (m.batcher.now - t₀) +
            args.maxConcurrentBatches * (e.1 - m.batcher.now) := add_le_add h.upper hmul
      _ = args.maxConcurrentBatches * (e.1 - t₀) := by ring

/-- The account is right after a punctual step. -/
lemma Spent.step {lost waiting : List ℚ}
    (h : Spent D t₀ (m.inferenceSeconds ++ lost) waiting m) (ho : OnTime D m)
    (hstart : m.batcher.worker ≠ .notStarted) (hp : Punctual D m e)
    (hstep : MeteredBatcher.step m e = some m') :
    Spent D t₀ (m'.inferenceSeconds ++ (lost ++ lostSeconds m e m')) (waiting ++ backlog m e m')
      m' := by
  obtain ⟨b, hb, rfl⟩ := step_eq_some.mp hstep
  obtain ⟨hle, heff⟩ := step_effect hb
  have htick := h.tick ho hstart hp hle { m.observe e.1 e.2 with batcher := b }
  have hserves := serves (m := { m with batcher := { m.batcher with now := e.1 } }) heff lost
    (observe_tick e.1 b e.2).symm
  have hservice := hserves.service_eq heff.now_eq
  refine ⟨hserves.calls htick.calls, hserves.short hp.calls htick.short, ?_, ?_⟩
  · exact htick.lower.trans_eq hservice.symm
  · exact hservice.trans_le (htick.upper.trans_eq (by rw [heff.now_eq]))

/-! ## The bounds -/

/-- The time of all calls of `predict_fn` in the run `es` that leads to `m`: what
`model_inference_seconds` has observed, what it has not, and the time of those that still run. -/
def served (args : BatcherArgs) (ρ : Type) (t₀ : ℚ) (es : List (ℚ × Action ρ))
    (m : MeteredBatcher args ρ) : ℚ :=
  service m (m.inferenceSeconds ++ Machine.observe step lostSeconds (new args ρ t₀) es)

/-- The time during which requests have been in the queue in the run `es`. -/
def waited (args : BatcherArgs) (ρ : Type) (t₀ : ℚ) (es : List (ℚ × Action ρ)) : ℚ :=
  (Machine.observe step backlog (new args ρ t₀) es).sum

/-- The calls have not taken longer than there have been, if none takes longer than `D`. -/
lemma Spent.service_le {seconds waiting : List ℚ} (h : Spent D t₀ seconds waiting m)
    (ho : OnTime D m) : service m seconds ≤ m.batchSizes.length * D := by
  have hseconds : seconds.sum ≤ seconds.length • D := List.sum_le_card_nsmul _ _ h.short
  have hrunning : ∑ k ∈ m.batcher.running, (m.batcher.now - m.tStart k) ≤
      m.batcher.running.card • D := by
    apply Finset.sum_le_card_nsmul
    intro k hk
    obtain ⟨batch, hk⟩ := mem_running.mp hk
    linarith [(ho.timely.started k batch hk).2]
  rw [h.calls, Nat.cast_add, add_mul, ← nsmul_eq_mul, ← nsmul_eq_mul]
  exact add_le_add hseconds hrunning

/-- The account after `start()`. -/
lemma spent_start {t₁ : ℚ} {m₁ : MeteredBatcher args ρ}
    (hstart : step (new args ρ t₀) (t₁, .start) = some m₁) :
    Spent D t₀ m₁.inferenceSeconds [] m₁ ∧ m₁.batcher.worker = .awaitFirst := by
  obtain ⟨b, hb, rfl⟩ := step_eq_some.mp hstart
  obtain ⟨hle, heff⟩ := step_effect hb
  cases heff with
  | start hw hs =>
    refine ⟨⟨rfl, by simp [new, observe], ?_, ?_⟩, rfl⟩
    · simp [service, observe, new, running, InferenceBatcher.new]
    · have hmul : 0 ≤ args.maxConcurrentBatches * (t₁ - t₀) :=
        mul_nonneg (Nat.cast_nonneg _) (sub_nonneg.mpr hle)
      simpa [service, observe, new, running, InferenceBatcher.new] using hmul

/-- The account is right after every punctual run.

**Proof sketch.** Induction on the run from its last step: `Spent.step`. -/
lemma spent_exec {t₁ : ℚ} {es : List (ℚ × Action ρ)} (hD : 0 ≤ D)
    (hpunctual : Machine.StepsSatisfy step (Punctual D) (new args ρ t₀) ((t₁, .start) :: es))
    (hrun : Machine.exec step (new args ρ t₀) ((t₁, .start) :: es) = some m) :
    OnTime D m ∧
      Spent D t₀
        (m.inferenceSeconds ++
          Machine.observe step lostSeconds (new args ρ t₀) ((t₁, .start) :: es))
        (Machine.observe step backlog (new args ρ t₀) ((t₁, .start) :: es)) m := by
  rw [Machine.exec_cons, Option.bind_eq_some_iff] at hrun
  obtain ⟨m₁, hstart, hrun⟩ := hrun
  obtain ⟨hfirst, hrest⟩ := Machine.stepsSatisfy_cons.mp hpunctual
  obtain ⟨hspent₁, hworker₁⟩ := spent_start (D := D) hstart
  rw [Machine.observe_cons hstart, Machine.observe_cons hstart]
  have hall := Machine.exec_induction
    (P := fun es m => Machine.StepsSatisfy step (Punctual D) m₁ es →
      OnTime D m ∧ m.batcher.worker ≠ .notStarted ∧
        Spent D t₀ (m.inferenceSeconds ++ Machine.observe step lostSeconds m₁ es)
          (Machine.observe step backlog m₁ es) m) ?_ ?_ es m hrun (hrest m₁ hstart)
  · exact ⟨hall.1, hall.2.2⟩
  · intro _
    refine ⟨(onTime_new t₀).keep hD hfirst hstart, by rw [hworker₁]; simp, ?_⟩
    rw [Machine.observe_nil, Machine.observe_nil, List.append_nil]
    exact hspent₁
  · intro es e m m' hes ih hstep hsteps
    obtain ⟨ho, hworker, hspent⟩ := ih (hsteps.of_prefix (List.prefix_append es [e]))
    have hp := hsteps.last hes
    refine ⟨ho.keep hD hp hstep, ?_, ?_⟩
    · obtain ⟨b, hb, rfl⟩ := step_eq_some.mp hstep
      exact (step_effect hb).2.started hworker
    · rw [Machine.observe_snoc hes hstep, Machine.observe_snoc hes hstep]
      exact hspent.step ho hworker hp hstep

/-- **No capacity is lost while requests wait.** In a punctual run that begins with `start()`, the
calls of `predict_fn` have taken at least `max_concurrent_batches` times the time during which
requests have been in the queue, at most `max_concurrent_batches` times the time that has passed,
and at most `D` for each batch that `batch_size_histogram` has observed.

**Proof sketch.** `spent_exec`, `Spent.service_le`. -/
theorem saturated (args : BatcherArgs) (ρ : Type) (D : ℚ) (hD : 0 ≤ D) (t₀ t₁ : ℚ)
    (es : List (ℚ × Action ρ)) (m : MeteredBatcher args ρ)
    (hpunctual : Machine.StepsSatisfy step (Punctual D) (new args ρ t₀) ((t₁, .start) :: es))
    (hrun : Machine.exec step (new args ρ t₀) ((t₁, .start) :: es) = some m) :
    args.maxConcurrentBatches * waited args ρ t₀ ((t₁, .start) :: es) ≤
      served args ρ t₀ ((t₁, .start) :: es) m ∧
    served args ρ t₀ ((t₁, .start) :: es) m ≤ args.maxConcurrentBatches * (m.batcher.now - t₀) ∧
    served args ρ t₀ ((t₁, .start) :: es) m ≤ m.batchSizes.length * D := by
  obtain ⟨ho, hspent⟩ := spent_exec hD hpunctual hrun
  exact ⟨hspent.lower, hspent.upper, hspent.service_le ho⟩

/-- Three requests in batches of one, with one permit: the third waits for two calls, the first of
which fails. -/
def queuedRun : List (ℚ × Action ℕ) :=
  [(0, .predict "a"), (0, .predict "b"), (0, .predict "c"), (0, .collectFirst), (0, .loopTest),
    (0, .acquire), (0, .dispatch), (0, .callPredictFn 0), (0, .collectFirst), (0, .loopTest),
    (1, .finish 0 (.raised ⟨.other, "boom"⟩)), (1, .batchDone 0), (1, .acquire),
    (1, .dispatch), (1, .callPredictFn 1), (1, .collectFirst), (1, .loopTest),
    (3, .finish 1 (.returned [8]))]

/-- A request has been in the queue for a second, which `predict_fn` was busy for. -/
theorem saturated_queued :
    ∃ m, Machine.exec step (new ⟨1, 20, 1, ⟨5, 30⟩⟩ ℕ 0) ((0, .start) :: queuedRun) = some m ∧
      waited ⟨1, 20, 1, ⟨5, 30⟩⟩ ℕ 0 ((0, .start) :: queuedRun) = 1 ∧
      1 ≤ served ⟨1, 20, 1, ⟨5, 30⟩⟩ ℕ 0 ((0, .start) :: queuedRun) m ∧
      served ⟨1, 20, 1, ⟨5, 30⟩⟩ ℕ 0 ((0, .start) :: queuedRun) m ≤ m.batchSizes.length * 2 := by
  obtain ⟨m, hm, -⟩ : ∃ m ∈ Machine.exec step (new ⟨1, 20, 1, ⟨5, 30⟩⟩ ℕ 0)
      ((0, .start) :: queuedRun), m.batchSizes = [1, 1] := by
    decide +kernel
  have hpunctual : Machine.StepsSatisfy step (Punctual 2) (new ⟨1, 20, 1, ⟨5, 30⟩⟩ ℕ 0)
      ((0, .start) :: queuedRun) := by
    decide +kernel
  have hwaited : waited ⟨1, 20, 1, ⟨5, 30⟩⟩ ℕ 0 ((0, .start) :: queuedRun) = 1 := by
    decide +kernel
  obtain ⟨hlower, -, hupper⟩ := saturated _ ℕ 2 (by norm_num) 0 0 queuedRun m hpunctual hm
  rw [hwaited] at hlower
  exact ⟨m, hm, hwaited, by simpa using hlower, hupper⟩

end MeteredBatcher

end InferenceServer
