import InferenceServer.Batcher.Probe
import InferenceServer.Batcher.Shutdown

set_option relaxedAutoImplicit false
set_option autoImplicit false

/-!
# Permits and progress

The collector takes a permit of the semaphore before it dispatches a batch, and the done-callback
of the batch puts it back, in another task. The permits are accounted for in every state, so a
collector that finds none waits for batches that will put theirs back.

## Main definitions

* `TaskPhase.holdsPermit`, `InferenceBatcher.heldPermits` — the batches whose done-callback has not
  run.
* `Action.isProgress` — the steps that carry requests towards their answer.
* `InferenceBatcher.work` — how many of these steps can follow each other.

## Main results

* `InferenceBatcher.permits_exec` — permits are conserved in every run.
* `InferenceBatcher.progress` — while an admitted request is pending, one of these steps is enabled.
* `InferenceBatcher.bounded_concurrency` — the bound on the calls of `predict_fn`, and that no
  request is stranded.
-/

namespace InferenceServer

/-- The batch has been dispatched and its done-callback has not run. -/
def TaskPhase.holdsPermit {ρ : Type} : TaskPhase ρ → Bool
  | .reaped _ => false
  | _ => true

/-- The batch is with `predict_fn`. -/
def TaskPhase.isRunning {ρ : Type} : TaskPhase ρ → Bool
  | .running => true
  | _ => false

/-- The permit that the collector has at the dispatch point. -/
def Worker.permits : Worker → ℕ
  | .dispatch _ => 1
  | _ => 0

/-- A step of the collector before `stop()`, of a batch, or of a done-callback. -/
def Action.isProgress {ρ : Type} : Action ρ → Bool
  | .collectFirst => true
  | .loopTest => true
  | .collectNext => true
  | .collectTimeout => true
  | .acquire => true
  | .dispatch => true
  | .callPredictFn _ => true
  | .finish _ _ => true
  | .batchDone _ => true
  | _ => false

/-- The steps that a task has before it. -/
def TaskPhase.work {ρ : Type} : TaskPhase ρ → ℕ
  | .created => 3
  | .running => 2
  | .finished _ => 1
  | .reaped _ => 0

/-- The steps that the batch of the collector has before it, while nothing is added to it. -/
def Worker.work : Worker → ℕ
  | .loopHead _ _ => 7
  | .waitFor _ _ => 6
  | .acquire _ => 5
  | .dispatch _ => 4
  | _ => 0

namespace InferenceBatcher

variable {args : BatcherArgs} {ρ : Type} {s s' : InferenceBatcher args ρ} {a : Action ρ}
  {e : ℚ × Action ρ}

/-! ## The account of the permits -/

/-- The permits that dispatched batches hold. -/
def heldPermits (s : InferenceBatcher args ρ) : ℕ := s.tasks.countP fun t => t.phase.holdsPermit

/-- The calls of `predict_fn` in flight. -/
def callsInFlight (s : InferenceBatcher args ρ) : ℕ := s.tasks.countP fun t => t.phase.isRunning

/-- Every permit is free, with a dispatched batch, or with the collector at the dispatch point. -/
def PermitInv (s : InferenceBatcher args ρ) : Prop :=
  s.permits + s.heldPermits + s.worker.permits = args.maxConcurrentBatches

/-- A new batcher has all its permits. -/
lemma permitInv_new (t₀ : ℚ) : PermitInv (new args ρ t₀) := by
  simp [PermitInv, new, heldPermits, Worker.permits]

/-- A task that moves takes its permit along. -/
lemma countP_holdsPermit_set {tasks : List (BatchTask ρ)} {k : ℕ} {batch : List Item}
    {p q : TaskPhase ρ} (hk : tasks[k]? = some ⟨batch, p⟩) (hp : p.holdsPermit = true)
    (hq : q.holdsPermit = true) :
    (tasks.set k ⟨batch, q⟩).countP (fun t => t.phase.holdsPermit) =
      tasks.countP fun t => t.phase.holdsPermit := by
  obtain ⟨hlt, he⟩ := List.getElem?_eq_some_iff.mp hk
  have hpos : 0 < tasks.countP fun t => t.phase.holdsPermit :=
    List.countP_pos_iff.mpr ⟨_, List.mem_of_getElem? hk, hp⟩
  rw [List.countP_set hlt, he]
  simp only [hp, hq, if_true]
  omega

/-- The done-callback takes the permit from the task. -/
lemma countP_holdsPermit_reap {tasks : List (BatchTask ρ)} {k : ℕ} {batch : List Item}
    {b : Behaviour ρ} (hk : tasks[k]? = some ⟨batch, .finished b⟩) :
    (tasks.set k ⟨batch, .reaped b⟩).countP (fun t => t.phase.holdsPermit) + 1 =
      tasks.countP fun t => t.phase.holdsPermit := by
  obtain ⟨hlt, he⟩ := List.getElem?_eq_some_iff.mp hk
  have hpos : 0 < tasks.countP fun t => t.phase.holdsPermit :=
    List.countP_pos_iff.mpr ⟨_, List.mem_of_getElem? hk, rfl⟩
  rw [List.countP_set hlt, he]
  simp only [TaskPhase.holdsPermit, if_true, Bool.false_eq_true, if_false] at hpos ⊢
  omega

/-- Every action keeps the account. -/
lemma Effect.permitInv (h : Effect s a s') (hi : PermitInv s) : PermitInv s' := by
  unfold PermitInv heldPermits at hi ⊢
  cases h with
  | start hw hs =>
    rw [hw] at hi
    exact hi
  | collectFirst item queue hw hq =>
    rw [hw] at hi
    exact hi
  | wait batch deadline hw hlen hd =>
    rw [hw] at hi
    exact hi
  | full batch deadline hw hd =>
    rw [hw] at hi
    exact hi
  | collectNext batch deadline item queue hw hq =>
    rw [hw] at hi
    exact hi
  | collectTimeout batch deadline hw hd =>
    rw [hw] at hi
    exact hi
  | acquire batch hw hp =>
    rw [hw] at hi
    simp only [Worker.permits] at hi ⊢
    omega
  | dispatch batch hw =>
    rw [hw] at hi
    simp only [Worker.permits, List.countP_append, List.countP_singleton,
      TaskPhase.holdsPermit] at hi ⊢
    simp only [if_true]
    omega
  | callPredictFn k batch hk =>
    rw [countP_holdsPermit_set hk rfl rfl]
    exact hi
  | finish k b batch hk hb =>
    rw [countP_holdsPermit_set hk rfl rfl]
    exact hi
  | batchDone k batch b hk =>
    -- the callback puts back the permit of the batch
    have hc := countP_holdsPermit_reap hk
    show s.permits + 1 + (s.tasks.set k ⟨batch, .reaped b⟩).countP (fun t => t.phase.holdsPermit) +
      s.worker.permits = _
    omega
  | stop permits hs hp =>
    subst hp
    cases hw : s.worker <;> simp only [hw, Worker.permits, Worker.cancel] at hi ⊢ <;> omega
  | _ => exact hi

/-- **Permits are conserved in every run.** -/
theorem permits_exec {t₀ : ℚ} {es : List (ℚ × Action ρ)}
    (hrun : Machine.exec step (new args ρ t₀) es = some s) : PermitInv s := by
  refine Machine.exec_invariant ?_ (permitInv_new t₀) hrun
  intro s e s' hi h
  exact (step_effect h).2.permitInv hi

/-- A running batch holds a permit. -/
lemma callsInFlight_le : s.callsInFlight ≤ s.heldPermits := by
  apply List.countP_mono_left
  intro t ht hr
  cases hp : t.phase <;> simp_all [TaskPhase.isRunning, TaskPhase.holdsPermit]

/-! ## Somebody can always move -/

/-- Before `stop()` the collector is not cancelled. -/
def WorkerAlive (s : InferenceBatcher args ρ) : Prop :=
  s.stopping = .notCalled → ∀ batch, s.worker ≠ .cancelled batch

/-- Every action keeps the collector alive before `stop()`. -/
lemma Effect.workerAlive (h : Effect s a s') (hw : WorkerAlive s) : WorkerAlive s' := by
  intro hs batch
  have hold := hw (h.notCalled hs) batch
  cases h with
  | stop permits he hp =>
    dsimp only at hs
    split_ifs at hs
  | start | collectFirst | wait | full | collectNext | collectTimeout | acquire | dispatch => simp
  | _ => exact hold

/-- The collector is not cancelled in a run without `stop()`. -/
lemma workerAlive_exec {t₀ : ℚ} {es : List (ℚ × Action ρ)}
    (hrun : Machine.exec step (new args ρ t₀) es = some s) : WorkerAlive s := by
  refine Machine.exec_invariant ?_ ?_ hrun
  · intro s e s' hw h
    exact (step_effect h).2.workerAlive hw
  · intro _ batch
    simp [new]

/-- A step of the batcher is enabled, now or at a later time. -/
def CanProgress (s : InferenceBatcher args ρ) : Prop :=
  ∃ t a s', s.now ≤ t ∧ a.isProgress = true ∧ step s (t, a) = some s'

/-- An action that is possible at time `t` is a step. -/
lemma canProgress_of_act {t : ℚ} (ht : s.now ≤ t) (ha : a.isProgress = true)
    (h : (act { s with now := t } a).isSome = true) : CanProgress s := by
  obtain ⟨s', hs'⟩ := Option.isSome_iff_exists.mp h
  exact ⟨t, a, s', ht, ha, step_eq_some.mpr ⟨ht, hs'⟩⟩

/-- A task whose done-callback has not run can move. -/
lemma canProgress_of_task {k : ℕ} {t : BatchTask ρ} (hk : s.tasks[k]? = some t)
    (hp : t.phase.holdsPermit = true) : CanProgress s := by
  obtain ⟨batch, p⟩ := t
  cases p with
  | created =>
    exact canProgress_of_act (a := .callPredictFn k) le_rfl rfl (by simp [act, callPredictFn, hk])
  | running =>
    exact canProgress_of_act (a := .finish k (.returned [])) le_rfl rfl
      (by simp [act, finishBatch, hk, Behaviour.isCancelled])
  | finished b =>
    exact canProgress_of_act (a := .batchDone k) le_rfl rfl (by simp [act, onBatchDone, hk])
  | reaped b => cases hp

/-- A collector with a batch in its hands can move, or a dispatched batch can.

**Proof sketch.** By where the collector stands. It waits for an item no longer than its deadline;
and if it finds no permit, then they are all with dispatched batches. -/
lemma canProgress_of_worker (hi : PermitInv s) (hmax : 1 ≤ args.maxConcurrentBatches)
    (halive : ∀ batch, s.worker ≠ .cancelled batch) (hstart : s.worker ≠ .notStarted)
    (hawait : s.worker ≠ .awaitFirst) : CanProgress s := by
  cases hw : s.worker with
  | notStarted => exact absurd hw hstart
  | awaitFirst => exact absurd hw hawait
  | cancelled batch => exact absurd hw (halive batch)
  | loopHead batch deadline =>
    apply canProgress_of_act (a := .loopTest) le_rfl rfl
    simp only [act, loopTest, hw]
    split_ifs <;> rfl
  | waitFor batch deadline =>
    exact canProgress_of_act (a := .collectTimeout) (le_max_left s.now deadline) rfl
      (by simp [act, collectTimeout, hw])
  | acquire batch =>
    by_cases hp : 0 < s.permits
    · exact canProgress_of_act (a := .acquire) le_rfl rfl (by simp [act, acquire, hw, hp])
    · have hpos : 0 < s.heldPermits := by
        simp only [PermitInv, hw, Worker.permits] at hi
        omega
      obtain ⟨t, ht, hh⟩ := List.countP_pos_iff.mp hpos
      obtain ⟨k, hk⟩ := List.mem_iff_getElem?.mp ht
      exact canProgress_of_task hk hh
  | dispatch batch =>
    exact canProgress_of_act (a := .dispatch) le_rfl rfl (by simp [act, dispatch, hw])

/-- **While an admitted request is pending, the batcher can move.**

**Proof sketch.** By the holder of the request. A batch that has it has not ended, as a batch that
has ended has answered its requests (`Accounted`); a collector that has it can move; and with the
request in the queue the collector takes the first item or has another batch in its hands. -/
theorem progress (hi : FlowInv s) (hb : Accounted s) (hp : PermitInv s)
    (hmax : 1 ≤ args.maxConcurrentBatches) (halive : ∀ batch, s.worker ≠ .cancelled batch)
    (hstart : s.worker ≠ .notStarted) {it : Item} (hit : it ∈ items s.calls)
    (hpend : s.futures[it.future]? = some .pending) : CanProgress s := by
  rw [← hi.flow_eq, flow, List.mem_append, List.mem_append] at hit
  rcases hit with (hit | hit) | hit
  · obtain ⟨batch, hbatch, hit⟩ := List.mem_flatten.mp hit
    obtain ⟨t, ht, rfl⟩ := List.mem_map.mp hbatch
    obtain ⟨k, hk⟩ := List.mem_iff_getElem?.mp ht
    apply canProgress_of_task hk
    cases hph : t.phase with
    | created => rfl
    | running => rfl
    | _ =>
      obtain ⟨v, hv, hd⟩ := hb.settled t ht (by simp [hph, TaskPhase.ended]) it hit
      obtain rfl : v = .pending := Option.some.inj (hv.symm.trans hpend)
      cases hd
  · apply canProgress_of_worker hp hmax halive hstart
    intro hw
    simp [hw, Worker.held] at hit
  · by_cases hw : s.worker = .awaitFirst
    · obtain ⟨item, queue, hq⟩ := List.exists_cons_of_ne_nil (List.ne_nil_of_mem hit)
      exact canProgress_of_act (a := .collectFirst) le_rfl rfl (by simp [act, collectFirst, hw, hq])
    · exact canProgress_of_worker hp hmax halive hstart hw

/-! ## The steps run out -/

/-- The steps that the requests so far have before them, at most. -/
def work (s : InferenceBatcher args ρ) : ℕ :=
  (s.tasks.map fun t => t.phase.work).sum + s.worker.work + 8 * s.queue.length

/-- A task that moves changes the sum by its own part. -/
lemma sum_work_set {tasks : List (BatchTask ρ)} {k : ℕ} {batch : List Item} {p q : TaskPhase ρ}
    (hk : tasks[k]? = some ⟨batch, p⟩) :
    ((tasks.set k ⟨batch, q⟩).map fun t => t.phase.work).sum + p.work =
      (tasks.map fun t => t.phase.work).sum + q.work := by
  induction tasks generalizing k with
  | nil => simp at hk
  | cons t tasks ih =>
    cases k with
    | zero =>
      obtain rfl : t = ⟨batch, p⟩ := by simpa using hk
      simp only [List.set_cons_zero, List.map_cons, List.sum_cons]
      omega
    | succ k =>
      have htail := ih (by simpa using hk)
      simp only [List.set_cons_succ, List.map_cons, List.sum_cons]
      omega

/-- Every step of the batcher leaves less to do. -/
lemma Effect.work_lt (h : Effect s a s') (ha : a.isProgress = true) : s'.work < s.work := by
  unfold work
  cases h with
  | collectFirst item queue hw hq =>
    simp only [hw, hq, Worker.work, List.length_cons]
    omega
  | wait batch deadline hw hlen hd =>
    simp only [hw, Worker.work]
    omega
  | full batch deadline hw hd =>
    simp only [hw, Worker.work]
    omega
  | collectNext batch deadline item queue hw hq =>
    simp only [hw, hq, Worker.work, List.length_cons]
    omega
  | collectTimeout batch deadline hw hd =>
    simp only [hw, Worker.work]
    omega
  | acquire batch hw hp =>
    simp only [hw, Worker.work]
    omega
  | dispatch batch hw =>
    simp only [hw, Worker.work, List.map_append, List.sum_append, List.map_singleton,
      List.sum_singleton, TaskPhase.work]
    omega
  | callPredictFn k batch hk =>
    have hsum := sum_work_set (q := .running) hk
    simp only [TaskPhase.work] at hsum ⊢
    omega
  | finish k b batch hk hb =>
    have hsum := sum_work_set (q := .finished b) hk
    simp only [TaskPhase.work] at hsum ⊢
    omega
  | batchDone k batch b hk =>
    have hsum := sum_work_set (q := .reaped b) hk
    simp only [TaskPhase.work] at hsum ⊢
    omega
  | _ => cases ha

/-- A run of such steps is no longer than the work at its start. -/
lemma work_exec : ∀ (fs : List (ℚ × Action ρ)) (s : InferenceBatcher args ρ),
    (∀ e ∈ fs, e.2.isProgress = true) → Machine.exec step s fs = some s' →
      fs.length + s'.work ≤ s.work
  | [], s, _, h => by
    obtain rfl : s = s' := Option.some.inj h
    simp
  | e :: fs, s, hfs, h => by
    rw [Machine.exec_cons, Option.bind_eq_some_iff] at h
    obtain ⟨m, hm, hrest⟩ := h
    have htail := work_exec fs m (fun e' he' => hfs e' (List.mem_cons_of_mem _ he')) hrest
    have hlt : m.work < s.work := (step_effect hm).2.work_lt (hfs e List.mem_cons_self)
    rw [List.length_cons]
    omega

/-- Such a step does not stop the batcher. -/
lemma Effect.stopping_eq (h : Effect s a s') (ha : a.isProgress = true) :
    s'.stopping = s.stopping := by
  cases h with
  | stop permits hs hp => cases ha
  | stopReturn ks hs hk => cases ha
  | _ => rfl

/-- A collector that was started stays so. -/
lemma Effect.started (h : Effect s a s') (hw : s.worker ≠ .notStarted) :
    s'.worker ≠ .notStarted := by
  cases h with
  | stop permits hs hp => cases he : s.worker <;> simp_all [Worker.cancel]
  | start | collectFirst | wait | full | collectNext | collectTimeout | acquire | dispatch => simp
  | _ => exact hw

/-- **No request is stranded**: from every state before `stop()`, steps of the batcher alone lead to
one in which the request has its answer.

**Proof sketch.** While the request is pending the batcher can move (`progress`), and it cannot do
so for ever, since every step leaves less to do (`Effect.work_lt`). -/
theorem answered_exec (hmax : 1 ≤ args.maxConcurrentBatches) {t₀ : ℚ} {it : Item}
    {es : List (ℚ × Action ρ)} (hrun : Machine.exec step (new args ρ t₀) es = some s)
    (hstop : s.stopping = .notCalled) (hstart : s.worker ≠ .notStarted)
    (hit : it ∈ items s.calls) :
    ∃ fs s', (∀ e ∈ fs, e.2.isProgress = true) ∧ Machine.exec step s fs = some s' ∧
      ∃ v, s'.futures[it.future]? = some v ∧ v.done = true := by
  induction hn : s.work using Nat.strong_induction_on generalizing es s with
  | _ n ih =>
    have hi : FlowInv s := flowInv_exec hrun
    have hlt : it.future < s.futures.length := hi.future_lt (hi.flow_eq ▸ hit)
    obtain ⟨v, hv⟩ : ∃ v, s.futures[it.future]? = some v := ⟨_, List.getElem?_eq_getElem hlt⟩
    by_cases hd : v.done = true
    · exact ⟨[], s, by simp, rfl, v, hv, hd⟩
    · have hpend : s.futures[it.future]? = some .pending := by
        rw [hv, Future.eq_pending hd]
      obtain ⟨t, a, s', -, ha, hstep⟩ := progress hi (accounted_exec hrun) (permits_exec hrun) hmax
        (workerAlive_exec hrun hstop) hstart hit hpend
      obtain ⟨-, heff⟩ := step_effect hstep
      have hit' : it ∈ items s'.calls := by
        rw [heff.calls_eq, items_append]
        exact List.mem_append_left _ hit
      obtain ⟨fs, u, hfs, hexec, hdone⟩ := ih s'.work (hn ▸ heff.work_lt ha)
        (Machine.exec_snoc_eq_some.mpr ⟨s, hrun, hstep⟩) ((heff.stopping_eq ha).trans hstop)
        (heff.started hstart) hit' rfl
      refine ⟨(t, a) :: fs, u, ?_, ?_, hdone⟩
      · rintro e (_ | ⟨_, he⟩)
        · exact ha
        · exact hfs e he
      · rw [Machine.exec_cons, hstep]
        exact hexec

/-- **Bounded concurrency without permit leaks or deadlock.** In every state before `stop()`: the
free permits, those of the dispatched batches whose done-callback has not run, and the one that the
collector may have at the dispatch point, are `maxConcurrentBatches`; so no more calls of
`predict_fn` are in flight; a collector that waits for a permit waits while dispatched batches hold
all of them; and once the collector has been started, while an admitted request is pending a step
of the collector, a batch or a done-callback is enabled, no run of such steps is longer than
`work`, and such steps lead to the answer.

**Proof sketch.** `permits_exec` and `callsInFlight_le` for the account, `progress` for the enabled
step, and `work_exec` and `answered_exec` for the rest. -/
theorem bounded_concurrency (args : BatcherArgs) (ρ : Type) (hmax : 1 ≤ args.maxConcurrentBatches)
    (t₀ : ℚ) (es : List (ℚ × Action ρ)) (s : InferenceBatcher args ρ)
    (hrun : Machine.exec step (new args ρ t₀) es = some s) (hstop : s.stopping = .notCalled) :
    s.permits + s.heldPermits + s.worker.permits = args.maxConcurrentBatches ∧
    s.callsInFlight ≤ args.maxConcurrentBatches ∧
    (∀ batch, s.worker = .acquire batch → s.permits = 0 →
      s.heldPermits = args.maxConcurrentBatches) ∧
    (s.worker ≠ .notStarted → ∀ it ∈ items s.calls, s.futures[it.future]? = some .pending →
      CanProgress s ∧
      (∀ fs s', (∀ e ∈ fs, e.2.isProgress = true) → Machine.exec step s fs = some s' →
        fs.length ≤ s.work) ∧
      ∃ fs s', (∀ e ∈ fs, e.2.isProgress = true) ∧ Machine.exec step s fs = some s' ∧
        ∃ v, s'.futures[it.future]? = some v ∧ v.done = true) := by
  have hp : s.permits + s.heldPermits + s.worker.permits = args.maxConcurrentBatches :=
    permits_exec hrun
  refine ⟨hp, ?_, ?_, ?_⟩
  · have hle := callsInFlight_le (s := s)
    omega
  · intro batch hw hfree
    simp only [hw, hfree, Worker.permits] at hp
    omega
  · intro hstart it hit hpend
    refine ⟨progress (flowInv_exec hrun) (accounted_exec hrun) (permits_exec hrun) hmax
      (workerAlive_exec hrun hstop) hstart hit hpend, ?_, answered_exec hmax hrun hstop hstart hit⟩
    intro fs s' hfs hexec
    have hle := work_exec fs s hfs hexec
    omega

/-- One permit, a batch that has it, and a second one that waits for it. -/
def blockedRun : List (ℚ × Action ℕ) :=
  [(0, .start), (0, .predict "a"), (0, .collectFirst), (0, .loopTest), (0, .acquire),
    (0, .dispatch), (0, .callPredictFn 0), (0, .predict "b"), (0, .collectFirst), (0, .loopTest)]

/-- The collector waits, and the second request is not stranded. -/
theorem bounded_concurrency_blocked :
    ∃ s, Machine.exec step (new ⟨1, 0, 1, ⟨1, 1⟩⟩ ℕ 0) blockedRun = some s ∧
      s.heldPermits = 1 ∧ CanProgress s := by
  obtain ⟨s, hs, hstop, hw, hp, hstart, hit, hpend⟩ :
      ∃ s ∈ Machine.exec step (new ⟨1, 0, 1, ⟨1, 1⟩⟩ ℕ 0) blockedRun,
        s.stopping = .notCalled ∧ s.worker = .acquire [⟨"b", 1⟩] ∧ s.permits = 0 ∧
          s.worker ≠ .notStarted ∧ ⟨"b", 1⟩ ∈ items s.calls ∧ s.futures[1]? = some .pending := by
    decide +kernel
  obtain ⟨-, -, hblocked, hanswer⟩ :=
    bounded_concurrency ⟨1, 0, 1, ⟨1, 1⟩⟩ ℕ (by decide) 0 blockedRun s hs hstop
  exact ⟨s, hs, hblocked _ hw hp, (hanswer hstart ⟨"b", 1⟩ hit hpend).1⟩

end InferenceBatcher

end InferenceServer
