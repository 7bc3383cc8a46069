import InferenceServer.Batcher.Permits
import InferenceServer.Machine.Progress

set_option relaxedAutoImplicit false
set_option autoImplicit false

/-!
# The batcher runs dry

Left alone, the batcher works off what it has admitted and is idle again, also when no batch fails
from now on. Which of its possible steps it takes first does not matter.

## Main definitions

* `InferenceBatcher.Idle` — no request is left, and all permits are free.
* `InferenceBatcher.Smooth` — a step towards an answer; a batch that it ends succeeds.
* `InferenceBatcher.Serving` — a state of a run that has been started and not stopped.

## Main results

* `InferenceBatcher.Idle.done` — an idle batcher has answered whoever it has admitted.
* `InferenceBatcher.exhausting` — such steps come to an end, and they end where it is idle.
-/

namespace InferenceServer

/-- The action is the end of a batch. -/
def Action.isFinish {ρ : Type} : Action ρ → Bool
  | .finish _ _ => true
  | _ => false

namespace InferenceBatcher

variable {args : BatcherArgs} {ρ : Type} {s s' : InferenceBatcher args ρ} {a : Action ρ}

/-! ## An idle batcher -/

/-- Nothing is in the queue, with the collector or in a batch, and all permits are free. -/
structure Idle (s : InferenceBatcher args ρ) : Prop where
  queue : s.queue = []
  worker : s.worker = .awaitFirst
  permits : s.permits = args.maxConcurrentBatches

/-- No batch of an idle batcher holds a permit. -/
lemma Idle.heldPermits_eq_zero (h : Idle s) (hi : PermitInv s) : s.heldPermits = 0 := by
  have hpermits := h.permits
  simp only [PermitInv, h.worker, Worker.permits] at hi
  omega

/-- Every batch that an idle batcher has dispatched has ended. -/
lemma Idle.ended (h : Idle s) (hi : PermitInv s) {t : BatchTask ρ} (ht : t ∈ s.tasks) :
    t.phase.ended = true := by
  have hnone := List.countP_eq_zero.mp (h.heldPermits_eq_zero hi) t ht
  cases hp : t.phase with
  | reaped b => rfl
  | _ => simp [hp, TaskPhase.holdsPermit] at hnone

/-- **An idle batcher has answered whoever it has admitted.**

**Proof sketch.** The request is in a dispatched batch, as the other holders are empty; the batch
has ended, and has answered its requests (`Accounted`). -/
theorem Idle.done (h : Idle s) (hf : FlowInv s) (hb : Accounted s) (hi : PermitInv s) {it : Item}
    (hit : it ∈ items s.calls) : ∃ v, s.futures[it.future]? = some v ∧ v.done = true := by
  rw [← hf.flow_eq, flow, h.queue, h.worker, Worker.held, List.append_nil, List.append_nil] at hit
  obtain ⟨batch, hbatch, hit⟩ := List.mem_flatten.mp hit
  obtain ⟨t, ht, rfl⟩ := List.mem_map.mp hbatch
  exact hb.settled t ht (h.ended hi ht) it hit

/-! ## Smooth steps -/

/-- The step carries requests towards their answer, and if it ends a batch, a success is
recorded. -/
def Smooth (s : InferenceBatcher args ρ) (e : ℚ × Action ρ) : Prop :=
  e.2.isProgress = true ∧ (e.2.isFinish = true → verdict s e.2 = some true)

instance (s : InferenceBatcher args ρ) (e : ℚ × Action ρ) : Decidable (Smooth s e) :=
  inferInstanceAs (Decidable (_ ∧ _))

/-- A smooth step is enabled, now or at a later time. -/
def CanGoOn (s : InferenceBatcher args ρ) : Prop :=
  ∃ t a s', s.now ≤ t ∧ Smooth s (t, a) ∧ step s (t, a) = some s'

/-- A step that ends no batch is smooth if it carries requests towards their answer. -/
lemma smooth_of_not_isFinish {t : ℚ} (hp : a.isProgress = true) (hf : a.isFinish = false) :
    Smooth s (t, a) := by
  refine ⟨hp, fun hfinish => ?_⟩
  cases hf.symm.trans hfinish

/-- An action that is possible at time `t` is a step. -/
lemma canGoOn_of_act {t : ℚ} (ht : s.now ≤ t) (ha : Smooth s (t, a))
    (h : (act { s with now := t } a).isSome = true) : CanGoOn s := by
  obtain ⟨s', hs'⟩ := Option.isSome_iff_exists.mp h
  exact ⟨t, a, s', ht, ha, step_eq_some.mpr ⟨ht, hs'⟩⟩

/-- A task whose done-callback has not run can go on: if it waits for `predict_fn`, with one row
for each of its requests. -/
lemma canGoOn_of_task [Nonempty ρ] {k : ℕ} {t : BatchTask ρ} (hk : s.tasks[k]? = some t)
    (hp : t.phase.holdsPermit = true) : CanGoOn s := by
  obtain ⟨batch, p⟩ := t
  cases p with
  | created =>
    exact canGoOn_of_act (a := .callPredictFn k) le_rfl (smooth_of_not_isFinish rfl rfl)
      (by simp [act, callPredictFn, hk])
  | running =>
    obtain ⟨row⟩ := ‹Nonempty ρ›
    refine canGoOn_of_act (a := .finish k (.returned (batch.map fun _ => row))) le_rfl
      ⟨rfl, fun _ => ?_⟩ (by simp [act, finishBatch, hk, Behaviour.isCancelled])
    have ho : outcome batch.length (.returned (batch.map fun _ => row)) =
        some (.ok (batch.map fun _ => row)) := by
      simp [outcome, Behaviour.delivered]
    simp only [verdict, hk, ho]
    rfl
  | finished b =>
    exact canGoOn_of_act (a := .batchDone k) le_rfl (smooth_of_not_isFinish rfl rfl)
      (by simp [act, onBatchDone, hk])
  | reaped b => cases hp

/-- **A batcher that is not idle can go on.**

**Proof sketch.** By where the collector stands. It takes the first item of the queue, and waits for
another one no longer than its deadline; and if it finds no permit, or has nothing to do, then a
dispatched batch has one. -/
theorem canGoOn_of_not_idle [Nonempty ρ] (hi : PermitInv s) (hmax : 1 ≤ args.maxConcurrentBatches)
    (halive : ∀ batch, s.worker ≠ .cancelled batch) (hstart : s.worker ≠ .notStarted)
    (hn : ¬ Idle s) : CanGoOn s := by
  have htask : 0 < s.heldPermits → CanGoOn s := by
    intro hpos
    obtain ⟨t, ht, hp⟩ := List.countP_pos_iff.mp hpos
    obtain ⟨k, hk⟩ := List.mem_iff_getElem?.mp ht
    exact canGoOn_of_task hk hp
  cases hw : s.worker with
  | notStarted => exact absurd hw hstart
  | cancelled batch => exact absurd hw (halive batch)
  | awaitFirst =>
    cases hq : s.queue with
    | cons item queue =>
      exact canGoOn_of_act (a := .collectFirst) le_rfl (smooth_of_not_isFinish rfl rfl)
        (by simp [act, collectFirst, hw, hq])
    | nil =>
      apply htask
      have hne : s.permits ≠ args.maxConcurrentBatches := fun hp => hn ⟨hq, hw, hp⟩
      simp only [PermitInv, hw, Worker.permits] at hi
      omega
  | loopHead batch deadline =>
    apply canGoOn_of_act (a := .loopTest) le_rfl (smooth_of_not_isFinish rfl rfl)
    simp only [act, loopTest, hw]
    split_ifs <;> rfl
  | waitFor batch deadline =>
    exact canGoOn_of_act (a := .collectTimeout) (le_max_left s.now deadline)
      (smooth_of_not_isFinish rfl rfl) (by simp [act, collectTimeout, hw])
  | acquire batch =>
    by_cases hp : 0 < s.permits
    · exact canGoOn_of_act (a := .acquire) le_rfl (smooth_of_not_isFinish rfl rfl)
        (by simp [act, acquire, hw, hp])
    · apply htask
      simp only [PermitInv, hw, Worker.permits] at hi
      omega
  | dispatch batch =>
    exact canGoOn_of_act (a := .dispatch) le_rfl (smooth_of_not_isFinish rfl rfl)
      (by simp [act, dispatch, hw])

/-! ## Running dry -/

/-- The batcher has been through a run, has been started, and has not been stopped. -/
structure Serving (s : InferenceBatcher args ρ) : Prop where
  run : ∃ t₀ es, Machine.exec step (new args ρ t₀) es = some s
  started : s.worker ≠ .notStarted
  notStopped : s.stopping = .notCalled

/-- A smooth step does not stop the batcher. -/
lemma Serving.step {e : ℚ × Action ρ} (h : Serving s) (he : e.2.isProgress = true)
    (hstep : step s e = some s') : Serving s' := by
  obtain ⟨t₀, es, hrun⟩ := h.run
  obtain ⟨-, heff⟩ := step_effect hstep
  exact ⟨⟨t₀, es ++ [e], Machine.exec_snoc_eq_some.mpr ⟨s, hrun, hstep⟩⟩, heff.started h.started,
    (heff.stopping_eq he).trans h.notStopped⟩

/-- **Smooth steps come to an end, and they end where the batcher is idle.** -/
theorem exhausting [Nonempty ρ] (hmax : 1 ≤ args.maxConcurrentBatches) :
    Machine.Exhausting step Smooth Serving Idle (work : InferenceBatcher args ρ → ℕ) where
  keep s e s' hs he hstep := hs.step he.1 hstep
  lower s e s' _ he hstep := (step_effect hstep).2.work_lt he.1
  progress s hs hn := by
    obtain ⟨t₀, es, hrun⟩ := hs.run
    obtain ⟨t, a, s', -, ha, hstep⟩ := canGoOn_of_not_idle (permits_exec hrun) hmax
      (workerAlive_exec hrun hs.notStopped) hs.started hn
    exact ⟨(t, a), s', ha, hstep⟩

end InferenceBatcher

end InferenceServer
