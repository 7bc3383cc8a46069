import InferenceServer.Batcher.Drain
import InferenceServer.Batcher.Load

set_option relaxedAutoImplicit false
set_option autoImplicit false

/-!
# How long a request waits

The machine lets time pass whenever it may. Here the event loop is punctual: time passes only while
it has nothing to do, a window is closed at its deadline, and no batch waits longer than `D` for its
call of `predict_fn`. Then a request is answered by a deadline that is known when it is admitted.

## Main definitions

* `InferenceBatcher.Waits`, `MeteredBatcher.Punctual` — the condition on the steps of a run.
* `BatcherArgs.queueTime` — how long a place in the queue is away from being dispatched.
* `InferenceBatcher.DispatchBy`, `InferenceBatcher.DueBy` — a request will be dispatched, or
  answered, by a deadline.

## Main results

* `InferenceBatcher.DueBy.tick`, `InferenceBatcher.DueBy.effect` — a deadline is met while time
  passes and while something happens.
* `InferenceBatcher.exists_move` — what a batcher that is not idle has to do.
* `MeteredBatcher.exhausting` — a punctual run can go on until the batcher is idle.
* `MeteredBatcher.answered_by` — the deadline of a request.

## Design

A deadline is a point of time, fixed when the request is admitted, and not a time left: so nothing
is to be counted down, and each step only has to show that the deadline is still met. What is not at
hand is bounded by what must happen before: a batch waits for a permit no longer than `D`, as there
is always another one that will put its permit back.

`D` bounds what `model_inference_seconds` measures: the whole `await` of `asyncio.to_thread`, from
`t_start` on. The wait for a worker thread is in it, and not only the call.
-/

namespace InferenceServer

namespace BatcherArgs

variable {args : BatcherArgs} {D t u : ℚ} {i j n : ℕ}

/-- The time from the moment the collector waits for a first item until the request at place `i` of
the queue is dispatched: the full batches before it, its own window, and a permit. -/
def queueTime (args : BatcherArgs) (D : ℚ) (i : ℕ) : ℚ :=
  (i / args.width : ℕ) * D + args.timeoutS + D

/-- The time at which the request at place `i` is dispatched, if the batch with the first `n`
requests is dispatched at time `t`. -/
def leaves (args : BatcherArgs) (D : ℚ) (n i : ℕ) (t : ℚ) : ℚ :=
  if i < n then t else t + args.queueTime D (i - n)

/-- Whoever is behind is not earlier. -/
lemma queueTime_mono (args : BatcherArgs) (hD : 0 ≤ D) (hij : i ≤ j) :
    args.queueTime D i ≤ args.queueTime D j := by
  have hdiv : ((i / args.width : ℕ) : ℚ) ≤ (j / args.width : ℕ) :=
    Nat.cast_le.mpr (Nat.div_le_div_right hij)
  have hmul := mul_le_mul_of_nonneg_right hdiv hD
  unfold queueTime
  linarith

/-- A full batch takes a permit. -/
lemma queueTime_of_width_le (h : args.width ≤ i) :
    args.queueTime D i = D + args.queueTime D (i - args.width) := by
  have hdiv : i / args.width = (i - args.width) / args.width + 1 :=
    Nat.div_eq_sub_div args.width_pos h
  unfold queueTime
  rw [hdiv, Nat.cast_add, Nat.cast_one]
  ring

/-- A request in the first batch waits for the window and for a permit. -/
lemma queueTime_of_lt (h : i < args.width) : args.queueTime D i = args.timeoutS + D := by
  simp [queueTime, Nat.div_eq_of_lt h]

/-- The window and a permit are part of any wait. -/
lemma le_queueTime (args : BatcherArgs) (hD : 0 ≤ D) : args.timeoutS + D ≤ args.queueTime D i := by
  have hnonneg : 0 ≤ ((i / args.width : ℕ) : ℚ) * D := mul_nonneg (Nat.cast_nonneg _) hD
  unfold queueTime
  linarith

/-- A batch that leaves later takes the requests with it later. -/
lemma leaves_mono (htu : t ≤ u) : args.leaves D n i t ≤ args.leaves D n i u := by
  unfold leaves
  split_ifs <;> linarith

/-- No request leaves before the batch. -/
lemma le_leaves (hτ : 0 ≤ args.timeoutS) (hD : 0 ≤ D) : t ≤ args.leaves D n i t := by
  unfold leaves
  split_ifs
  · exact le_rfl
  · have hle := le_queueTime args (i := i - n) hD
    linarith

/-- A request leaves no later with a larger batch. -/
lemma leaves_anti {m : ℕ} (hτ : 0 ≤ args.timeoutS) (hD : 0 ≤ D) (hnm : n ≤ m) :
    args.leaves D m i t ≤ args.leaves D n i t := by
  unfold leaves
  split_ifs with hm hn hn
  · exact le_rfl
  · have hle := le_queueTime args (i := i - n) hD
    linarith
  · omega
  · have hle := queueTime_mono args hD (Nat.sub_le_sub_left hnm i)
    linarith

/-- The requests that are not in the batch leave no earlier than if they were in the next one. -/
lemma leaves_le (hτ : 0 ≤ args.timeoutS) (hD : 0 ≤ D) :
    args.leaves D n i t ≤ t + args.queueTime D i := by
  unfold leaves
  split_ifs with hi
  · have hle := le_queueTime args (i := i) hD
    linarith
  · have hle := queueTime_mono args hD (Nat.sub_le i n)
    linarith

end BatcherArgs

/-- The collector has nothing to do before `u`, with `queue` before it and `permits` free. -/
def Worker.Waits (queue : List Item) (permits : ℕ) (u : ℚ) : Worker → Prop
  | .notStarted => True
  | .awaitFirst => queue = []
  | .loopHead _ _ => False
  | .waitFor _ deadline => queue = [] ∧ u ≤ deadline
  | .acquire _ => permits = 0
  | .dispatch _ => False
  | .cancelled _ => True

instance (queue : List Item) (permits : ℕ) (u : ℚ) : (w : Worker) →
    Decidable (w.Waits queue permits u)
  | .notStarted => isTrue trivial
  | .awaitFirst => inferInstanceAs (Decidable (queue = []))
  | .loopHead _ _ => isFalse id
  | .waitFor _ deadline => inferInstanceAs (Decidable (queue = [] ∧ u ≤ deadline))
  | .acquire _ => inferInstanceAs (Decidable (permits = 0))
  | .dispatch _ => isFalse id
  | .cancelled _ => isTrue trivial

namespace InferenceBatcher

variable {args : BatcherArgs} {ρ : Type} {s s' : InferenceBatcher args ρ} {a : Action ρ}
  {D w v u : ℚ} {ts : ℕ → ℚ} {f i k : ℕ} {batch : List Item} {p : TaskPhase ρ}

/-! ## Deadlines -/

/-- There is nothing to do before `u`, but for the ends of calls of `predict_fn`. -/
def Waits (s : InferenceBatcher args ρ) (u : ℚ) : Prop :=
  (∀ t ∈ s.tasks, t.phase.holdsPermit = true → t.phase.isRunning = true) ∧
    s.worker.Waits s.queue s.permits u

instance (s : InferenceBatcher args ρ) (u : ℚ) : Decidable (s.Waits u) :=
  inferInstanceAs (Decidable (_ ∧ _))

/-- Task `k`, which stands at `p`, will have ended by `w`, if a call of `predict_fn` takes `D`. -/
def EndsBy (D now : ℚ) (ts : ℕ → ℚ) (k : ℕ) (p : TaskPhase ρ) (w : ℚ) : Prop :=
  match p with
  | .created => now + D ≤ w
  | .running => ts k + D ≤ w
  | .finished _ => True
  | .reaped _ => True

/-- A permit will be free by `w`: there is one, or a task will put its own back. -/
def FreeBy (D : ℚ) (ts : ℕ → ℚ) (s : InferenceBatcher args ρ) (w : ℚ) : Prop :=
  s.now ≤ w ∧ (0 < s.permits ∨ ∃ k batch p, s.tasks[k]? = some ⟨batch, p⟩ ∧
    p.holdsPermit = true ∧ EndsBy D s.now ts k p w)

/-- While the collector collects `batch`, with a window until `deadline`, the request at place `i`
of the batch and the queue will be dispatched by `w`. While the window is open the batch is filled
from the queue. -/
def CollectBy (D : ℚ) (s : InferenceBatcher args ρ) (batch : List Item) (deadline : ℚ) (i : ℕ)
    (w : ℚ) : Prop :=
  if s.now < deadline then
    if i < args.width then deadline + D ≤ w else args.leaves D args.width i (s.now + D) ≤ w
  else args.leaves D batch.length i (s.now + D) ≤ w

/-- The request at place `i` of the collector's batch and the queue will be dispatched by `w`. -/
def DispatchBy (D : ℚ) (ts : ℕ → ℚ) (s : InferenceBatcher args ρ) (i : ℕ) (w : ℚ) : Prop :=
  match s.worker with
  | .notStarted => False
  | .awaitFirst => s.now + args.queueTime D i ≤ w
  | .loopHead batch deadline => CollectBy D s batch deadline i w
  | .waitFor batch deadline => CollectBy D s batch deadline i w
  | .acquire batch => ∃ v, FreeBy D ts s v ∧ args.leaves D batch.length i v ≤ w
  | .dispatch batch => args.leaves D batch.length i s.now ≤ w
  | .cancelled _ => False

/-- The request with the future `f` will be answered by `w`: it will be dispatched a call of
`predict_fn` before, or it is in a batch that will have ended. -/
def DueBy (D : ℚ) (ts : ℕ → ℚ) (s : InferenceBatcher args ρ) (f : ℕ) (w : ℚ) : Prop :=
  (∃ i it, (s.worker.held ++ s.queue)[i]? = some it ∧ it.future = f ∧
    DispatchBy D ts s i (w - D)) ∨
  ∃ k batch p, s.tasks[k]? = some ⟨batch, p⟩ ∧ (∃ it ∈ batch, it.future = f) ∧
    EndsBy D s.now ts k p w

/-- Calls of `predict_fn` have been started before, and have not taken longer than `D`; and a window
is not longer than it may be. -/
structure Timely (D : ℚ) (ts : ℕ → ℚ) (s : InferenceBatcher args ρ) : Prop where
  started : ∀ k batch, s.tasks[k]? = some ⟨batch, .running⟩ → ts k ≤ s.now ∧ s.now ≤ ts k + D
  window : ∀ batch deadline, s.worker = .loopHead batch deadline ∨
    s.worker = .waitFor batch deadline → deadline ≤ s.now + args.timeoutS

/-- There is always a permit that will be free after a call of `predict_fn`.

**Proof sketch.** The collector has none in its hands. So there is a free one, or a task has it. -/
lemma freeBy_of_permits (hi : PermitInv s) (hmax : 1 ≤ args.maxConcurrentBatches) (hD : 0 ≤ D)
    (ht : Timely D ts s) (hw : s.worker.permits = 0) : FreeBy D ts s (s.now + D) := by
  refine ⟨by linarith, ?_⟩
  by_cases hp : 0 < s.permits
  · exact .inl hp
  · have hheld : 0 < s.heldPermits := by
      unfold PermitInv at hi
      omega
    obtain ⟨⟨batch, p⟩, hmem, hpermit⟩ := List.countP_pos_iff.mp hheld
    obtain ⟨k, hk⟩ := List.mem_iff_getElem?.mp hmem
    refine .inr ⟨k, batch, p, hk, hpermit, ?_⟩
    cases p with
    | created => exact le_rfl
    | running =>
      have hstart := (ht.started k batch hk).1
      show ts k + D ≤ s.now + D
      linarith
    | _ => trivial

/-! ## The collection -/

/-- The collector takes its first item: a window begins. -/
lemma collectBy_first (hτ : 0 < args.timeoutS) (item : Item)
    (h : s.now + args.queueTime D i ≤ w) :
    CollectBy D s [item] (s.now + args.timeoutS) i w := by
  unfold CollectBy
  rw [if_pos (by linarith)]
  split_ifs with hi
  · rw [BatcherArgs.queueTime_of_lt hi] at h
    linarith
  · rw [BatcherArgs.queueTime_of_width_le (not_lt.mp hi)] at h
    rw [BatcherArgs.leaves, if_neg hi]
    linarith

/-- The collector takes another item. -/
lemma CollectBy.next {deadline : ℚ} (hτ : 0 ≤ args.timeoutS) (hD : 0 ≤ D)
    (h : CollectBy D s batch deadline i w) (item : Item) :
    CollectBy D s (batch ++ [item]) deadline i w := by
  unfold CollectBy at h ⊢
  split_ifs at h ⊢ with hnow hi
  · exact h
  · exact h
  · have hle : batch.length ≤ (batch ++ [item]).length := by simp
    exact (BatcherArgs.leaves_anti hτ hD hle).trans h

/-- The collection ends with a full batch, or at the end of the window. -/
lemma CollectBy.finish {deadline : ℚ} (h : CollectBy D s batch deadline i w)
    (hlen : 1 ≤ batch.length ∧ (batch.length : ℤ) ≤ max 1 args.batchSize)
    (hd : args.batchSize ≤ batch.length ∨ deadline ≤ s.now) :
    args.leaves D batch.length i (s.now + D) ≤ w := by
  unfold CollectBy at h
  by_cases hnow : s.now < deadline
  · have hfull : batch.length = args.width := by
      unfold BatcherArgs.width
      rcases hd with hd | hd
      · omega
      · exact absurd hnow (not_lt.mpr hd)
    rw [if_pos hnow] at h
    rw [hfull]
    split_ifs at h with hi
    · rw [BatcherArgs.leaves, if_pos hi]
      linarith
    · exact h
  · rw [if_neg hnow] at h
    exact h

/-! ## Time passes -/

/-- A task that has a permit while time passes is with `predict_fn`. -/
lemma Waits.phase_eq (h : s.Waits u) (hk : s.tasks[k]? = some ⟨batch, p⟩)
    (hp : p.holdsPermit = true) : p = .running := by
  have hrun := h.1 ⟨batch, p⟩ (List.mem_of_getElem? hk) hp
  cases p with
  | running => rfl
  | _ => cases hrun

/-- A task does not miss its deadline while time passes. -/
lemma EndsBy.tick (h : EndsBy D s.now ts k p w) (hw : s.Waits u)
    (hk : s.tasks[k]? = some ⟨batch, p⟩) : EndsBy D u ts k p w := by
  cases p with
  | created => cases hw.phase_eq hk rfl
  | running => exact h
  | _ => trivial

/-- A permit is not late, as the call that it waits for is not.

**Proof sketch.** While time passes no permit is free, and the task that will put its own back is
with `predict_fn`. -/
lemma FreeBy.tick (h : FreeBy D ts s w) (hw : s.Waits u) (hp : s.permits = 0)
    (hu : ∀ k ∈ s.running, u ≤ ts k + D) : FreeBy D ts { s with now := u } w := by
  obtain ⟨-, hpos | ⟨k, batch, p, hk, hpermit, hends⟩⟩ := h
  · omega
  · obtain rfl := hw.phase_eq hk hpermit
    have hle : u ≤ ts k + D := hu k (mem_running.mpr ⟨batch, hk⟩)
    exact ⟨hle.trans hends, .inr ⟨k, batch, .running, hk, rfl, hends⟩⟩

/-- The dispatch is not late while time passes.

**Proof sketch.** Time passes only while nothing is in the queue, unless the collector waits for a
permit: so the request is in the batch, and the window does not end before its deadline. -/
lemma DispatchBy.tick (h : DispatchBy D ts s i w) (hw : s.Waits u) (hle : s.now ≤ u)
    (hlegal : s.worker.Legal args.batchSize) (hi : i < (s.worker.held ++ s.queue).length)
    (hu : ∀ k ∈ s.running, u ≤ ts k + D) : DispatchBy D ts { s with now := u } i w := by
  have hwait := hw.2
  unfold DispatchBy at h ⊢
  cases hworker : s.worker with
  | notStarted =>
    rw [hworker] at h
    exact h
  | awaitFirst =>
    rw [hworker] at hwait
    have hqueue : s.queue = [] := hwait
    simp [hworker, Worker.held, hqueue] at hi
  | loopHead batch deadline =>
    rw [hworker] at hwait
    exact False.elim hwait
  | waitFor batch deadline =>
    rw [hworker] at h hwait hlegal
    obtain ⟨hqueue, hdeadline⟩ := hwait
    rw [hworker, Worker.held, hqueue, List.append_nil] at hi
    have hwidth : i < args.width :=
      Nat.lt_of_lt_of_le hi (length_le_width (hlegal.2.le.trans (le_max_right _ _)))
    simp only [CollectBy, hwidth, if_true] at h ⊢
    split_ifs at h ⊢ with hu' hnow hnow
    · exact h
    · exact absurd (lt_of_le_of_lt hle hu') hnow
    · rw [BatcherArgs.leaves, if_pos hi]
      linarith
    · rw [BatcherArgs.leaves, if_pos hi] at h ⊢
      linarith
  | acquire batch =>
    rw [hworker] at h hwait
    obtain ⟨v, hfree, hv⟩ := h
    exact ⟨v, hfree.tick hw hwait hu, hv⟩
  | dispatch batch =>
    rw [hworker] at hwait
    exact False.elim hwait
  | cancelled batch =>
    rw [hworker] at h
    exact h

/-- **A deadline is met while time passes.** -/
lemma DueBy.tick (h : DueBy D ts s f w) (hw : s.Waits u) (hle : s.now ≤ u)
    (hlegal : s.worker.Legal args.batchSize) (hu : ∀ k ∈ s.running, u ≤ ts k + D) :
    DueBy D ts { s with now := u } f w := by
  rcases h with ⟨i, it, hit, hf, hdispatch⟩ | ⟨k, batch, p, hk, hit, hends⟩
  · have hi := (List.getElem?_eq_some_iff.mp hit).1
    exact .inl ⟨i, it, hit, hf, hdispatch.tick hw hle hlegal hi hu⟩
  · exact .inr ⟨k, batch, p, hk, hit, hends.tick hw hk⟩

/-! ## Something happens -/

/-- The `t_start` of each task after an action at time `now`. -/
def startTimes (now : ℚ) (ts : ℕ → ℚ) : Action ρ → ℕ → ℚ
  | .callPredictFn k => Function.update ts k now
  | _ => ts

/-- A task meets its deadline when something happens, and does not lose its permit but to the
semaphore.

**Proof sketch.** The tasks that the action does not move stay as they are. A task that is called
has `D` from now on; and one that has ended is in time. -/
lemma EndsBy.effect (h : EndsBy D s.now ts k p w) (heff : Effect s a s')
    (hk : s.tasks[k]? = some ⟨batch, p⟩) :
    ∃ q, s'.tasks[k]? = some ⟨batch, q⟩ ∧ EndsBy D s.now (startTimes s.now ts a) k q w ∧
      (p.holdsPermit = true → q.holdsPermit = true ∨ 0 < s'.permits) := by
  have hlt := (List.getElem?_eq_some_iff.mp hk).1
  cases a with
  | callPredictFn j =>
    obtain ⟨batch', hj, hs⟩ := heff.tasks_callPredictFn
    by_cases hjk : j = k
    · subst hjk
      obtain ⟨rfl, rfl⟩ : batch = batch' ∧ p = .created := by simpa using hk.symm.trans hj
      refine ⟨.running, by rw [hs, List.getElem?_set_self hlt], ?_, fun _ => .inl rfl⟩
      simpa [EndsBy, startTimes] using h
    · refine ⟨p, by rw [hs, List.getElem?_set_ne hjk, hk], ?_, fun hp => .inl hp⟩
      cases p with
      | running =>
        simp only [EndsBy, startTimes, Function.update_of_ne (Ne.symm hjk)]
        exact h
      | _ => exact h
  | finish j r =>
    obtain ⟨batch', hj, hs⟩ := heff.tasks_finish
    by_cases hjk : j = k
    · subst hjk
      obtain ⟨rfl, rfl⟩ : batch = batch' ∧ p = .running := by simpa using hk.symm.trans hj
      exact ⟨.finished r, by rw [hs, List.getElem?_set_self hlt], trivial, fun _ => .inl rfl⟩
    · exact ⟨p, by rw [hs, List.getElem?_set_ne hjk, hk], h, fun hp => .inl hp⟩
  | batchDone j =>
    obtain ⟨batch', r, hj, hs⟩ := heff.tasks_batchDone
    by_cases hjk : j = k
    · subst hjk
      obtain ⟨rfl, rfl⟩ : batch = batch' ∧ p = .finished r := by simpa using hk.symm.trans hj
      have hpermits : 0 < s'.permits := by
        cases heff with
        | batchDone k batch b hk' => exact Nat.succ_pos _
      exact ⟨.reaped r, by rw [hs, List.getElem?_set_self hlt], trivial, fun _ => .inr hpermits⟩
    · exact ⟨p, by rw [hs, List.getElem?_set_ne hjk, hk], h, fun hp => .inl hp⟩
  | dispatch =>
    obtain ⟨batch', hs⟩ := heff.tasks_dispatch
    exact ⟨p, by rw [hs, List.getElem?_append_left hlt, hk], h, fun hp => .inl hp⟩
  | _ =>
    have hs : s'.tasks = s.tasks := by cases heff <;> rfl
    exact ⟨p, by rw [hs, hk], h, fun hp => .inl hp⟩

/-- Only the collector takes permits. -/
lemma Effect.permits_le (heff : Effect s a s') (ha : a ≠ .acquire) : s.permits ≤ s'.permits := by
  cases heff with
  | acquire batch hw hp => exact absurd rfl ha
  | batchDone k batch b hk => exact Nat.le_succ _
  | stop permits hs hp =>
    rw [hp]
    cases s.worker with
    | dispatch batch => exact Nat.le_succ _
    | _ => exact le_rfl
  | _ => exact le_rfl

/-- A permit that will be free in time still will be, unless the collector takes it. -/
lemma FreeBy.effect (h : FreeBy D ts s w) (heff : Effect s a s') (ha : a ≠ .acquire) :
    FreeBy D (startTimes s.now ts a) s' w := by
  obtain ⟨hle, hpos | ⟨k, batch, p, hk, hpermit, hends⟩⟩ := h
  · exact ⟨heff.now_eq.trans_le hle, .inl (Nat.lt_of_lt_of_le hpos (heff.permits_le ha))⟩
  · obtain ⟨q, hq, hends', hpermit'⟩ := hends.effect heff hk
    refine ⟨heff.now_eq.trans_le hle, ?_⟩
    rcases hpermit' hpermit with hqp | hpos
    · exact .inr ⟨k, batch, q, hq, hqp, by rw [heff.now_eq]; exact hends'⟩
    · exact .inl hpos

/-- The dispatch is not late when something happens elsewhere. -/
lemma DispatchBy.keep (h : DispatchBy D ts s i w) (heff : Effect s a s') (ha : a ≠ .acquire)
    (hworker : s'.worker = s.worker) : DispatchBy D (startTimes s.now ts a) s' i w := by
  unfold DispatchBy at h ⊢
  rw [hworker]
  cases hw : s.worker with
  | acquire batch =>
    rw [hw] at h
    obtain ⟨v, hfree, hv⟩ := h
    exact ⟨v, hfree.effect heff ha, hv⟩
  | notStarted =>
    rw [hw] at h
    exact h
  | cancelled batch =>
    rw [hw] at h
    exact h
  | _ =>
    rw [hw] at h
    simp only [CollectBy, heff.now_eq] at h ⊢
    exact h

/-- **A deadline is met when the collector moves.**

**Proof sketch.** One case for each move. A window begins, a batch grows, and a batch ends, with a
request in it or behind it; when it is dispatched, those in it have the time of a call left, and
those behind it have moved up. -/
lemma DispatchBy.move {it : Item} (h : DispatchBy D ts s i (w - D)) (heff : Effect s a s')
    (hit : (s.worker.held ++ s.queue)[i]? = some it) (hstop : a ≠ .stop)
    (hlegal : s.worker.Legal args.batchSize) (hi : PermitInv s)
    (hmax : 1 ≤ args.maxConcurrentBatches) (ht : Timely D ts s) (hτ : 0 < args.timeoutS)
    (hD : 0 ≤ D) (hworker : s'.worker ≠ s.worker) :
    DueBy D (startTimes s.now ts a) s' it.future w := by
  cases heff with
  | start hw hs =>
    unfold DispatchBy at h
    rw [hw] at h
    exact h.elim
  | collectFirst item queue hw hq =>
    rw [DispatchBy, hw] at h
    rw [hw, hq] at hit
    exact .inl ⟨i, it, hit, rfl, collectBy_first hτ item h⟩
  | wait batch deadline hw hlen hd =>
    rw [DispatchBy, hw] at h
    rw [hw] at hit
    exact .inl ⟨i, it, hit, rfl, h⟩
  | full batch deadline hw hd =>
    rw [DispatchBy, hw] at h
    rw [hw] at hit hlegal
    have hfree := freeBy_of_permits hi hmax hD ht (by rw [hw]; rfl)
    exact .inl ⟨i, it, hit, rfl, s.now + D, hfree, h.finish hlegal hd⟩
  | collectNext batch deadline item queue hw hq =>
    rw [DispatchBy, hw] at h
    rw [hw, hq] at hit
    refine .inl ⟨i, it, ?_, rfl, h.next hτ.le hD item⟩
    simpa [Worker.held] using hit
  | collectTimeout batch deadline hw hd =>
    rw [DispatchBy, hw] at h
    rw [hw] at hit hlegal
    have hfree := freeBy_of_permits hi hmax hD ht (by rw [hw]; rfl)
    have hlen : 1 ≤ batch.length ∧ (batch.length : ℤ) ≤ max 1 args.batchSize :=
      ⟨hlegal.1, hlegal.2.le.trans (le_max_right _ _)⟩
    exact .inl ⟨i, it, hit, rfl, s.now + D, hfree, h.finish hlen (.inr hd)⟩
  | acquire batch hw hp =>
    rw [DispatchBy, hw] at h
    rw [hw] at hit
    obtain ⟨v, ⟨hle, -⟩, hv⟩ := h
    exact .inl ⟨i, it, hit, rfl, (BatcherArgs.leaves_mono hle).trans hv⟩
  | dispatch batch hw =>
    rw [DispatchBy, hw] at h
    rw [hw, Worker.held] at hit
    replace h : args.leaves D batch.length i s.now ≤ w - D := h
    unfold BatcherArgs.leaves at h
    split_ifs at h with hlt
    · rw [List.getElem?_append_left hlt] at hit
      refine .inr ⟨s.tasks.length, batch, .created, List.getElem?_concat_length, ?_, ?_⟩
      · exact ⟨it, List.mem_of_getElem? hit, rfl⟩
      · show s.now + D ≤ w
        linarith
    · rw [List.getElem?_append_right (not_lt.mp hlt)] at hit
      exact .inl ⟨i - batch.length, it, hit, rfl, h⟩
  | stop permits hs hp => exact absurd rfl hstop
  | _ => exact absurd rfl hworker

/-- The collector stands still, and nobody leaves the queue. -/
lemma Effect.queue_eq (heff : Effect s a s') (hworker : s'.worker = s.worker) :
    ∃ l, s'.queue = s.queue ++ l := by
  cases heff with
  | accept text cb hc => exact ⟨_, rfl⟩
  | collectFirst item queue hw hq =>
    rw [hw] at hworker
    cases hworker
  | collectNext batch deadline item queue hw hq =>
    rw [hw] at hworker
    cases hworker
  | _ => exact ⟨[], (List.append_nil _).symm⟩

/-- **A deadline is met when something happens.**

**Proof sketch.** The collector moves (`DispatchBy.move`), or it does not (`DispatchBy.keep`); a
request that has been dispatched is the task's matter (`EndsBy.effect`). -/
lemma DueBy.effect (h : DueBy D ts s f w) (heff : Effect s a s') (hstop : a ≠ .stop)
    (hlegal : s.worker.Legal args.batchSize) (hi : PermitInv s)
    (hmax : 1 ≤ args.maxConcurrentBatches) (ht : Timely D ts s) (hτ : 0 < args.timeoutS)
    (hD : 0 ≤ D) : DueBy D (startTimes s.now ts a) s' f w := by
  rcases h with ⟨i, it, hit, rfl, hdispatch⟩ | ⟨k, batch, p, hk, hit, hends⟩
  · by_cases hworker : s'.worker = s.worker
    · obtain ⟨l, hl⟩ := heff.queue_eq hworker
      have hlt := (List.getElem?_eq_some_iff.mp hit).1
      refine .inl ⟨i, it, ?_, rfl, hdispatch.keep heff ?_ hworker⟩
      · rw [hworker, hl, ← List.append_assoc, List.getElem?_append_left hlt, hit]
      · rintro rfl
        cases heff with
        | acquire batch hw hp =>
          rw [hw] at hworker
          cases hworker
    · exact hdispatch.move heff hit hstop hlegal hi hmax ht hτ hD hworker
  · obtain ⟨q, hq, hends', -⟩ := hends.effect heff hk
    exact .inr ⟨k, batch, q, hq, hit, by rw [heff.now_eq]; exact hends'⟩

/-- A task that runs ran before, with the `t_start` that it had, or is called now. -/
lemma Effect.started_task (heff : Effect s a s') (ts : ℕ → ℚ)
    (hk : s'.tasks[k]? = some ⟨batch, .running⟩) :
    startTimes s.now ts a k = s.now ∨
      s.tasks[k]? = some ⟨batch, .running⟩ ∧ startTimes s.now ts a k = ts k := by
  cases heff with
  | dispatch batch' hw =>
    rcases task_append_cases hk with ⟨-, he⟩ | hk
    · cases he
    · exact .inr ⟨hk, rfl⟩
  | callPredictFn j batch' hj =>
    rcases task_set_cases hk with ⟨rfl, -⟩ | ⟨hjk, hk⟩
    · exact .inl (Function.update_self _ _ _)
    · exact .inr ⟨hk, Function.update_of_ne (Ne.symm hjk) _ _⟩
  | finish j r batch' hj hb =>
    rcases task_set_cases hk with ⟨-, he⟩ | ⟨-, hk⟩
    · cases he
    · exact .inr ⟨hk, rfl⟩
  | batchDone j batch' r hj =>
    rcases task_set_cases hk with ⟨-, he⟩ | ⟨-, hk⟩
    · cases he
    · exact .inr ⟨hk, rfl⟩
  | _ => exact .inr ⟨hk, rfl⟩

/-- Nothing but a call of `stop()` stops the batcher. -/
lemma Effect.notStopped (heff : Effect s a s') (ha : a ≠ .stop) (hs : s.stopping = .notCalled) :
    s'.stopping = .notCalled := by
  cases heff with
  | stop permits hs' hp => exact absurd rfl ha
  | stopReturn ks hs' hk => cases hs.symm.trans hs'
  | _ => exact hs

/-- No call of `predict_fn` is late after time has passed that it has left. -/
lemma Timely.tick (h : Timely D ts s) (hle : s.now ≤ u) (hu : ∀ k ∈ s.running, u ≤ ts k + D) :
    Timely D ts { s with now := u } where
  started k batch hk := ⟨(h.started k batch hk).1.trans hle, hu k (mem_running.mpr ⟨batch, hk⟩)⟩
  window batch deadline hw := by
    have hwindow := h.window batch deadline hw
    show deadline ≤ u + args.timeoutS
    linarith

/-- A call of `predict_fn` begins now, and so does a window. -/
lemma Timely.effect (h : Timely D ts s) (heff : Effect s a s') (hD : 0 ≤ D) :
    Timely D (startTimes s.now ts a) s' where
  started k batch hk := by
    rw [heff.now_eq]
    rcases heff.started_task ts hk with he | ⟨hold, he⟩
    · rw [he]
      exact ⟨le_rfl, by linarith⟩
    · rw [he]
      exact h.started k batch hold
  window batch deadline hw := by
    rw [heff.now_eq]
    cases heff with
    | collectFirst item queue hw' hq =>
      rcases hw with he | he
      · cases he
        exact le_rfl
      · cases he
    | wait batch' deadline' hw' hlen hd =>
      rcases hw with he | he
      · cases he
      · cases he
        exact h.window _ _ (.inl hw')
    | collectNext batch' deadline' item queue hw' hq =>
      rcases hw with he | he
      · cases he
        exact h.window _ _ (.inr hw')
      · cases he
    | stop permits hs hp => cases hworker : s.worker <;> simp [hworker, Worker.cancel] at hw
    | start | full | collectTimeout | acquire | dispatch => simp at hw
    | _ => exact h.window batch deadline hw

/-! ## A new request, and the end -/

/-- **The deadline of a new request**, at place `i` of the requests that have not been dispatched.

**Proof sketch.** By where the collector stands. An open window ends soon, and takes a full batch;
after it, and while the collector waits for a permit, there is one to come; and whoever is not in
the batch at hand is not further back than in the queue behind it. -/
lemma dispatchBy_new (ht : Timely D ts s) (hperm : PermitInv s)
    (hmax : 1 ≤ args.maxConcurrentBatches) (hτ : 0 ≤ args.timeoutS) (hD : 0 ≤ D)
    (hstart : s.worker ≠ .notStarted) (halive : ∀ batch, s.worker ≠ .cancelled batch) :
    DispatchBy D ts s i (s.now + args.queueTime D i + D) := by
  have hbehind : ∀ n, args.leaves D n i (s.now + D) ≤ s.now + args.queueTime D i + D := by
    intro n
    have hle := BatcherArgs.leaves_le (n := n) (i := i) (t := s.now + D) hτ hD
    linarith
  have hcollect : ∀ batch deadline, deadline ≤ s.now + args.timeoutS →
      CollectBy D s batch deadline i (s.now + args.queueTime D i + D) := by
    intro batch deadline hdeadline
    unfold CollectBy
    split_ifs
    · have hle := BatcherArgs.le_queueTime args (i := i) hD
      linarith
    · exact hbehind _
    · exact hbehind _
  unfold DispatchBy
  cases hw : s.worker with
  | notStarted => exact absurd hw hstart
  | awaitFirst => exact le_add_of_nonneg_right hD
  | loopHead batch deadline => exact hcollect batch deadline (ht.window batch deadline (.inl hw))
  | waitFor batch deadline => exact hcollect batch deadline (ht.window batch deadline (.inr hw))
  | acquire batch =>
    exact ⟨s.now + D, freeBy_of_permits hperm hmax hD ht (by rw [hw]; rfl), hbehind _⟩
  | dispatch batch =>
    exact (BatcherArgs.leaves_mono (le_add_of_nonneg_right hD)).trans (hbehind _)
  | cancelled batch => exact absurd hw (halive batch)

/-- A request that has not been dispatched has its deadline before it. -/
lemma DispatchBy.le (h : DispatchBy D ts s i w) (hτ : 0 ≤ args.timeoutS) (hD : 0 ≤ D) :
    s.now ≤ w := by
  have hcollect : ∀ batch deadline, CollectBy D s batch deadline i w → s.now ≤ w := by
    intro batch deadline h
    unfold CollectBy at h
    split_ifs at h
    · linarith
    · have hle := BatcherArgs.le_leaves (n := args.width) (i := i) (t := s.now + D) hτ hD
      linarith
    · have hle := BatcherArgs.le_leaves (n := batch.length) (i := i) (t := s.now + D) hτ hD
      linarith
  unfold DispatchBy at h
  cases hw : s.worker with
  | awaitFirst =>
    rw [hw] at h
    have hle := BatcherArgs.le_queueTime args (i := i) hD
    linarith
  | loopHead batch deadline =>
    rw [hw] at h
    exact hcollect batch deadline h
  | waitFor batch deadline =>
    rw [hw] at h
    exact hcollect batch deadline h
  | acquire batch =>
    rw [hw] at h
    obtain ⟨v, ⟨hle, -⟩, hv⟩ := h
    exact (hle.trans (BatcherArgs.le_leaves hτ hD)).trans hv
  | dispatch batch =>
    rw [hw] at h
    exact (BatcherArgs.le_leaves hτ hD).trans h
  | notStarted =>
    rw [hw] at h
    exact h.elim
  | cancelled batch =>
    rw [hw] at h
    exact h.elim

/-- **A request that has no answer yet has its deadline before it.**

**Proof sketch.** If it is in a batch that has ended, then it has an answer (`Accounted`). -/
lemma DueBy.le (h : DueBy D ts s f w) (hb : Accounted s) (ht : Timely D ts s)
    (hτ : 0 ≤ args.timeoutS) (hD : 0 ≤ D) (hpending : s.futures[f]? = some .pending) :
    s.now ≤ w := by
  rcases h with ⟨i, it, -, -, hdispatch⟩ | ⟨k, batch, p, hk, ⟨it, hit, rfl⟩, hends⟩
  · have hle := hdispatch.le hτ hD
    linarith
  · have hopen : p.ended ≠ true := by
      intro hend
      obtain ⟨v, hv, hdone⟩ := hb.settled _ (List.mem_of_getElem? hk) hend it hit
      obtain rfl : v = .pending := Option.some.inj (hv.symm.trans hpending)
      cases hdone
    cases p with
    | created =>
      have hle : s.now + D ≤ w := hends
      linarith
    | running =>
      have hle : ts k + D ≤ w := hends
      exact (ht.started k batch hk).2.trans hle
    | finished r => exact absurd rfl hopen
    | reaped r => exact absurd rfl hopen

/-- The deadline of a request that is admitted now, behind those that have not been dispatched. -/
lemma dueBy_new {text : String} {probe : Bool} (heff : Effect s (.predict text) s')
    (hcalls : s'.calls = s.calls ++ [.admitted text probe f]) (ht : Timely D ts s')
    (hperm : PermitInv s') (hmax : 1 ≤ args.maxConcurrentBatches) (hτ : 0 ≤ args.timeoutS)
    (hD : 0 ≤ D) (hstart : s'.worker ≠ .notStarted)
    (halive : ∀ batch, s'.worker ≠ .cancelled batch) :
    DueBy D ts s' f (s'.now + args.queueTime D (s.worker.held ++ s.queue).length + D + D) := by
  have hdispatch := dispatchBy_new (i := (s.worker.held ++ s.queue).length) ht hperm hmax hτ hD
    hstart halive
  cases heff with
  | reject _ cb e hc => simp at hcalls
  | accept _ cb hc =>
    obtain ⟨-, rfl⟩ : _ ∧ s.futures.length = f := by simpa using hcalls
    have hlast : (s.worker.held ++ s.queue ++ [(⟨text, s.futures.length⟩ : Item)])[(s.worker.held ++
        s.queue).length]? = some ⟨text, s.futures.length⟩ := List.getElem?_concat_length
    rw [List.append_assoc] at hlast
    refine .inl ⟨_, _, hlast, rfl, ?_⟩
    rw [add_sub_cancel_right]
    exact hdispatch

/-- **A batcher that is not idle has something to do**, now or at the end of the window.

**Proof sketch.** A batch that holds a permit can move now. If none does then a permit is free, and
the collector can move now; or it waits for an item, and nothing is to be done up to the end of the
window. -/
theorem exists_move (hperm : PermitInv s) (hmax : 1 ≤ args.maxConcurrentBatches)
    (hstart : s.worker ≠ .notStarted) (halive : ∀ batch, s.worker ≠ .cancelled batch)
    (hn : ¬ Idle s) :
    (∃ a, a.isProgress = true ∧ (act s a).isSome = true) ∨
      ∃ batch deadline, s.worker = .waitFor batch deadline ∧ s.queue = [] ∧
        (∀ t ∈ s.tasks, t.phase.holdsPermit ≠ true) ∧ s.now < deadline := by
  by_cases htask : 0 < s.heldPermits
  · obtain ⟨⟨batch, p⟩, hmem, hp⟩ := List.countP_pos_iff.mp htask
    obtain ⟨k, hk⟩ := List.mem_iff_getElem?.mp hmem
    left
    cases p with
    | created => exact ⟨.callPredictFn k, rfl, by simp [act, callPredictFn, hk]⟩
    | running =>
      exact ⟨.finish k (.returned []), rfl, by simp [act, finishBatch, hk, Behaviour.isCancelled]⟩
    | finished r => exact ⟨.batchDone k, rfl, by simp [act, onBatchDone, hk]⟩
    | reaped r => cases hp
  · have hnone : ∀ t ∈ s.tasks, t.phase.holdsPermit ≠ true :=
      List.countP_eq_zero.mp (Nat.eq_zero_of_not_pos htask)
    unfold PermitInv at hperm
    cases hw : s.worker with
    | notStarted => exact absurd hw hstart
    | cancelled batch => exact absurd hw (halive batch)
    | awaitFirst =>
      cases hq : s.queue with
      | nil =>
        rw [hw] at hperm
        exact absurd ⟨hq, hw, by simp only [Worker.permits] at hperm; omega⟩ hn
      | cons item queue => exact .inl ⟨.collectFirst, rfl, by simp [act, collectFirst, hw, hq]⟩
    | loopHead batch deadline =>
      refine .inl ⟨.loopTest, rfl, ?_⟩
      simp only [act, loopTest, hw]
      split_ifs <;> rfl
    | waitFor batch deadline =>
      by_cases hdeadline : deadline ≤ s.now
      · exact .inl ⟨.collectTimeout, rfl, by simp [act, collectTimeout, hw, hdeadline]⟩
      · cases hq : s.queue with
        | cons item queue => exact .inl ⟨.collectNext, rfl, by simp [act, collectNext, hw, hq]⟩
        | nil => exact .inr ⟨batch, deadline, rfl, rfl, hnone, not_le.mp hdeadline⟩
    | acquire batch =>
      rw [hw] at hperm
      have hpos : 0 < s.permits := by
        simp only [Worker.permits] at hperm
        omega
      exact .inl ⟨.acquire, rfl, by simp [act, acquire, hw, hpos]⟩
    | dispatch batch => exact .inl ⟨.dispatch, rfl, by simp [act, dispatch, hw]⟩

end InferenceBatcher

/-! ## Punctual runs -/

namespace MeteredBatcher

open InferenceBatcher

variable {args : BatcherArgs} {ρ : Type} {m m' m₁ : MeteredBatcher args ρ} {a : Action ρ}
  {e : ℚ × Action ρ} {D w : ℚ} {f : ℕ}

/-- The step does not stop the batcher; time passes only while there is nothing to do; and no batch
waits longer than `D` for its call of `predict_fn`, from `t_start` until it is back. -/
structure Punctual (D : ℚ) (m : MeteredBatcher args ρ) (e : ℚ × Action ρ) : Prop where
  notStop : e.2 ≠ .stop
  waits : m.batcher.now < e.1 → m.batcher.Waits e.1
  calls : ∀ k ∈ m.batcher.running, e.1 ≤ m.tStart k + D

instance [DecidableEq ρ] (D : ℚ) (m : MeteredBatcher args ρ) (e : ℚ × Action ρ) :
    Decidable (Punctual D m e) :=
  decidable_of_iff (_ ∧ _ ∧ _) ⟨fun h => ⟨h.1, h.2.1, h.2.2⟩, fun h => ⟨h.1, h.2, h.3⟩⟩

/-- The batcher has been through a run without a call of `stop()` so far, and everything in it is
on time. -/
structure OnTime (D : ℚ) (m : MeteredBatcher args ρ) : Prop where
  run : ∃ t₀ es, Machine.exec InferenceBatcher.step (.new args ρ t₀) es = some m.batcher
  notStopped : m.batcher.stopping = .notCalled
  timely : Timely D m.tStart m.batcher

/-- A new batcher is on time. -/
lemma onTime_new (t₀ : ℚ) : OnTime D (new args ρ t₀) where
  run := ⟨t₀, [], rfl⟩
  notStopped := rfl
  timely := ⟨by simp [new, InferenceBatcher.new], by simp [new, InferenceBatcher.new]⟩

/-- What is observed of the starts of the tasks. -/
lemma observe_tStart (now : ℚ) (a : Action ρ) :
    (m.observe now a).tStart = startTimes now m.tStart a := by
  cases a with
  | finish k r => cases r <;> rfl
  | _ => rfl

/-- The time may be what it is, or there is nothing to do until then. -/
lemma Punctual.tick {P : InferenceBatcher args ρ → Prop} (hp : Punctual D m e)
    (hle : m.batcher.now ≤ e.1) (h : P m.batcher)
    (htick : m.batcher.Waits e.1 → P { m.batcher with now := e.1 }) :
    P { m.batcher with now := e.1 } := by
  rcases hle.eq_or_lt with he | hlt
  · rw [← he]
    exact h
  · exact htick (hp.waits hlt)

/-- A punctual step leaves everything on time. -/
lemma OnTime.keep (h : OnTime D m) (hD : 0 ≤ D) (hp : Punctual D m e)
    (hstep : step m e = some m') : OnTime D m' := by
  obtain ⟨b, hb, rfl⟩ := step_eq_some.mp hstep
  obtain ⟨hle, heff⟩ := step_effect hb
  obtain ⟨t₀, es, hrun⟩ := h.run
  refine ⟨⟨t₀, es ++ [e], Machine.exec_snoc_eq_some.mpr ⟨_, hrun, hb⟩⟩, ?_, ?_⟩
  · exact heff.notStopped hp.notStop h.notStopped
  · rw [observe_tStart]
    exact (h.timely.tick hle hp.calls).effect heff hD

/-- A deadline is met at the time of a punctual step. -/
lemma OnTime.due_tick (h : OnTime D m) (hdue : DueBy D m.tStart m.batcher f w)
    (hp : Punctual D m e) (hle : m.batcher.now ≤ e.1) :
    DueBy D m.tStart { m.batcher with now := e.1 } f w := by
  obtain ⟨t₀, es, hrun⟩ := h.run
  refine hp.tick (P := fun b => DueBy D m.tStart b f w) hle hdue fun hwaits => ?_
  exact hdue.tick hwaits hle (flowInv_exec hrun).worker hp.calls

/-- A deadline is met after a punctual step. -/
lemma OnTime.due_step (h : OnTime D m) (hdue : DueBy D m.tStart m.batcher f w)
    (hmax : 1 ≤ args.maxConcurrentBatches) (hτ : 0 < args.timeoutS) (hD : 0 ≤ D)
    (hp : Punctual D m e) (hstep : step m e = some m') : DueBy D m'.tStart m'.batcher f w := by
  obtain ⟨b, hb, rfl⟩ := step_eq_some.mp hstep
  obtain ⟨hle, heff⟩ := step_effect hb
  obtain ⟨t₀, es, hrun⟩ := h.run
  have hpermits : PermitInv m.batcher := permits_exec hrun
  rw [observe_tStart]
  exact (h.due_tick hdue hp hle).effect heff hp.notStop (flowInv_exec hrun).worker hpermits hmax
    (h.timely.tick hle hp.calls) hτ hD

/-- The deadline of a request that is admitted now. -/
lemma OnTime.due_new {t : ℚ} {text : String} {probe : Bool} (h : OnTime D m₁)
    (hmax : 1 ≤ args.maxConcurrentBatches) (hτ : 0 < args.timeoutS) (hD : 0 ≤ D)
    (hstart : m₁.batcher.worker ≠ .notStarted) (hcall : step m (t, .predict text) = some m₁)
    (hcalls : m₁.batcher.calls = m.batcher.calls ++ [.admitted text probe f]) :
    DueBy D m₁.tStart m₁.batcher f
      (t + args.queueTime D (m.batcher.worker.held ++ m.batcher.queue).length + D + D) := by
  obtain ⟨t₀, es, hrun⟩ := h.run
  obtain ⟨b, hb, rfl⟩ := step_eq_some.mp hcall
  obtain ⟨-, heff⟩ := step_effect hb
  have hdue := dueBy_new heff hcalls h.timely (permits_exec hrun) hmax hτ.le hD hstart
    (workerAlive_exec hrun h.notStopped)
  rwa [heff.now_eq] at hdue

/-! ## There is a punctual run -/

/-- The batcher is on time, has been started, and has admitted `it`. -/
structure Admitted (D : ℚ) (it : Item) (m : MeteredBatcher args ρ) : Prop where
  onTime : OnTime D m
  started : m.batcher.worker ≠ .notStarted
  item : it ∈ items m.batcher.calls

/-- A punctual step leaves it so. -/
lemma Admitted.keep {it : Item} (h : Admitted D it m) (hD : 0 ≤ D) (hp : Punctual D m e)
    (hstep : step m e = some m') : Admitted D it m' := by
  refine ⟨h.onTime.keep hD hp hstep, ?_, ?_⟩ <;>
    obtain ⟨b, hb, rfl⟩ := step_eq_some.mp hstep <;>
    obtain ⟨-, heff⟩ := step_effect hb
  · exact heff.started h.started
  · show it ∈ items b.calls
    rw [heff.calls_eq, items_append]
    exact List.mem_append_left _ h.item

/-- What can be done now is done punctually. -/
lemma OnTime.punctual_now (h : OnTime D m) (ha : a.isProgress = true)
    (hact : (act m.batcher a).isSome = true) :
    ∃ e m', (Punctual D m e ∧ e.2.isProgress = true) ∧ step m e = some m' := by
  obtain ⟨b, hb⟩ := Option.isSome_iff_exists.mp hact
  refine ⟨(m.batcher.now, a), _, ⟨⟨?_, ?_, ?_⟩, ha⟩,
    step_eq_some.mpr ⟨b, InferenceBatcher.step_eq_some.mpr ⟨le_rfl, hb⟩, rfl⟩⟩
  · rintro rfl
    cases ha
  · exact fun hlt => absurd hlt (lt_irrefl _)
  · intro k hk
    obtain ⟨batch, hk⟩ := mem_running.mp hk
    exact (h.timely.started k batch hk).2

/-- A window is closed at its deadline if nothing else is left to do. -/
lemma punctual_timeout {batch : List Item} {deadline : ℚ}
    (hw : m.batcher.worker = .waitFor batch deadline) (hq : m.batcher.queue = [])
    (hnone : ∀ t ∈ m.batcher.tasks, t.phase.holdsPermit ≠ true)
    (hdeadline : m.batcher.now < deadline) :
    ∃ e m', (Punctual D m e ∧ e.2.isProgress = true) ∧ step m e = some m' := by
  have heff : Effect { m.batcher with now := deadline } .collectTimeout
      { m.batcher with now := deadline, worker := .acquire batch } :=
    .collectTimeout batch deadline hw le_rfl
  have hstep := InferenceBatcher.step_eq_some (e := (deadline, .collectTimeout)).mpr
    ⟨hdeadline.le, act_of_effect heff⟩
  refine ⟨(deadline, .collectTimeout), _, ⟨⟨?_, ?_, ?_⟩, rfl⟩, step_eq_some.mpr ⟨_, hstep, rfl⟩⟩
  · rintro ⟨⟩
  · intro _
    refine ⟨fun t ht hp => absurd hp (hnone t ht), ?_⟩
    rw [hw]
    exact ⟨hq, le_rfl⟩
  · intro k hk
    obtain ⟨batch', hk⟩ := mem_running.mp hk
    exact absurd rfl (hnone _ (List.mem_of_getElem? hk))

/-- **A batcher that is on time can go on punctually, unless it is idle**: it has something to do
now, or at the end of the window (`exists_move`). -/
theorem OnTime.progress (h : OnTime D m) (hmax : 1 ≤ args.maxConcurrentBatches)
    (hstart : m.batcher.worker ≠ .notStarted) (hn : ¬ Idle m.batcher) :
    ∃ e m', (Punctual D m e ∧ e.2.isProgress = true) ∧ step m e = some m' := by
  obtain ⟨t₀, es, hrun⟩ := h.run
  obtain ⟨a, ha, hact⟩ | ⟨batch, deadline, hw, hq, hnone, hlt⟩ :=
    exists_move (permits_exec hrun) hmax hstart (workerAlive_exec hrun h.notStopped) hn
  · exact h.punctual_now ha hact
  · exact punctual_timeout hw hq hnone hlt

/-- **Punctual steps towards an answer come to an end, and they end where the batcher is idle.** -/
theorem exhausting {it : Item} (hmax : 1 ≤ args.maxConcurrentBatches) (hD : 0 ≤ D) :
    Machine.Exhausting step
      (fun (m : MeteredBatcher args ρ) e => Punctual D m e ∧ e.2.isProgress = true) (Admitted D it)
      (fun m => Idle m.batcher) (fun m => m.batcher.work) where
  keep m e m' h he hstep := h.keep hD he.1 hstep
  lower m e m' _ he hstep := by
    obtain ⟨b, hb, rfl⟩ := step_eq_some.mp hstep
    exact (step_effect hb).2.work_lt he.2
  progress m h hn := h.onTime.progress hmax h.started hn

/-! ## The deadline of a request -/

/-- **A request is answered by a deadline.** In a punctual run, let a request be admitted at time
`t`, while `n` requests have not been dispatched. As long as its future is pending, nothing happens
later than `timeout_s` and `n / max 1 batch_size + 3` times `D` after `t`; and the run can go on
punctually until the future is done.

**Proof sketch.** The deadline is that of `dispatchBy_new`, and another `D`. It is met while time
passes (`DueBy.tick`) and while something happens (`DueBy.effect`), so it is met along the run
(`OnTime.due_step`), and it is before the request as long as the future is pending (`DueBy.le`). A
punctual run ends where the batcher is idle (`exhausting`), and there the request has its answer
(`Idle.done`). -/
theorem answered_by (args : BatcherArgs) (ρ : Type) (D : ℚ) (hD : 0 ≤ D)
    (hτ : 0 < args.timeoutMs) (hmax : 1 ≤ args.maxConcurrentBatches) (t₀ t : ℚ)
    (pre post : List (ℚ × Action ρ)) (text : String) (probe : Bool) (f : ℕ)
    (m m₁ m₂ : MeteredBatcher args ρ)
    (hpunctual : Machine.StepsSatisfy step (Punctual D) (new args ρ t₀)
      (pre ++ (t, .predict text) :: post))
    (hpre : Machine.exec step (new args ρ t₀) pre = some m)
    (hstart : m.batcher.worker ≠ .notStarted) (hcall : step m (t, .predict text) = some m₁)
    (hcalls : m₁.batcher.calls = m.batcher.calls ++ [.admitted text probe f])
    (hpost : Machine.exec step m₁ post = some m₂)
    (hpending : m₂.batcher.futures[f]? = some .pending) :
    (∀ e m₃, Punctual D m₂ e → step m₂ e = some m₃ →
      e.1 ≤ t + args.timeoutS +
        (((m.batcher.worker.held ++ m.batcher.queue).length / args.width : ℕ) + 3) * D) ∧
    ∃ fs m₃ v, Machine.StepsSatisfy step (Punctual D) m₂ fs ∧ Machine.exec step m₂ fs = some m₃ ∧
      m₃.batcher.futures[f]? = some v ∧ v.done = true := by
  have hτ' : 0 < args.timeoutS := div_pos hτ (by norm_num)
  -- on time when the request is admitted, and along the run from there
  have hpre' := hpunctual.of_prefix (List.prefix_append pre _)
  obtain ⟨hcall', hpost'⟩ := Machine.stepsSatisfy_cons.mp (hpunctual.rest hpre)
  have hontime : OnTime D m :=
    Machine.exec_invariant_of_steps (fun _ _ _ h hp hs => h.keep hD hp hs) (onTime_new t₀) hpre'
      hpre
  have hontime₁ : OnTime D m₁ := hontime.keep hD hcall' hcall
  have hstart₁ : m₁.batcher.worker ≠ .notStarted := by
    obtain ⟨b, hb, rfl⟩ := step_eq_some.mp hcall
    exact (step_effect hb).2.started hstart
  have hitem : ⟨text, f⟩ ∈ items m₁.batcher.calls := by
    rw [hcalls, items_append]
    exact List.mem_append_right _ (by simp [items])
  have hdue := hontime₁.due_new hmax hτ' hD hstart₁ hcall hcalls
  obtain ⟨hadmitted, hdue₂⟩ := Machine.exec_invariant_of_steps
    (I := fun m => Admitted D ⟨text, f⟩ m ∧ DueBy D m.tStart m.batcher f _)
    (fun _ _ _ h hp hs => ⟨h.1.keep hD hp hs, h.1.onTime.due_step h.2 hmax hτ' hD hp hs⟩)
    ⟨⟨hontime₁, hstart₁, hitem⟩, hdue⟩ (hpost' m₁ hcall) hpost
  refine ⟨?_, ?_⟩
  · intro e m₃ hp hstep
    obtain ⟨b, hb, rfl⟩ := step_eq_some.mp hstep
    have hle := (step_effect hb).1
    obtain ⟨t₀', es, hrun⟩ := hadmitted.onTime.run
    have hbooks := accounted_exec hrun
    have hdeadline := (hadmitted.onTime.due_tick hdue₂ hp hle).le
      ⟨hbooks.inflight, hbooks.settled, hbooks.source⟩
      (hadmitted.onTime.timely.tick hle hp.calls) hτ'.le hD hpending
    refine hdeadline.trans (le_of_eq ?_)
    unfold BatcherArgs.queueTime
    ring
  · obtain ⟨fs, m₃, hfs, hexec, hidle⟩ := (exhausting hmax hD).exists_run hadmitted
    have hadmitted₃ := (exhausting hmax hD).invariant hadmitted hfs hexec
    obtain ⟨t₀', es, hrun⟩ := hadmitted₃.onTime.run
    obtain ⟨v, hv, hdone⟩ := hidle.done (flowInv_exec hrun) (accounted_exec hrun)
      (permits_exec hrun) hadmitted₃.item
    exact ⟨fs, m₃, v, fun es e t hes ht => (hfs es e t hes ht).1, hexec, hv, hdone⟩

/-- A batch is with `predict_fn` when a second request comes, and has the only permit. -/
def busyRun : List (ℚ × Action ℕ) :=
  [(0, .start), (0, .predict "a"), (0, .collectFirst), (0, .loopTest), (0, .acquire),
    (0, .dispatch), (0, .callPredictFn 0)]

/-- The second request waits for the permit. -/
def waitingRun : List (ℚ × Action ℕ) :=
  [(0, .collectFirst), (0, .loopTest), (1, .finish 0 (.returned [7])), (1, .batchDone 0)]

/-- It has its answer three seconds and a window after it came. -/
theorem answered_by_busy :
    ∃ m₂, Machine.exec step (new ⟨1, 20, 1, ⟨5, 30⟩⟩ ℕ 0)
        (busyRun ++ (0, .predict "b") :: waitingRun) = some m₂ ∧
      m₂.batcher.futures[1]? = some .pending ∧
      (∀ e m₃, Punctual 1 m₂ e → step m₂ e = some m₃ → e.1 ≤ 20 / 1000 + 3) ∧
      ∃ fs m₃ v, Machine.exec step m₂ fs = some m₃ ∧ m₃.batcher.futures[1]? = some v ∧
        v.done = true := by
  obtain ⟨m, hpre, m₁, hcall, m₂, hpost, hstart, hplace, hcalls, hpending⟩ :
      ∃ m ∈ Machine.exec step (new ⟨1, 20, 1, ⟨5, 30⟩⟩ ℕ 0) busyRun,
        ∃ m₁ ∈ step m (0, .predict "b"), ∃ m₂ ∈ Machine.exec step m₁ waitingRun,
          m.batcher.worker ≠ .notStarted ∧ m.batcher.worker.held ++ m.batcher.queue = [] ∧
          m₁.batcher.calls = m.batcher.calls ++ [.admitted "b" false 1] ∧
          m₂.batcher.futures[1]? = some .pending := by
    decide +kernel
  have hpunctual : Machine.StepsSatisfy step (Punctual 1) (new ⟨1, 20, 1, ⟨5, 30⟩⟩ ℕ 0)
      (busyRun ++ (0, .predict "b") :: waitingRun) := by
    decide +kernel
  obtain ⟨hby, fs, m₃, v, -, hfs, hv, hdone⟩ := answered_by _ ℕ 1 (by norm_num) (by norm_num)
    (by decide) 0 0 busyRun waitingRun "b" false 1 m m₁ m₂ hpunctual hpre hstart hcall hcalls hpost
    hpending
  refine ⟨m₂, Machine.exec_through hpre hcall hpost, hpending, ?_, fs, m₃, v, hfs, hv, hdone⟩
  intro e m₄ hp hstep
  have hle := hby e m₄ hp hstep
  rw [hplace] at hle
  norm_num [BatcherArgs.timeoutS] at hle
  linarith

end MeteredBatcher

end InferenceServer
