import InferenceServer.Batcher.Metrics

set_option relaxedAutoImplicit false
set_option autoImplicit false

/-!
# What a load of requests costs

Batching saves calls of `predict_fn`. A batch that is not full has waited for its whole window, and
no two windows overlap; so there are no more calls than full batches and windows. And however many
requests come, only a bounded number of them is past the queue.

## Main definitions

* `InferenceBatcher.isPartial` — a batch that is not full.
* `InferenceBatcher.Paced` — each batch that is not full has had its window.
* `InferenceBatcher.unended` — the batches that have been dispatched and have not ended.
* `InferenceBatcher.pendingPastQueue` — the requests that wait for an answer past the queue.

## Main results

* `InferenceBatcher.Paced.effect` — the windows do not overlap.
* `InferenceBatcher.batches_le` — the bound on the number of batches.
* `InferenceBatcher.pending_le` — the bound on the requests past the queue.
-/

namespace InferenceServer

/-- The number of requests in a full batch. -/
def BatcherArgs.width (args : BatcherArgs) : ℕ := max 1 args.batchSize.toNat

/-- A full batch is not empty. -/
lemma BatcherArgs.width_pos (args : BatcherArgs) : 0 < args.width :=
  Nat.lt_of_lt_of_le one_pos (le_max_left _ _)

namespace InferenceBatcher

variable {args : BatcherArgs} {ρ : Type} {s s' : InferenceBatcher args ρ} {a : Action ρ}
  {t₀ u : ℚ}

/-! ## Windows -/

/-- The batch is not full. -/
def isPartial (args : BatcherArgs) (batch : List Item) : Bool :=
  decide ((batch.length : ℤ) < args.batchSize)

/-- The number of dispatched batches that are not full. -/
def partialBatches (s : InferenceBatcher args ρ) : ℕ := s.batches.countP (isPartial args)

/-- The time at which the last window that is over was over, at the latest. -/
def windowStart (s : InferenceBatcher args ρ) : ℚ :=
  match s.worker with
  | .loopHead _ deadline => deadline - args.timeoutS
  | .waitFor _ deadline => deadline - args.timeoutS
  | _ => s.now

/-- The batch that the collector will dispatch next, if it has been completed. -/
def completed (s : InferenceBatcher args ρ) : ℕ :=
  match s.worker with
  | .acquire batch => [batch].countP (isPartial args)
  | .dispatch batch => [batch].countP (isPartial args)
  | _ => 0

/-- Each batch that is not full has had its window since `t₀`, one after the other. -/
structure Paced (t₀ : ℚ) (s : InferenceBatcher args ρ) : Prop where
  past : s.windowStart ≤ s.now
  windows : (s.partialBatches + s.completed : ℕ) * args.timeoutS ≤ s.windowStart - t₀

/-- Nothing has been dispatched by a new batcher. -/
lemma paced_new : Paced t₀ (new args ρ t₀) where
  past := le_rfl
  windows := by simp [partialBatches, completed, windowStart, batches, new]

/-- Time that passes is not the collector's. -/
lemma Paced.tick (h : Paced t₀ s) (hle : s.now ≤ u) : Paced t₀ { s with now := u } := by
  obtain ⟨hpast, hwindows⟩ := h
  unfold windowStart at hpast hwindows
  constructor <;> unfold windowStart <;> cases hw : s.worker <;>
    simp only [hw, completed, partialBatches, batches] at hpast hwindows ⊢ <;> linarith

/-- No window more is needed later on. -/
lemma Paced.of_le (h : Paced t₀ s) (hτ : 0 ≤ args.timeoutS)
    (hcount : s'.partialBatches + s'.completed ≤ s.partialBatches + s.completed)
    (hstart : s.windowStart ≤ s'.windowStart) (hpast : s'.windowStart ≤ s'.now) :
    Paced t₀ s' := by
  refine ⟨hpast, ?_⟩
  have hmul := mul_le_mul_of_nonneg_right
    (Nat.cast_le.mpr hcount : ((_ : ℕ) : ℚ) ≤ (_ : ℕ)) hτ
  exact hmul.trans (h.windows.trans (sub_le_sub_right hstart t₀))

/-- A batch that is not full is completed at the end of its window. -/
lemma Paced.close {batch : List Item} {deadline : ℚ} (h : Paced t₀ s)
    (hw : s.worker = .loopHead batch deadline ∨ s.worker = .waitFor batch deadline)
    (hd : args.batchSize ≤ batch.length ∨ deadline ≤ s.now) :
    Paced t₀ { s with worker := .acquire batch } := by
  have hstart : s.windowStart = deadline - args.timeoutS ∧ s.completed = 0 := by
    unfold windowStart completed
    rcases hw with hw | hw <;> rw [hw] <;> exact ⟨rfl, rfl⟩
  obtain ⟨hpast, hwindows⟩ := h
  rw [hstart.1] at hpast hwindows
  rw [hstart.2, add_zero] at hwindows
  refine ⟨le_rfl, ?_⟩
  show ((s.partialBatches + [batch].countP (isPartial args) : ℕ) : ℚ) * args.timeoutS ≤ s.now - t₀
  by_cases hfull : isPartial args batch = true
  · have hdeadline : deadline ≤ s.now := by
      rcases hd with hd | hd
      · simp only [isPartial, decide_eq_true_eq] at hfull
        omega
      · exact hd
    rw [List.countP_singleton, if_pos hfull, Nat.cast_add, Nat.cast_one, add_mul, one_mul]
    linarith
  · rw [List.countP_singleton, if_neg hfull, add_zero]
    linarith

/-- **The windows do not overlap.**

**Proof sketch.** A window begins when the collector takes a first item, and it does so after the
last one. A batch counts when it has been completed (`Paced.close`), and once. -/
lemma Paced.effect (h : Paced t₀ s) (heff : Effect s a s') (hτ : 0 ≤ args.timeoutS) :
    Paced t₀ s' := by
  cases heff with
  | full batch deadline hw hd => exact h.close (.inl hw) hd
  | collectTimeout batch deadline hw hd => exact h.close (.inr hw) (.inr hd)
  | start hw hs =>
    refine h.of_le hτ ?_ ?_ le_rfl
    · simp [partialBatches, completed, batches]
    · simp [windowStart, hw]
  | collectFirst item queue hw hq =>
    refine h.of_le hτ ?_ ?_ ?_ <;> simp [partialBatches, completed, batches, windowStart, hw]
  | wait batch deadline hw hlen hd =>
    have hpast : deadline - args.timeoutS ≤ s.now := by simpa [windowStart, hw] using h.past
    refine h.of_le hτ ?_ ?_ hpast <;> simp [partialBatches, completed, batches, windowStart, hw]
  | collectNext batch deadline item queue hw hq =>
    have hpast : deadline - args.timeoutS ≤ s.now := by simpa [windowStart, hw] using h.past
    refine h.of_le hτ ?_ ?_ hpast <;> simp [partialBatches, completed, batches, windowStart, hw]
  | acquire batch hw hp =>
    refine h.of_le hτ ?_ ?_ ?_ <;> simp [partialBatches, completed, batches, windowStart, hw]
  | dispatch batch hw =>
    refine h.of_le hτ ?_ ?_ ?_ <;> simp [partialBatches, completed, batches, windowStart, hw]
  | stop permits hs hp =>
    have hcancel : windowStart { s with worker := s.worker.cancel } = s.now := by
      cases hw : s.worker <;> simp [windowStart, Worker.cancel]
    have hnone : completed { s with worker := s.worker.cancel } = 0 := by
      cases hw : s.worker <;> simp [completed, Worker.cancel]
    refine h.of_le hτ ?_ (h.past.trans_eq hcancel.symm) hcancel.le
    exact add_le_add le_rfl (hnone.le.trans (Nat.zero_le _))
  | callPredictFn k batch hk =>
    refine h.of_le hτ (add_le_add (le_of_eq ?_) le_rfl) le_rfl h.past
    exact congrArg (List.countP (isPartial args)) (map_batch_set hk)
  | finish k r batch hk hb =>
    refine h.of_le hτ (add_le_add (le_of_eq ?_) le_rfl) le_rfl h.past
    exact congrArg (List.countP (isPartial args)) (map_batch_set hk)
  | batchDone k batch r hk =>
    refine h.of_le hτ (add_le_add (le_of_eq ?_) le_rfl) le_rfl h.past
    exact congrArg (List.countP (isPartial args)) (map_batch_set hk)
  | _ => exact ⟨h.past, h.windows⟩

/-- The windows have followed each other in every run. -/
lemma paced_exec {es : List (ℚ × Action ρ)} (hτ : 0 ≤ args.timeoutS)
    (hrun : Machine.exec step (new args ρ t₀) es = some s) : Paced t₀ s := by
  refine Machine.exec_invariant ?_ paced_new hrun
  intro s e s' h hstep
  obtain ⟨hle, heff⟩ := step_effect hstep
  exact (h.tick hle).effect heff hτ

/-- A legal batch is no larger than a full one. -/
lemma length_le_width {batch : List Item}
    (hlen : (batch.length : ℤ) ≤ max 1 args.batchSize) : batch.length ≤ args.width := by
  unfold BatcherArgs.width
  omega

/-- A batch that is not partial is full. -/
lemma le_length_of_not_partial {batch : List Item} (h : isPartial args batch = false)
    (hlen : 1 ≤ batch.length) : args.width ≤ batch.length := by
  simp only [isPartial, decide_eq_false_iff_not] at h
  unfold BatcherArgs.width
  omega

/-- Full batches hold their share of the requests. -/
lemma countP_full_mul_le {batches : List (List Item)} (h : ∀ batch ∈ batches, 1 ≤ batch.length) :
    (batches.countP fun batch => ¬isPartial args batch = true) * args.width ≤
      batches.flatten.length := by
  induction batches with
  | nil => simp
  | cons batch batches ih =>
    have hrest := ih fun b hb => h b (List.mem_cons_of_mem _ hb)
    rw [List.countP_cons, List.flatten_cons, List.length_append, add_mul]
    cases hpartial : isPartial args batch with
    | true =>
      simp only [not_true_eq_false, decide_false, Bool.false_eq_true, if_false, zero_mul, add_zero]
      omega
    | false =>
      have hfull := le_length_of_not_partial hpartial (h batch List.mem_cons_self)
      simp only [Bool.false_eq_true, not_false_eq_true, decide_true, if_true, one_mul]
      omega

/-- **How many batches there are.** After every run the batches that have been dispatched are no
more than the admitted requests make full ones, and the time since `t₀` has room for windows.

**Proof sketch.** A batch that is not full has had a window of its own (`paced_exec`), and one that
is full holds `width` of the requests. -/
theorem batches_le (args : BatcherArgs) (ρ : Type) (hτ : 0 < args.timeoutMs) (t₀ : ℚ)
    (es : List (ℚ × Action ρ)) (s : InferenceBatcher args ρ)
    (hrun : Machine.exec step (new args ρ t₀) es = some s) :
    (s.batches.length : ℚ) ≤
      (items s.calls).length / args.width +
        (s.now - t₀) / args.timeoutS := by
  have hτ' : 0 < args.timeoutS := div_pos hτ (by norm_num)
  have hwidth : (0 : ℚ) < args.width := Nat.cast_pos.mpr args.width_pos
  have hi := flowInv_exec hrun
  have hpaced := paced_exec hτ'.le hrun
  have hsplit := List.length_eq_countP_add_countP (l := s.batches) (isPartial args)
  have hpartial : (s.partialBatches : ℚ) ≤ (s.now - t₀) / args.timeoutS := by
    rw [le_div_iff₀ hτ']
    have hle : (s.partialBatches : ℚ) ≤ (s.partialBatches + s.completed : ℕ) :=
      Nat.cast_le.mpr (Nat.le_add_right _ _)
    have hmul := mul_le_mul_of_nonneg_right hle hτ'.le
    linarith [hpaced.windows, hpaced.past]
  have hfull : ((s.batches.countP fun batch => ¬isPartial args batch = true : ℕ) : ℚ) ≤
      (items s.calls).length / args.width := by
    rw [le_div_iff₀ hwidth, ← Nat.cast_mul, Nat.cast_le]
    refine (countP_full_mul_le fun batch hb => (hi.sizes batch hb).1).trans ?_
    rw [← hi.flow_eq, flow, List.append_assoc, List.length_append]
    exact Nat.le_add_right _ _
  rw [hsplit, Nat.cast_add, add_comm]
  exact add_le_add hfull hpartial

/-- A request that waits for its whole window alone, and two that make a full batch. -/
def windowsRun : List (ℚ × Action ℕ) :=
  [(0, .start), (0, .predict "a"), (0, .collectFirst), (0, .loopTest), (1 / 50, .collectTimeout),
    (1 / 50, .acquire), (1 / 50, .dispatch), (1 / 50, .predict "b"), (1 / 50, .predict "c"),
    (1 / 50, .collectFirst), (1 / 50, .loopTest), (1 / 50, .collectNext), (1 / 50, .loopTest),
    (1 / 50, .acquire), (1 / 50, .dispatch)]

/-- They make two batches. -/
theorem batches_le_two :
    ∃ s ∈ Machine.exec step (new ⟨2, 20, 2, ⟨5, 30⟩⟩ ℕ 0) windowsRun,
      s.batches.map List.length = [1, 2] ∧ (s.batches.length : ℚ) ≤ 3 / 2 + 1 := by
  obtain ⟨s, hs, hsizes, hitems, hnow⟩ :
      ∃ s ∈ Machine.exec step (new ⟨2, 20, 2, ⟨5, 30⟩⟩ ℕ 0) windowsRun,
        s.batches.map List.length = [1, 2] ∧ (items s.calls).length = 3 ∧ s.now = 1 / 50 := by
    decide +kernel
  have hle := batches_le ⟨2, 20, 2, ⟨5, 30⟩⟩ ℕ (by norm_num) 0 windowsRun s hs
  rw [hitems, hnow] at hle
  have hwidth : (BatcherArgs.width ⟨2, 20, 2, ⟨5, 30⟩⟩ : ℚ) = 2 := by
    simp [BatcherArgs.width]
  rw [hwidth] at hle
  refine ⟨s, hs, hsizes, hle.trans_eq ?_⟩
  norm_num [BatcherArgs.timeoutS]

/-! ## Backpressure -/

/-- The batches that have been dispatched and whose done-callback has not run. -/
def unended (s : InferenceBatcher args ρ) : List (List Item) :=
  (s.tasks.filter fun t => t.phase.holdsPermit).map BatchTask.batch

/-- They hold no more requests than the permits let through. -/
lemma length_unended_le (hi : FlowInv s) (hp : PermitInv s) :
    s.unended.flatten.length ≤ args.maxConcurrentBatches * args.width := by
  have hlen : s.unended.length = s.heldPermits := by
    rw [unended, List.length_map, ← List.countP_eq_length_filter, heldPermits]
  have hsizes : ∀ n ∈ s.unended.map List.length, n ≤ args.width := by
    intro n hn
    obtain ⟨batch, hbatch, rfl⟩ := List.mem_map.mp hn
    obtain ⟨t, ht, rfl⟩ := List.mem_map.mp hbatch
    exact length_le_width (hi.sizes t.batch (List.mem_map_of_mem (List.mem_filter.mp ht).1)).2
  have hsum := List.sum_le_card_nsmul _ _ hsizes
  have hheld : s.heldPermits ≤ args.maxConcurrentBatches := by
    unfold PermitInv at hp
    omega
  rw [List.length_map, hlen, nsmul_eq_mul, Nat.cast_id, ← List.length_flatten] at hsum
  exact hsum.trans (Nat.mul_le_mul_right _ hheld)

/-- The collector has at most one batch in its hands. -/
lemma length_held_le (hi : FlowInv s) (halive : ∀ batch, s.worker ≠ .cancelled batch) :
    s.worker.held.length ≤ args.width := by
  have hlegal := hi.worker
  cases hw : s.worker with
  | cancelled batch => exact absurd hw (halive batch)
  | notStarted | awaitFirst => exact Nat.zero_le _
  | waitFor batch deadline =>
    rw [hw] at hlegal
    exact length_le_width (hlegal.2.le.trans (le_max_right _ _))
  | _ =>
    rw [hw] at hlegal
    exact length_le_width hlegal.2

/-- A request without an answer is in the queue, with the collector, or in a batch that has not
ended. -/
lemma exists_holder_of_pending (hi : FlowInv s) (hb : Accounted s) {f : ℕ} {v : Future ρ}
    (hf : s.futures[f]? = some v) (hv : v.done = false) :
    ∃ it ∈ s.unended.flatten ++ s.worker.held ++ s.queue, it.future = f := by
  have hmem : f ∈ (items s.calls).map Item.future := by
    rw [hi.fresh, List.mem_range]
    exact (List.getElem?_eq_some_iff.mp hf).1
  obtain ⟨it, hit, rfl⟩ := List.mem_map.mp hmem
  refine ⟨it, ?_, rfl⟩
  rw [← hi.flow_eq, flow, List.append_assoc, List.mem_append] at hit
  rw [List.append_assoc, List.mem_append]
  rcases hit with hit | hit
  · obtain ⟨batch, hbatch, hit⟩ := List.mem_flatten.mp hit
    obtain ⟨t, ht, rfl⟩ := List.mem_map.mp hbatch
    have hopen : t.phase.ended ≠ true := by
      intro hend
      obtain ⟨v', hv', hdone⟩ := hb.settled t ht hend it hit
      obtain rfl : v' = v := Option.some.inj (hv'.symm.trans hf)
      rw [hv] at hdone
      cases hdone
    have hpermit : t.phase.holdsPermit = true := by
      cases hphase : t.phase <;> simp_all [TaskPhase.ended, TaskPhase.holdsPermit]
    refine .inl (List.mem_flatten.mpr ⟨t.batch, ?_, hit⟩)
    exact List.mem_map_of_mem (List.mem_filter.mpr ⟨ht, hpermit⟩)
  · exact .inr hit

/-- The futures without an answer whose requests are not in the queue. -/
def pendingPastQueue (s : InferenceBatcher args ρ) : Finset ℕ :=
  (Finset.range s.futures.length).filter fun f =>
    ((s.futures[f]?).any fun v => !v.done) = true ∧ ∀ it ∈ s.queue, it.future ≠ f

/-- **Backpressure.** After every run without `stop()` the requests that have no answer are in the
queue, but for `max_concurrent_batches + 1` full batches at most.

**Proof sketch.** Whoever is not in the queue is in a batch that holds a permit
(`length_unended_le`), or with the collector (`length_held_le`). -/
theorem pending_le (args : BatcherArgs) (ρ : Type) (t₀ : ℚ) (es : List (ℚ × Action ρ))
    (s : InferenceBatcher args ρ) (hrun : Machine.exec step (new args ρ t₀) es = some s)
    (hstop : s.stopping = .notCalled) :
    s.pendingPastQueue.card ≤ (args.maxConcurrentBatches + 1) * args.width := by
  have hi := flowInv_exec hrun
  have hb := accounted_exec hrun
  have hunended := length_unended_le hi (permits_exec hrun)
  have hheld := length_held_le hi (workerAlive_exec hrun hstop)
  have hsubset : s.pendingPastQueue ⊆
      ((s.unended.flatten ++ s.worker.held).map Item.future).toFinset := by
    intro f hf
    obtain ⟨hlt, hany, hqueue⟩ := Finset.mem_filter.mp hf
    rw [List.getElem?_eq_getElem (Finset.mem_range.mp hlt), Option.any_some,
      Bool.not_eq_true'] at hany
    obtain ⟨it, hit, he⟩ := exists_holder_of_pending hi hb
      (List.getElem?_eq_getElem (Finset.mem_range.mp hlt)) hany
    rcases List.mem_append.mp hit with hit | hit
    · exact List.mem_toFinset.mpr (List.mem_map.mpr ⟨it, hit, he⟩)
    · exact absurd he (hqueue it hit)
  calc s.pendingPastQueue.card
      ≤ ((s.unended.flatten ++ s.worker.held).map Item.future).toFinset.card :=
        Finset.card_le_card hsubset
    _ ≤ ((s.unended.flatten ++ s.worker.held).map Item.future).length :=
        List.toFinset_card_le _
    _ = s.unended.flatten.length + s.worker.held.length := by
        rw [List.length_map, List.length_append]
    _ ≤ (args.maxConcurrentBatches + 1) * args.width := by
        rw [add_mul, one_mul]
        exact add_le_add hunended hheld

/-- One request is with `predict_fn`, the collector has another one and no permit, and two more
are in the queue, the first of them without its caller. -/
def pressureRun : List (ℚ × Action ℕ) :=
  [(0, .start), (0, .predict "a"), (0, .predict "b"), (0, .predict "c"), (0, .predict "d"),
    (0, .collectFirst), (0, .loopTest), (0, .acquire), (0, .dispatch), (0, .callPredictFn 0),
    (0, .collectFirst), (0, .loopTest), (0, .cancel 2)]

/-- No more requests can be past the queue. -/
theorem pending_le_full :
    ∃ s ∈ Machine.exec step (new ⟨1, 20, 1, ⟨5, 30⟩⟩ ℕ 0) pressureRun,
      s.queue = [⟨"c", 2⟩, ⟨"d", 3⟩] ∧ s.pendingPastQueue = {0, 1} ∧
        s.pendingPastQueue.card ≤ 2 := by
  obtain ⟨s, hs, hstop, hqueue, hpending⟩ :
      ∃ s ∈ Machine.exec step (new ⟨1, 20, 1, ⟨5, 30⟩⟩ ℕ 0) pressureRun,
        s.stopping = .notCalled ∧ s.queue = [⟨"c", 2⟩, ⟨"d", 3⟩] ∧
          s.pendingPastQueue = {0, 1} := by
    decide +kernel
  exact ⟨s, hs, hqueue, hpending, pending_le _ ℕ 0 pressureRun s hs hstop⟩

end InferenceBatcher

end InferenceServer
