import InferenceServer.Batcher.Steps

set_option relaxedAutoImplicit false
set_option autoImplicit false

/-!
# The way of the requests through the batcher

An admitted request is in the queue, in the batch that the collector fills, or in a dispatched
batch, and it moves only forward. Read from the far end, these three holders are the list of
admitted requests in the order of admission.

## Main definitions

* `items` — the `(text, future)` pairs of the admitted calls, in the order of admission.
* `InferenceBatcher.batches`, `InferenceBatcher.flow` — the dispatched batches in dispatch order,
  and the three holders one after the other.
* `InferenceBatcher.FlowInv` — the invariant.

## Main results

* `InferenceBatcher.Effect.flow_eq` — a step adds to the far end what it admits, and moves
  nothing past anything else.
* `InferenceBatcher.flowInv_exec` — the invariant holds after every run.
* `InferenceBatcher.fifo_batches` — no loss, no duplication, batches in order and of legal size.
-/

namespace InferenceServer

/-- The `(text, future)` pairs of the admitted calls, in the order of admission. -/
def items (calls : List PredictCall) : List Item :=
  calls.filterMap fun c =>
    match c with
    | .rejected _ _ => none
    | .admitted text _ f => some ⟨text, f⟩

/-- The pairs of a longer log. -/
@[simp] lemma items_append (cs ds : List PredictCall) : items (cs ++ ds) = items cs ++ items ds :=
  List.filterMap_append

/-- A pair comes from an admitted call. -/
lemma mem_items {calls : List PredictCall} {it : Item} :
    it ∈ items calls ↔ ∃ probe, .admitted it.text probe it.future ∈ calls := by
  unfold items
  rw [List.mem_filterMap]
  constructor
  · rintro ⟨c, hc, he⟩
    cases c with
    | rejected text e => cases he
    | admitted text probe f =>
      obtain rfl := Option.some.inj he
      exact ⟨probe, hc⟩
  · rintro ⟨probe, hc⟩
    exact ⟨_, hc, rfl⟩

namespace InferenceBatcher

variable {args : BatcherArgs} {ρ : Type} {s s' : InferenceBatcher args ρ} {a : Action ρ}

/-- The dispatched batches, in dispatch order. -/
def batches (s : InferenceBatcher args ρ) : List (List Item) := s.tasks.map BatchTask.batch

/-- The dispatched batches, then the collector's batch, then the queue. -/
def flow (s : InferenceBatcher args ρ) : List Item :=
  s.batches.flatten ++ s.worker.held ++ s.queue

/-- A task that moves keeps its batch. -/
lemma map_batch_set {tasks : List (BatchTask ρ)} {k : ℕ} {batch : List Item}
    {p q : TaskPhase ρ} (hk : tasks[k]? = some ⟨batch, p⟩) :
    (tasks.set k ⟨batch, q⟩).map BatchTask.batch = tasks.map BatchTask.batch := by
  rw [List.map_set]
  refine List.ext_getElem? fun i => ?_
  by_cases hi : k = i
  · subst hi
    have hlt := (List.getElem?_eq_some_iff.mp hk).1
    rw [List.getElem?_set_self (by simpa using hlt), List.getElem?_map, hk]
    rfl
  · rw [List.getElem?_set_ne hi]

/-- The batch that a cancelled collector drops is the one that it held. -/
@[simp] lemma held_cancel (w : Worker) : w.cancel.held = w.held := by
  cases w <;> rfl

/-- **A step moves nothing past anything else**: the three holders, one after the other, grow at
the far end by the request that the step admits, if it admits one. -/
theorem Effect.flow_eq (h : Effect s a s') : s'.flow = s.flow ++ items (newCalls s a) := by
  cases h with
  | reject text cb e hc => simp [flow, batches, newCalls, hc, items]
  | accept text cb hc => simp [flow, batches, newCalls, hc, items]
  | start hw hs => simp [flow, batches, newCalls, items, Worker.held, hw]
  | collectFirst item queue hw hq => simp [flow, batches, newCalls, items, Worker.held, hw, hq]
  | wait batch deadline hw hlen hd => simp [flow, batches, newCalls, items, Worker.held, hw]
  | full batch deadline hw hd => simp [flow, batches, newCalls, items, Worker.held, hw]
  | collectNext batch deadline item queue hw hq =>
    simp [flow, batches, newCalls, items, Worker.held, hw, hq]
  | collectTimeout batch deadline hw hd =>
    simp [flow, batches, newCalls, items, Worker.held, hw]
  | acquire batch hw hp => simp [flow, batches, newCalls, items, Worker.held, hw]
  | dispatch batch hw => simp [flow, batches, newCalls, items, Worker.held, hw]
  | callPredictFn k batch hk => simp [flow, batches, newCalls, items, map_batch_set hk]
  | finish k b batch hk hb => simp [flow, batches, newCalls, items, map_batch_set hk]
  | batchDone k batch b hk => simp [flow, batches, newCalls, items, map_batch_set hk]
  | stop permits hs hp => simp [flow, batches, newCalls, items]
  | _ => exact (List.append_nil _).symm

/-- An admission takes the next future, and no other step creates one. -/
lemma Effect.futures_fresh (h : Effect s a s') :
    List.range s'.futures.length =
      List.range s.futures.length ++ (items (newCalls s a)).map Item.future := by
  cases h with
  | reject text cb e hc => simp [newCalls, hc, items]
  | accept text cb hc => simp [newCalls, hc, items, List.range_succ]
  | cancel f => simp [newCalls, items]
  | finish k b batch hk hb => simp [newCalls, items]
  | _ => exact (List.append_nil _).symm

end InferenceBatcher

/-- The batch that the collector holds has at least one item and, for the batch size `n`, at most
`max 1 n`; while it waits for another item it is not full. -/
def Worker.Legal (n : ℤ) : Worker → Prop
  | .loopHead batch _ => 1 ≤ batch.length ∧ (batch.length : ℤ) ≤ max 1 n
  | .waitFor batch _ => 1 ≤ batch.length ∧ (batch.length : ℤ) < n
  | .acquire batch => 1 ≤ batch.length ∧ (batch.length : ℤ) ≤ max 1 n
  | .dispatch batch => 1 ≤ batch.length ∧ (batch.length : ℤ) ≤ max 1 n
  | _ => True

namespace InferenceBatcher

variable {args : BatcherArgs} {ρ : Type} {s s' : InferenceBatcher args ρ} {a : Action ρ}

/-- The holders are the admitted requests in the order of admission, the `i`-th of which has the
future `i`, and the batches have legal sizes. -/
structure FlowInv (s : InferenceBatcher args ρ) : Prop where
  flow_eq : s.flow = items s.calls
  fresh : (items s.calls).map Item.future = List.range s.futures.length
  worker : s.worker.Legal args.batchSize
  sizes : ∀ batch ∈ s.batches, 1 ≤ batch.length ∧ (batch.length : ℤ) ≤ max 1 args.batchSize

/-- A new batcher has no requests. -/
lemma flowInv_new (t₀ : ℚ) : FlowInv (new args ρ t₀) where
  flow_eq := rfl
  fresh := rfl
  worker := trivial
  sizes := by simp [new, batches]

/-- The batch in the collector's hands stays legal, and only legal batches are dispatched. -/
lemma Effect.legal (h : Effect s a s') (hw : s.worker.Legal args.batchSize)
    (hs : ∀ batch ∈ s.batches, 1 ≤ batch.length ∧ (batch.length : ℤ) ≤ max 1 args.batchSize) :
    s'.worker.Legal args.batchSize ∧
      ∀ batch ∈ s'.batches, 1 ≤ batch.length ∧ (batch.length : ℤ) ≤ max 1 args.batchSize := by
  cases h with
  | start _ _ => exact ⟨trivial, hs⟩
  | collectFirst item queue _ _ => exact ⟨by simp [Worker.Legal], hs⟩
  | wait batch deadline he hlen hd =>
    rw [he] at hw
    exact ⟨⟨hw.1, hlen⟩, hs⟩
  | full batch deadline he hd =>
    rw [he] at hw
    exact ⟨hw, hs⟩
  | collectNext batch deadline item queue he _ =>
    rw [he] at hw
    simp only [Worker.Legal] at hw
    refine ⟨?_, hs⟩
    simp only [Worker.Legal, List.length_append, List.length_singleton, Nat.cast_add, Nat.cast_one]
    omega
  | collectTimeout batch deadline he hd =>
    rw [he] at hw
    exact ⟨⟨hw.1, hw.2.le.trans (le_max_right _ _)⟩, hs⟩
  | acquire batch he hp =>
    rw [he] at hw
    exact ⟨hw, hs⟩
  | dispatch batch he =>
    rw [he] at hw
    refine ⟨trivial, fun b hb => ?_⟩
    simp only [batches, List.map_append, List.mem_append, List.map_cons, List.map_nil,
      List.mem_singleton] at hb
    rcases hb with hb | rfl
    · exact hs b hb
    · exact hw
  | callPredictFn k batch hk => exact ⟨hw, by simpa only [batches, map_batch_set hk] using hs⟩
  | finish k b batch hk hb => exact ⟨hw, by simpa only [batches, map_batch_set hk] using hs⟩
  | batchDone k batch b hk => exact ⟨hw, by simpa only [batches, map_batch_set hk] using hs⟩
  | stop permits _ _ => exact ⟨by cases s.worker <;> trivial, hs⟩
  | _ => exact ⟨hw, hs⟩

/-- Every action keeps the invariant. -/
lemma Effect.flowInv (h : Effect s a s') (hi : FlowInv s) : FlowInv s' where
  flow_eq := by rw [h.flow_eq, h.calls_eq, items_append, hi.flow_eq]
  fresh := by rw [h.calls_eq, items_append, List.map_append, hi.fresh, h.futures_fresh]
  worker := (h.legal hi.worker hi.sizes).1
  sizes := (h.legal hi.worker hi.sizes).2

/-- The passing of time keeps the invariant. -/
lemma FlowInv.tick (hi : FlowInv s) (t : ℚ) : FlowInv { s with now := t } :=
  ⟨hi.flow_eq, hi.fresh, hi.worker, hi.sizes⟩

/-- Every step keeps the invariant. -/
lemma flowInv_step {e : ℚ × Action ρ} (hi : FlowInv s) (h : step s e = some s') :
    FlowInv s' := by
  obtain ⟨-, heff⟩ := step_effect h
  exact heff.flowInv (hi.tick e.1)

/-- **The invariant holds after every run.** -/
theorem flowInv_exec {t₀ : ℚ} {es : List (ℚ × Action ρ)}
    (hrun : Machine.exec step (new args ρ t₀) es = some s) : FlowInv s :=
  Machine.exec_invariant (fun _ _ _ => flowInv_step) (flowInv_new t₀) hrun

namespace FlowInv

/-- No two places hold the same request. -/
lemma nodup (hi : FlowInv s) : (s.flow.map Item.future).Nodup := by
  rw [hi.flow_eq, hi.fresh]
  exact List.nodup_range

/-- A dispatched batch is one of the holders. -/
lemma mem_flow {k : ℕ} {t : BatchTask ρ} (hk : s.tasks[k]? = some t) {it : Item}
    (hit : it ∈ t.batch) : it ∈ s.flow :=
  List.mem_append_left _ (List.mem_append_left _ (List.mem_flatten.mpr
    ⟨t.batch, List.mem_map_of_mem (List.mem_of_getElem? hk), hit⟩))

/-- What is in a dispatched batch has been admitted. -/
lemma task_mem (hi : FlowInv s) {k : ℕ} {t : BatchTask ρ} (hk : s.tasks[k]? = some t)
    {it : Item} (hit : it ∈ t.batch) : it ∈ items s.calls :=
  hi.flow_eq ▸ mem_flow hk hit

/-- A request in one of the holders has a future on the heap. -/
lemma future_lt (hi : FlowInv s) {it : Item} (h : it ∈ s.flow) :
    it.future < s.futures.length := by
  rw [← List.mem_range, ← hi.fresh, ← hi.flow_eq]
  exact List.mem_map_of_mem h

end FlowInv

/-- **No loss, no duplication, FIFO batching.** After every run the dispatched batches in
dispatch order, then the collector's batch, then the queue, are the `(text, future)` pairs of the
admitted requests in the order of admission; no future occurs twice; every dispatched batch has at
least one and at most `max 1 batchSize` items; and a request that `check` rejects leaves the
holders and the futures as they were.

**Proof sketch.** The invariant `FlowInv`: `Effect.flow_eq` for the order, `Effect.futures_fresh`
for the futures and `Effect.legal` for the sizes. -/
theorem fifo_batches (args : BatcherArgs) (ρ : Type) (t₀ : ℚ) (es : List (ℚ × Action ρ))
    (s : InferenceBatcher args ρ) (hrun : Machine.exec step (new args ρ t₀) es = some s) :
    s.batches.flatten ++ s.worker.held ++ s.queue = items s.calls ∧
    ((s.batches.flatten ++ s.worker.held ++ s.queue).map Item.future).Nodup ∧
    (∀ batch ∈ s.batches, 1 ≤ batch.length ∧ (batch.length : ℤ) ≤ max 1 args.batchSize) ∧
    (∀ text e, (s.predict text).2 = .error e →
      (s.predict text).1.batches = s.batches ∧ (s.predict text).1.worker = s.worker ∧
        (s.predict text).1.queue = s.queue ∧ (s.predict text).1.futures = s.futures) := by
  have hi := flowInv_exec hrun
  refine ⟨hi.flow_eq, hi.nodup, hi.sizes, fun text e he => ?_⟩
  unfold predict at he ⊢
  split at he
  · simp [batches]
  · cases he

/-- Three requests at a batch size of two, the first two dispatched together: their batch fails
and opens the breaker, and a fourth request is rejected. -/
def backlogRun : List (ℚ × Action ℕ) :=
  [(0, .start), (0, .predict "a"), (0, .collectFirst), (0, .loopTest), (0, .predict "b"),
    (0, .predict "c"), (0, .collectNext), (0, .loopTest), (0, .acquire), (0, .dispatch),
    (0, .callPredictFn 0), (1, .finish 0 (.raised ⟨.other, "boom"⟩)), (1, .predict "d")]

/-- The third request is the only one left behind the dispatched batch. -/
theorem fifo_batches_backlog :
    ∃ s, Machine.exec step (new ⟨2, 20, 1, ⟨1, 1⟩⟩ ℕ 0) backlogRun = some s ∧
      [⟨"a", 0⟩, ⟨"b", 1⟩] ++ [] ++ [⟨"c", 2⟩] = items s.calls := by
  obtain ⟨s, hs, hb, hw, hq⟩ : ∃ s ∈ Machine.exec step (new ⟨2, 20, 1, ⟨1, 1⟩⟩ ℕ 0) backlogRun,
      s.batches = [[⟨"a", 0⟩, ⟨"b", 1⟩]] ∧ s.worker.held = [] ∧ s.queue = [⟨"c", 2⟩] := by
    decide +kernel
  refine ⟨s, hs, ?_⟩
  have h := (fifo_batches _ ℕ 0 backlogRun s hs).1
  rw [hb, hw, hq] at h
  exact h

end InferenceBatcher

end InferenceServer
