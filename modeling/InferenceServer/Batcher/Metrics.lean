import Mathlib.Algebra.BigOperators.Group.Finset.Basic
import Mathlib.Algebra.Order.BigOperators.Group.Finset
import Mathlib.Tactic.Ring
import InferenceServer.Batcher.Permits

set_option relaxedAutoImplicit false
set_option autoImplicit false

/-!
# What the histograms of the batcher observe

`_run_batch` observes the size of each batch that it hands to `predict_fn`, and the seconds that a
call of it took. Here the batcher carries the two histograms along, as the lists of what they have
observed.

## Main definitions

* `MeteredBatcher` — the batcher, `batch_size_histogram`, `model_inference_seconds`, and the
  `t_start` of each task.
* `InferenceBatcher.handed` — the batches that have been handed to `predict_fn`.
* `InferenceBatcher.running` — the tasks that wait for `predict_fn`.
* `MeteredBatcher.Observes` — what a step may do to the histograms.

## Main results

* `MeteredBatcher.batcher_run` — the histograms do not disturb the batcher.
* `MeteredBatcher.Busy.tick`, `MeteredBatcher.Busy.observes` — the time that `predict_fn` has been
  busy, while time passes and while something happens.
* `MeteredBatcher.metrics_account` — the account of both histograms.
-/

namespace InferenceServer

/-- The batch has been handed to `predict_fn`. -/
def TaskPhase.isCalled {ρ : Type} : TaskPhase ρ → Bool
  | .created => false
  | _ => true

/-- `predict_fn` has returned something. -/
def TaskPhase.hasReturned {ρ : Type} : TaskPhase ρ → Bool
  | .finished (.returned _) => true
  | .reaped (.returned _) => true
  | _ => false

/-- A batcher, what `batch_size_histogram` and `model_inference_seconds` have observed, and the
local variable `t_start` of each task. -/
structure MeteredBatcher (args : BatcherArgs) (ρ : Type) where
  batcher : InferenceBatcher args ρ
  batchSizes : List ℕ
  inferenceSeconds : List ℚ
  tStart : ℕ → ℚ

/-! ## The tasks -/

section Tasks

variable {α β : Type} {l : List α} {k : ℕ} {x : α} {p : α → Bool}

/-- A list around its entry `k`. -/
lemma exists_around (hk : l[k]? = some x) :
    ∃ pre post, l = pre ++ x :: post ∧ ∀ y, l.set k y = pre ++ y :: post := by
  obtain ⟨hlt, he⟩ := List.getElem?_eq_some_iff.mp hk
  refine ⟨l.take k, l.drop (k + 1), ?_, fun y => ?_⟩
  · rw [← he, List.getElem_cons_drop, List.take_append_drop]
  · rw [List.set_eq_take_append_cons_drop, if_pos hlt]

/-- An entry that comes to satisfy `p` joins those that do. -/
lemma filter_map_set_perm (f : α → β) {y : α} (hk : l[k]? = some x) (hx : p x = false)
    (hy : p y = true) : (((l.set k y).filter p).map f).Perm ((l.filter p).map f ++ [f y]) := by
  obtain ⟨pre, post, rfl, hset⟩ := exists_around hk
  rw [hset]
  simp only [List.filter_append, List.filter_cons, hx, hy, if_true, Bool.false_eq_true, if_false,
    List.map_append, List.map_cons]
  exact List.perm_middle.trans (List.perm_append_singleton _ _).symm

/-- An entry that still satisfies `p`, and has the same image, changes nothing. -/
lemma filter_map_set_eq (f : α → β) {y : α} (hk : l[k]? = some x) (hx : p x = p y)
    (hf : f x = f y) : ((l.set k y).filter p).map f = (l.filter p).map f := by
  obtain ⟨pre, post, rfl, hset⟩ := exists_around hk
  rw [hset]
  cases hy : p y <;> simp [hx, hy, hf]

/-- One more entry satisfies `p`. -/
lemma countP_set_succ {y : α} (hk : l[k]? = some x) (hx : p x = false) (hy : p y = true) :
    (l.set k y).countP p = l.countP p + 1 := by
  obtain ⟨pre, post, rfl, hset⟩ := exists_around hk
  rw [hset]
  simp only [List.countP_append, List.countP_cons, hx, hy, if_true, Bool.false_eq_true, if_false]
  omega

/-- As many entries satisfy `p` as before. -/
lemma countP_set_eq {y : α} (hk : l[k]? = some x) (hx : p x = p y) :
    (l.set k y).countP p = l.countP p := by
  obtain ⟨pre, post, rfl, hset⟩ := exists_around hk
  rw [hset]
  simp only [List.countP_append, List.countP_cons, hx]

/-- The entries that satisfy `p` may be counted by their indices. -/
lemma card_filter_range (l : List α) (p : α → Bool) :
    ((Finset.range l.length).filter fun k => (l[k]?).any p).card = l.countP p := by
  induction l using List.reverseRecOn with
  | nil => rfl
  | append_singleton l x ih =>
    have hold : ((Finset.range l.length).filter fun k => ((l ++ [x])[k]?).any p) =
        (Finset.range l.length).filter fun k => (l[k]?).any p := by
      apply Finset.filter_congr
      intro k hk
      rw [List.getElem?_append_left (Finset.mem_range.mp hk)]
    rw [List.length_append, List.length_singleton, Finset.range_add_one, Finset.filter_insert, hold,
      List.countP_append, List.countP_singleton, ← ih]
    cases hx : p x <;> simp [hx]

end Tasks

namespace InferenceBatcher

variable {args : BatcherArgs} {ρ : Type} {s s' : InferenceBatcher args ρ} {a : Action ρ} {k : ℕ}

/-- The batches that have been handed to `predict_fn`, in dispatch order. -/
def handed (s : InferenceBatcher args ρ) : List (List Item) :=
  (s.tasks.filter fun t => t.phase.isCalled).map BatchTask.batch

/-- The tasks that wait for `predict_fn`. -/
def running (s : InferenceBatcher args ρ) : Finset ℕ :=
  (Finset.range s.tasks.length).filter fun k => (s.tasks[k]?).any fun t => t.phase.isRunning

/-- A task runs when it stands there. -/
lemma mem_running : k ∈ s.running ↔ ∃ batch, s.tasks[k]? = some ⟨batch, .running⟩ := by
  unfold running
  rw [Finset.mem_filter, Finset.mem_range]
  constructor
  · rintro ⟨hlt, hany⟩
    rw [List.getElem?_eq_getElem hlt, Option.any_some] at hany
    rw [List.getElem?_eq_getElem hlt]
    generalize s.tasks[k] = t at hany
    obtain ⟨batch, phase⟩ := t
    cases phase with
    | running => exact ⟨batch, rfl⟩
    | _ => cases hany
  · rintro ⟨batch, hk⟩
    exact ⟨(List.getElem?_eq_some_iff.mp hk).1, by rw [hk]; rfl⟩

/-- No more tasks run than there are permits. -/
lemma card_running_le (h : PermitInv s) : s.running.card ≤ args.maxConcurrentBatches := by
  have hcard : s.running.card = s.callsInFlight := card_filter_range _ _
  have hle : s.callsInFlight ≤ s.heldPermits := callsInFlight_le
  unfold PermitInv at h
  omega

/-- The calls of `predict_fn` that have returned. -/
def returnedCalls (s : InferenceBatcher args ρ) : ℕ := s.tasks.countP fun t => t.phase.hasReturned

/-- What a dispatch does to the tasks. -/
lemma Effect.tasks_dispatch (h : Effect s .dispatch s') :
    ∃ batch, s'.tasks = s.tasks ++ [⟨batch, .created⟩] := by
  cases h with
  | dispatch batch hw => exact ⟨batch, rfl⟩

/-- What a call of `predict_fn` does to the tasks. -/
lemma Effect.tasks_callPredictFn (h : Effect s (.callPredictFn k) s') :
    ∃ batch, s.tasks[k]? = some ⟨batch, .created⟩ ∧
      s'.tasks = s.tasks.set k ⟨batch, .running⟩ := by
  cases h with
  | callPredictFn k batch hk => exact ⟨batch, hk, rfl⟩

/-- What the end of such a call does to the tasks. -/
lemma Effect.tasks_finish {r : Behaviour ρ} (h : Effect s (.finish k r) s') :
    ∃ batch, s.tasks[k]? = some ⟨batch, .running⟩ ∧
      s'.tasks = s.tasks.set k ⟨batch, .finished r⟩ := by
  cases h with
  | finish k r batch hk hb => exact ⟨batch, hk, rfl⟩

/-- What a done-callback does to the tasks. -/
lemma Effect.tasks_batchDone (h : Effect s (.batchDone k) s') :
    ∃ batch r, s.tasks[k]? = some ⟨batch, .finished r⟩ ∧
      s'.tasks = s.tasks.set k ⟨batch, .reaped r⟩ := by
  cases h with
  | batchDone k batch r hk => exact ⟨batch, r, hk, rfl⟩

section Moves

variable {batch : List Item} {p q : TaskPhase ρ}

/-- Whether a task runs after it has moved to `q`. -/
lemma mem_running_set {j : ℕ} (hk : s.tasks[k]? = some ⟨batch, p⟩)
    (hs : s'.tasks = s.tasks.set k ⟨batch, q⟩) :
    j ∈ s'.running ↔ j = k ∧ q = .running ∨ j ≠ k ∧ j ∈ s.running := by
  rw [mem_running, mem_running, hs]
  by_cases hjk : j = k
  · subst hjk
    have hlt := (List.getElem?_eq_some_iff.mp hk).1
    simp [List.getElem?_set_self hlt]
  · simp [hjk, List.getElem?_set_ne (Ne.symm hjk)]

/-- A task that is called begins to run. -/
lemma running_call (hk : s.tasks[k]? = some ⟨batch, .created⟩)
    (hs : s'.tasks = s.tasks.set k ⟨batch, .running⟩) :
    k ∉ s.running ∧ s'.running = insert k s.running := by
  have hnot : k ∉ s.running := by
    rw [mem_running, hk]
    simp
  refine ⟨hnot, ?_⟩
  ext j
  rw [mem_running_set hk hs, Finset.mem_insert]
  by_cases hjk : j = k <;> simp [hjk]

/-- A task that has got an answer runs no longer. -/
lemma running_finish {r : Behaviour ρ} (hk : s.tasks[k]? = some ⟨batch, .running⟩)
    (hs : s'.tasks = s.tasks.set k ⟨batch, .finished r⟩) : s'.running = s.running.erase k := by
  ext j
  rw [mem_running_set hk hs, Finset.mem_erase]
  simp

/-- A done-callback stops nothing. -/
lemma running_reap {r : Behaviour ρ} (hk : s.tasks[k]? = some ⟨batch, .finished r⟩)
    (hs : s'.tasks = s.tasks.set k ⟨batch, .reaped r⟩) : s'.running = s.running := by
  ext j
  rw [mem_running_set hk hs]
  have hnot : k ∉ s.running := by
    rw [mem_running, hk]
    simp
  by_cases hjk : j = k <;> simp [hjk, hnot]

/-- A new task does not run yet. -/
lemma running_dispatch (hs : s'.tasks = s.tasks ++ [⟨batch, .created⟩]) :
    s'.running = s.running := by
  ext j
  rw [mem_running, mem_running, hs]
  constructor
  · rintro ⟨batch', hj⟩
    rcases task_append_cases hj with ⟨-, he⟩ | hj
    · cases he
    · exact ⟨batch', hj⟩
  · rintro ⟨batch', hj⟩
    have hlt := (List.getElem?_eq_some_iff.mp hj).1
    exact ⟨batch', by rw [List.getElem?_append_left hlt, hj]⟩

/-- A new task has handed over nothing. -/
lemma handed_dispatch (hs : s'.tasks = s.tasks ++ [⟨batch, .created⟩]) : s'.handed = s.handed := by
  simp [handed, hs, TaskPhase.isCalled]

/-- A new task has no result. -/
lemma returnedCalls_dispatch (hs : s'.tasks = s.tasks ++ [⟨batch, .created⟩]) :
    s'.returnedCalls = s.returnedCalls := by
  simp [returnedCalls, hs, TaskPhase.hasReturned]

/-- A task that is called hands over its batch. -/
lemma handed_call (hk : s.tasks[k]? = some ⟨batch, .created⟩)
    (hs : s'.tasks = s.tasks.set k ⟨batch, .running⟩) : s'.handed.Perm (s.handed ++ [batch]) := by
  unfold handed
  rw [hs]
  exact filter_map_set_perm BatchTask.batch hk rfl rfl

/-- A task that has been called hands over nothing more. -/
lemma handed_move (hk : s.tasks[k]? = some ⟨batch, p⟩) (hs : s'.tasks = s.tasks.set k ⟨batch, q⟩)
    (hpq : p.isCalled = q.isCalled) : s'.handed = s.handed := by
  unfold handed
  rw [hs]
  exact filter_map_set_eq BatchTask.batch hk hpq rfl

/-- A task that goes on without a result leaves the number of results alone. -/
lemma returnedCalls_move (hk : s.tasks[k]? = some ⟨batch, p⟩)
    (hs : s'.tasks = s.tasks.set k ⟨batch, q⟩) (hpq : p.hasReturned = q.hasReturned) :
    s'.returnedCalls = s.returnedCalls := by
  unfold returnedCalls
  rw [hs]
  exact countP_set_eq hk hpq

/-- A call that returns is one more. -/
lemma returnedCalls_finish {results : List ρ} (hk : s.tasks[k]? = some ⟨batch, .running⟩)
    (hs : s'.tasks = s.tasks.set k ⟨batch, .finished (.returned results)⟩) :
    s'.returnedCalls = s.returnedCalls + 1 := by
  unfold returnedCalls
  rw [hs]
  exact countP_set_succ hk rfl rfl

end Moves

end InferenceBatcher

/-! ## The metered batcher -/

namespace MeteredBatcher

open InferenceBatcher

variable {args : BatcherArgs} {ρ : Type} {m m' : MeteredBatcher args ρ}
  {b : InferenceBatcher args ρ} {a : Action ρ} {e : ℚ × Action ρ} {es : List (ℚ × Action ρ)}
  {t₀ now : ℚ}

/-- A new batcher, and nothing observed. -/
def new (args : BatcherArgs) (ρ : Type) (t₀ : ℚ) : MeteredBatcher args ρ where
  batcher := .new args ρ t₀
  batchSizes := []
  inferenceSeconds := []
  tStart := fun _ => 0

/-- What `_run_batch` does about the histograms in an action at time `now`:
`batch_size_histogram.observe(len(batch))` and `t_start = time.perf_counter()` before it calls
`predict_fn`, and `model_inference_seconds.observe(time.perf_counter() - t_start)` after it has
returned, whatever it has returned. -/
def observe (m : MeteredBatcher args ρ) (now : ℚ) : Action ρ → MeteredBatcher args ρ
  | .callPredictFn k =>
    { m with
      batchSizes := m.batchSizes ++ (m.batcher.tasks[k]?.map fun t => t.batch.length).toList
      tStart := Function.update m.tStart k now }
  | .finish k (.returned _) =>
    { m with inferenceSeconds := m.inferenceSeconds ++ [now - m.tStart k] }
  | _ => m

/-- The machine: a step of the batcher, observed. -/
def step (m : MeteredBatcher args ρ) (e : ℚ × Action ρ) : Option (MeteredBatcher args ρ) :=
  (m.batcher.step e).map fun b => { m.observe e.1 e.2 with batcher := b }

/-- A step is a step of the batcher, and what is observed in it. -/
lemma step_eq_some : step m e = some m' ↔
    ∃ b, m.batcher.step e = some b ∧ m' = { m.observe e.1 e.2 with batcher := b } := by
  unfold step
  rw [Option.map_eq_some_iff]
  simp only [eq_comm]

/-- **The histograms do not disturb the batcher.** -/
theorem batcher_run (hrun : Machine.exec step (new args ρ t₀) es = some m) :
    Machine.exec InferenceBatcher.step (.new args ρ t₀) es = some m.batcher := by
  have hstep : ∀ (m : MeteredBatcher args ρ) e m' b, m.batcher = b → step m e = some m' →
      ∃ b', InferenceBatcher.step b (id e) = some b' ∧ m'.batcher = b' := by
    rintro m e m' b rfl h
    obtain ⟨b', hb', rfl⟩ := step_eq_some.mp h
    exact ⟨b', hb', rfl⟩
  obtain ⟨b, hb, rfl⟩ := Machine.exec_simulates hstep rfl hrun
  rw [List.map_id] at hb
  exact hb

/-! ## Batch sizes and calls -/

/-- The histograms have observed each batch that has been handed to `predict_fn`, and each call of
it that has returned. -/
structure Observed (m : MeteredBatcher args ρ) : Prop where
  sizes : m.batchSizes.Perm (m.batcher.handed.map List.length)
  calls : m.inferenceSeconds.length = m.batcher.returnedCalls

/-- **What a step may do to the histograms**: nothing; observe the batch that a task hands over;
observe a call that has returned; or let a call that has not returned go. -/
inductive Observes (m : MeteredBatcher args ρ) : MeteredBatcher args ρ → Prop
  | silent (b : InferenceBatcher args ρ) (hhanded : b.handed = m.batcher.handed)
      (hcalls : b.returnedCalls = m.batcher.returnedCalls)
      (hrunning : b.running = m.batcher.running) : Observes m { m with batcher := b }
  | call (b : InferenceBatcher args ρ) (k : ℕ) (batch : List Item)
      (hhanded : b.handed.Perm (m.batcher.handed ++ [batch]))
      (hcalls : b.returnedCalls = m.batcher.returnedCalls) (hk : k ∉ m.batcher.running)
      (hrunning : b.running = insert k m.batcher.running) :
      Observes m
        { m with
          batcher := b
          batchSizes := m.batchSizes ++ [batch.length]
          tStart := Function.update m.tStart k m.batcher.now }
  | result (b : InferenceBatcher args ρ) (k : ℕ) (hhanded : b.handed = m.batcher.handed)
      (hcalls : b.returnedCalls = m.batcher.returnedCalls + 1) (hk : k ∈ m.batcher.running)
      (hrunning : b.running = m.batcher.running.erase k) :
      Observes m
        { m with
          batcher := b
          inferenceSeconds := m.inferenceSeconds ++ [m.batcher.now - m.tStart k] }
  | failure (b : InferenceBatcher args ρ) (k : ℕ) (hhanded : b.handed = m.batcher.handed)
      (hcalls : b.returnedCalls = m.batcher.returnedCalls) (hk : k ∈ m.batcher.running)
      (hrunning : b.running = m.batcher.running.erase k) : Observes m { m with batcher := b }

/-- A rule of the batcher does one of these.

**Proof sketch.** One case for each action that moves a task; the others leave the tasks alone. -/
lemma observes (heff : Effect m.batcher a b) :
    Observes m { m.observe m.batcher.now a with batcher := b } := by
  cases a with
  | dispatch =>
    obtain ⟨batch, hs⟩ := heff.tasks_dispatch
    exact .silent b (handed_dispatch hs) (returnedCalls_dispatch hs) (running_dispatch hs)
  | callPredictFn k =>
    obtain ⟨batch, hk, hs⟩ := heff.tasks_callPredictFn
    obtain ⟨hnot, hrunning⟩ := running_call hk hs
    simp only [observe, hk]
    exact .call b k batch (handed_call hk hs) (returnedCalls_move hk hs rfl) hnot hrunning
  | finish k r =>
    obtain ⟨batch, hk, hs⟩ := heff.tasks_finish
    have hmem : k ∈ m.batcher.running := mem_running.mpr ⟨batch, hk⟩
    have hhanded := handed_move hk hs rfl
    cases r with
    | returned results =>
      exact .result b k hhanded (returnedCalls_finish hk hs) hmem (running_finish hk hs)
    | raised e =>
      exact .failure b k hhanded (returnedCalls_move hk hs rfl) hmem (running_finish hk hs)
    | cancelled =>
      exact .failure b k hhanded (returnedCalls_move hk hs rfl) hmem (running_finish hk hs)
  | batchDone k =>
    obtain ⟨batch, r, hk, hs⟩ := heff.tasks_batchDone
    have hcalls : b.returnedCalls = m.batcher.returnedCalls :=
      returnedCalls_move hk hs (by cases r <;> rfl)
    exact .silent b (handed_move hk hs rfl) hcalls (running_reap hk hs)
  | _ =>
    have hs : b.tasks = m.batcher.tasks := by cases heff <;> rfl
    exact .silent b (by rw [handed, hs, handed]) (by rw [returnedCalls, hs, returnedCalls])
      (by rw [running, hs, running])

/-- What a step does to the histograms is in their account. -/
lemma Observed.observes (h : Observed m) (hm : Observes m m') : Observed m' := by
  obtain ⟨hsizes, hcount⟩ := h
  cases hm with
  | silent b hhanded hcalls hrunning =>
    refine ⟨?_, ?_⟩
    · rw [hhanded]
      exact hsizes
    · rw [hcalls]
      exact hcount
  | call b k batch hhanded hcalls hk hrunning =>
    refine ⟨?_, ?_⟩
    · have hperm := hhanded.map List.length
      rw [List.map_append] at hperm
      exact (hsizes.append_right _).trans hperm.symm
    · rw [hcalls]
      exact hcount
  | result b k hhanded hcalls hk hrunning =>
    refine ⟨?_, ?_⟩
    · rw [hhanded]
      exact hsizes
    · rw [hcalls, List.length_append, hcount, List.length_singleton]
  | failure b k hhanded hcalls hk hrunning =>
    refine ⟨?_, ?_⟩
    · rw [hhanded]
      exact hsizes
    · rw [hcalls]
      exact hcount

/-! ## The time that `predict_fn` has been busy -/

/-- The seconds that have been observed, and those of the calls that still run, fit into the time
since `t₀` with all permits in use. -/
structure Busy (t₀ : ℚ) (m : MeteredBatcher args ρ) : Prop where
  past : ∀ k ∈ m.batcher.running, m.tStart k ≤ m.batcher.now
  nonneg : ∀ x ∈ m.inferenceSeconds, 0 ≤ x
  total : m.inferenceSeconds.sum + ∑ k ∈ m.batcher.running, (m.batcher.now - m.tStart k) ≤
    args.maxConcurrentBatches * (m.batcher.now - t₀)

/-- While time passes each call takes it. -/
lemma sum_tick (calls : Finset ℕ) (ts : ℕ → ℚ) (now u : ℚ) :
    ∑ k ∈ calls, (u - ts k) = ∑ k ∈ calls, (now - ts k) + calls.card * (u - now) := by
  rw [← nsmul_eq_mul, ← Finset.sum_const, ← Finset.sum_add_distrib]
  apply Finset.sum_congr rfl
  intro k _
  ring

/-- A call begins with no time behind it. -/
lemma sum_call {calls : Finset ℕ} {k : ℕ} (hk : k ∉ calls) (ts : ℕ → ℚ) (now : ℚ) :
    ∑ j ∈ insert k calls, (now - Function.update ts k now j) = ∑ j ∈ calls, (now - ts j) := by
  rw [Finset.sum_insert hk, Function.update_self, sub_self, zero_add]
  apply Finset.sum_congr rfl
  intro j hj
  rw [Function.update_of_ne (ne_of_mem_of_not_mem hj hk)]

/-- While time passes each call that runs takes it.

**Proof sketch.** There are no more of them than permits (`card_running_le`). -/
lemma Busy.tick (h : Busy t₀ m) (hp : PermitInv m.batcher) (hle : m.batcher.now ≤ now) :
    Busy t₀ { m with batcher := { m.batcher with now := now } } := by
  refine ⟨fun k hk => (h.past k hk).trans hle, h.nonneg, ?_⟩
  have hcard : (m.batcher.running.card : ℚ) ≤ args.maxConcurrentBatches :=
    Nat.cast_le.mpr (card_running_le hp)
  show m.inferenceSeconds.sum + ∑ k ∈ m.batcher.running, (now - m.tStart k) ≤ _
  have hmul := mul_le_mul_of_nonneg_right hcard (sub_nonneg.mpr hle)
  have htotal := h.total
  rw [sum_tick _ _ m.batcher.now]
  calc m.inferenceSeconds.sum + (∑ k ∈ m.batcher.running, (m.batcher.now - m.tStart k) +
        m.batcher.running.card * (now - m.batcher.now))
      ≤ args.maxConcurrentBatches * (m.batcher.now - t₀) +
          args.maxConcurrentBatches * (now - m.batcher.now) := by linarith
    _ = args.maxConcurrentBatches * (now - t₀) := by ring

/-- A step moves the time of a call that returns from the running ones to the observed ones, and
creates none.

**Proof sketch.** A call begins with no time behind it; one that returns is observed; and one that
does not is let go, with the time behind it. -/
lemma Busy.observes (h : Busy t₀ m) (hm : Observes m m') (hnow : m'.batcher.now = m.batcher.now) :
    Busy t₀ m' := by
  obtain ⟨hpast, hnonneg, htotal⟩ := h
  cases hm with
  | silent b hhanded hcalls hrunning =>
    refine ⟨?_, hnonneg, ?_⟩
    · rw [hrunning, hnow]
      exact hpast
    · rw [hrunning, hnow]
      exact htotal
  | call b k batch hhanded hcalls hk hrunning =>
    have hold : ∀ j ∈ m.batcher.running,
        Function.update m.tStart k m.batcher.now j = m.tStart j := by
      intro j hj
      exact Function.update_of_ne (ne_of_mem_of_not_mem hj hk) _ _
    dsimp only at hnow
    refine ⟨?_, hnonneg, ?_⟩ <;> dsimp only
    · intro j hj
      rw [hrunning, Finset.mem_insert] at hj
      rw [hnow]
      rcases hj with rfl | hj
      · simp
      · rw [hold j hj]
        exact hpast j hj
    · rw [hrunning, hnow, sum_call hk]
      exact htotal
  | result b k hhanded hcalls hk hrunning =>
    refine ⟨?_, ?_, ?_⟩
    · rw [hrunning, hnow]
      exact fun j hj => hpast j (Finset.mem_of_mem_erase hj)
    · intro x hx
      rcases List.mem_append.mp hx with hx | hx
      · exact hnonneg x hx
      · rw [List.mem_singleton.mp hx]
        exact sub_nonneg.mpr (hpast k hk)
    · have hsplit := Finset.add_sum_erase _ (fun j => m.batcher.now - m.tStart j) hk
      rw [hrunning, hnow, List.sum_append, List.sum_singleton, add_assoc, hsplit]
      exact htotal
  | failure b k hhanded hcalls hk hrunning =>
    have hsplit := Finset.add_sum_erase _ (fun j => m.batcher.now - m.tStart j) hk
    have hle : 0 ≤ m.batcher.now - m.tStart k := sub_nonneg.mpr (hpast k hk)
    refine ⟨?_, hnonneg, ?_⟩
    · rw [hrunning, hnow]
      exact fun j hj => hpast j (Finset.mem_of_mem_erase hj)
    · rw [hrunning, hnow]
      linarith

/-- The histograms take the time from the step. -/
lemma observe_tick (t : ℚ) (b : InferenceBatcher args ρ) (a : Action ρ) :
    { { m with batcher := { m.batcher with now := t } }.observe t a with batcher := b } =
      { m.observe t a with batcher := b } := by
  cases a with
  | finish k r => cases r <;> rfl
  | _ => rfl

/-- A step observes what it may, and keeps the time within its bounds. -/
lemma step_keeps (ho : Observed m) (hb : Busy t₀ m) (hp : PermitInv m.batcher)
    (h : step m e = some m') : Observed m' ∧ Busy t₀ m' := by
  obtain ⟨b, hstep, rfl⟩ := step_eq_some.mp h
  obtain ⟨hle, heff⟩ := step_effect hstep
  have hobs := observes (m := { m with batcher := { m.batcher with now := e.1 } }) heff
  rw [observe_tick] at hobs
  have ho' : Observed { m with batcher := { m.batcher with now := e.1 } } := ⟨ho.sizes, ho.calls⟩
  exact ⟨ho'.observes hobs, (hb.tick hp hle).observes hobs heff.now_eq⟩

/-- The account is right after every run.

**Proof sketch.** `step_keeps` for each step; the permits are those of the batcher's own run. -/
lemma account_exec (hrun : Machine.exec step (new args ρ t₀) es = some m) :
    Observed m ∧ Busy t₀ m := by
  refine Machine.exec_induction (P := fun _ m => Observed m ∧ Busy t₀ m) ?_ ?_ es m hrun
  · refine ⟨⟨.refl _, rfl⟩, ⟨?_, by simp [new], ?_⟩⟩
    · intro k hk
      obtain ⟨batch, hk⟩ := mem_running.mp hk
      cases hk
    · simp [new, InferenceBatcher.new, running]
  · rintro es e m m' hes ⟨ho, hb⟩ hstep
    exact step_keeps ho hb (permits_exec (batcher_run hes)) hstep

/-- **What the histograms tell.** After every run `batch_size_histogram` has observed the sizes of
the batches that have been handed to `predict_fn`, each of them once, and none of them over
`max 1 batchSize`; and `model_inference_seconds` has observed as many calls as have returned, and a
total that is no more than `max_concurrent_batches` times the time that has passed.

**Proof sketch.** `account_exec`; a call that has not returned takes time, too, and adds to the
total that is bounded. -/
theorem metrics_account (args : BatcherArgs) (ρ : Type) (t₀ : ℚ) (es : List (ℚ × Action ρ))
    (m : MeteredBatcher args ρ) (hrun : Machine.exec step (new args ρ t₀) es = some m) :
    Machine.exec InferenceBatcher.step (.new args ρ t₀) es = some m.batcher ∧
    m.batchSizes.Perm (m.batcher.handed.map List.length) ∧
    (∀ n ∈ m.batchSizes, 1 ≤ n ∧ (n : ℤ) ≤ max 1 args.batchSize) ∧
    m.inferenceSeconds.length = m.batcher.returnedCalls ∧
    (∀ x ∈ m.inferenceSeconds, 0 ≤ x) ∧
    m.inferenceSeconds.sum ≤ args.maxConcurrentBatches * (m.batcher.now - t₀) := by
  have hbatcher := batcher_run hrun
  obtain ⟨ho, hb⟩ := account_exec hrun
  refine ⟨hbatcher, ho.sizes, ?_, ho.calls, hb.nonneg, ?_⟩
  · intro n hn
    obtain ⟨batch, hbatch, rfl⟩ := List.mem_map.mp (ho.sizes.mem_iff.mp hn)
    obtain ⟨t, ht, rfl⟩ := List.mem_map.mp hbatch
    exact (flowInv_exec hbatcher).sizes _ (List.mem_map.mpr ⟨t, (List.mem_filter.mp ht).1, rfl⟩)
  · have hrunning : 0 ≤ ∑ k ∈ m.batcher.running, (m.batcher.now - m.tStart k) :=
      Finset.sum_nonneg fun k hk => sub_nonneg.mpr (hb.past k hk)
    linarith [hb.total]

/-- Two batches of one request each, which run at the same time for a second. -/
def parallelRun : List (ℚ × Action ℕ) :=
  [(0, .start), (0, .predict "a"), (0, .predict "b"), (0, .collectFirst), (0, .loopTest),
    (0, .acquire), (0, .dispatch), (0, .callPredictFn 0), (0, .collectFirst), (0, .loopTest),
    (0, .acquire), (0, .dispatch), (0, .callPredictFn 1), (1, .finish 0 (.returned [7])),
    (1, .finish 1 (.returned [8]))]

/-- They take all the time that there is. -/
theorem metrics_account_parallel :
    ∃ m, Machine.exec step (new ⟨1, 20, 2, ⟨5, 30⟩⟩ ℕ 0) parallelRun = some m ∧
      m.batchSizes = [1, 1] ∧ m.inferenceSeconds = [1, 1] ∧
      m.inferenceSeconds.sum = 2 * (m.batcher.now - 0) ∧
      m.inferenceSeconds.length = m.batcher.returnedCalls := by
  obtain ⟨m, hm, hsizes, hseconds, hnow⟩ :
      ∃ m ∈ Machine.exec step (new ⟨1, 20, 2, ⟨5, 30⟩⟩ ℕ 0) parallelRun,
        m.batchSizes = [1, 1] ∧ m.inferenceSeconds = [1, 1] ∧ m.batcher.now = 1 := by
    decide +kernel
  obtain ⟨-, -, -, hcalls, -, -⟩ := metrics_account _ ℕ 0 parallelRun m hm
  refine ⟨m, hm, hsizes, hseconds, ?_, hcalls⟩
  rw [hseconds, hnow]
  norm_num

end MeteredBatcher

end InferenceServer
