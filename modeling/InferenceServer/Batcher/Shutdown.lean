import InferenceServer.Batcher.Answers

set_option relaxedAutoImplicit false
set_option autoImplicit false

/-!
# Shutdown

`stop()` cancels the collector and waits for the tasks that are in flight. So it answers whoever
has been dispatched, and nobody else.

## Main definitions

* `InferenceBatcher.Accounted` — the invariant: a task that is not in `_inflight` has ended, a task
  that has ended has answered its requests, and nothing else answers a request.
* `InferenceBatcher.Stopped` — what holds since `stop()`.

## Main results

* `InferenceBatcher.accounted_exec` — the invariant holds after every run.
* `InferenceBatcher.stop_answers_dispatched` — which requests have an answer when `stop()` returns.
* `InferenceBatcher.stop_drops_queue` — a request that gets none.
-/

namespace InferenceServer

/-- A task that is done stays done. -/
lemma TaskPhase.Moves.ended {ρ : Type} {p q : TaskPhase ρ} (h : p.Moves q)
    (hp : p.ended = true) : q.ended = true := by
  cases h <;> first | rfl | cases hp

/-- A future holds a result or an exception. -/
def Future.answered {ρ : Type} : Future ρ → Bool
  | .result _ => true
  | .exception _ => true
  | _ => false

namespace InferenceBatcher

variable {args : BatcherArgs} {ρ : Type} {s s' : InferenceBatcher args ρ} {a : Action ρ}
  {e : ℚ × Action ρ}

/-- `task.done()` in terms of the phase. -/
lemma taskDone_iff {k : ℕ} {t : BatchTask ρ} (hk : s.tasks[k]? = some t) :
    s.taskDone k = true ↔ t.phase.ended = true := by
  obtain ⟨batch, p⟩ := t
  cases p <;> simp [taskDone, hk, TaskPhase.ended]

/-! ## The books -/

/-- A task that is not in `_inflight` has ended; when a task has ended its requests are done; and
whoever has a result or an exception has it from a task that has ended. -/
structure Accounted (s : InferenceBatcher args ρ) : Prop where
  inflight : ∀ k t, s.tasks[k]? = some t → k ∉ s.inflight → t.phase.ended = true
  settled : ∀ t ∈ s.tasks, t.phase.ended = true → ∀ it ∈ t.batch,
    ∃ v, s.futures[it.future]? = some v ∧ v.done = true
  source : ∀ f v, s.futures[f]? = some v → v.answered = true →
    ∃ t ∈ s.tasks, t.phase.ended = true ∧ ∃ it ∈ t.batch, it.future = f

/-- A new batcher has neither tasks nor futures. -/
lemma accounted_new (t₀ : ℚ) : Accounted (new args ρ t₀) where
  inflight := by simp [new]
  settled := by simp [new]
  source := by simp [new]

/-- A task enters `_inflight` when it is created and leaves it when it has ended. -/
lemma Effect.inflight (h : Effect s a s')
    (hi : ∀ k t, s.tasks[k]? = some t → k ∉ s.inflight → t.phase.ended = true) :
    ∀ k t, s'.tasks[k]? = some t → k ∉ s'.inflight → t.phase.ended = true := by
  intro k t hk hn
  cases h with
  | dispatch batch hw =>
    rcases task_append_cases hk with ⟨rfl, -⟩ | hk
    · exact absurd (List.mem_append_right _ (List.mem_singleton.mpr rfl)) hn
    · exact hi k t hk fun hm => hn (List.mem_append_left _ hm)
  | callPredictFn j batch hj =>
    rcases task_set_cases hk with ⟨rfl, rfl⟩ | ⟨-, hk⟩
    · cases hi j _ hj hn
    · exact hi k t hk hn
  | finish j b batch hj hb =>
    rcases task_set_cases hk with ⟨rfl, rfl⟩ | ⟨-, hk⟩
    · rfl
    · exact hi k t hk hn
  | batchDone j batch b hj =>
    rcases task_set_cases hk with ⟨rfl, rfl⟩ | ⟨hjk, hk⟩
    · rfl
    · exact hi k t hk fun hm => hn ((List.mem_erase_of_ne (Ne.symm hjk)).mpr hm)
  | _ => exact hi k t hk hn

/-- A task that has ended had ended before, or ends in this step. -/
lemma Effect.task_ends (h : Effect s a s') {k : ℕ} {t : BatchTask ρ}
    (hk : s'.tasks[k]? = some t) (he : t.phase.ended = true) :
    (∃ p, s.tasks[k]? = some ⟨t.batch, p⟩ ∧ p.ended = true) ∨
      ∃ b, a = .finish k b ∧ s.tasks[k]? = some ⟨t.batch, .running⟩ := by
  cases h with
  | dispatch batch hw =>
    rcases task_append_cases hk with ⟨rfl, rfl⟩ | hk
    · cases he
    · exact .inl ⟨t.phase, hk, he⟩
  | callPredictFn j batch hj =>
    rcases task_set_cases hk with ⟨rfl, rfl⟩ | ⟨-, hk⟩
    · cases he
    · exact .inl ⟨t.phase, hk, he⟩
  | finish j b batch hj hb =>
    rcases task_set_cases hk with ⟨rfl, rfl⟩ | ⟨-, hk⟩
    · exact .inr ⟨b, rfl, hj⟩
    · exact .inl ⟨t.phase, hk, he⟩
  | batchDone j batch b hj =>
    rcases task_set_cases hk with ⟨rfl, rfl⟩ | ⟨-, hk⟩
    · exact .inl ⟨.finished b, hj, rfl⟩
    · exact .inl ⟨t.phase, hk, he⟩
  | _ => exact .inl ⟨t.phase, hk, he⟩

/-- A task that has ended stays so, with its batch. -/
lemma Effect.task_ended (h : Effect s a s') {k : ℕ} {t : BatchTask ρ}
    (hk : s.tasks[k]? = some t) (he : t.phase.ended = true) :
    ∃ q, s'.tasks[k]? = some ⟨t.batch, q⟩ ∧ q.ended = true := by
  obtain ⟨q, hq, rfl | hm⟩ := h.tasks_getElem? hk
  · exact ⟨_, hq, he⟩
  · exact ⟨q, hq, hm.ended he⟩

/-- Every action keeps the books.

**Proof sketch.** A task that had ended before has answered its requests, and their futures keep
their values (`Effect.futures_keep`). A task that ends answers its requests (`finish_answer`), but
for those that are done. A result or an exception is old, or it is the answer of the task that ends
(`Effect.futures_cases`). -/
lemma Effect.accounted (h : Effect s a s') (hi : FlowInv s) (hb : Accounted s) :
    Accounted s' where
  inflight := h.inflight hb.inflight
  settled := by
    intro t ht he it hit
    obtain ⟨k, hk⟩ := List.mem_iff_getElem?.mp ht
    rcases h.task_ends hk he with ⟨p, hold, hp⟩ | ⟨b, rfl, hold⟩
    · obtain ⟨v, hv, hd⟩ := hb.settled _ (List.mem_of_getElem? hold) hp it hit
      exact ⟨v, h.futures_keep hv hd, hd⟩
    · obtain ⟨i, hit⟩ := List.mem_iff_getElem?.mp hit
      have hlt : it.future < s.futures.length :=
        hi.future_lt (FlowInv.mem_flow hold (List.mem_of_getElem? hit))
      have hget := List.getElem?_eq_getElem hlt
      by_cases hd : s.futures[it.future].done = true
      · exact ⟨_, h.futures_keep hget hd, hd⟩
      · have hp : s.futures[it.future]? = some .pending := by
          rw [hget, Future.eq_pending hd]
        cases h with
        | finish _ _ batch hk' hb' =>
          obtain rfl : t.batch = batch := by simpa using hold.symm.trans hk'
          exact ⟨_, finish_answer (hi.batch_nodup hold) b hit hp, answer_done _ _ _⟩
  source := by
    intro f v hf hv
    rcases h.futures_cases hi hf with hold | rfl | rfl |
      ⟨k, b, batch, i, it, rfl, hk, hit, rfl, rfl⟩
    · obtain ⟨t, ht, he, hit⟩ := hb.source f v hold hv
      obtain ⟨k, hk⟩ := List.mem_iff_getElem?.mp ht
      obtain ⟨q, hq, hqe⟩ := h.task_ended hk he
      exact ⟨_, List.mem_of_getElem? hq, hqe, hit⟩
    · cases hv
    · cases hv
    · cases h with
      | finish _ _ batch' hk' hb' =>
        obtain rfl : batch = batch' := by simpa using hk.symm.trans hk'
        refine ⟨⟨batch, .finished b⟩, ?_, rfl, it, List.mem_of_getElem? hit, rfl⟩
        exact List.mem_of_getElem?
          (List.getElem?_set_self (List.getElem?_eq_some_iff.mp hk).1)

/-- **The books are kept in every run.** -/
theorem accounted_exec {t₀ : ℚ} {es : List (ℚ × Action ρ)}
    (hrun : Machine.exec step (new args ρ t₀) es = some s) : Accounted s := by
  refine Machine.exec_invariant_relative (fun _ _ _ => flowInv_step) ?_ (flowInv_new t₀)
    (accounted_new t₀) hrun
  intro s e s' hi hb h
  obtain ⟨-, heff⟩ := step_effect h
  apply heff.accounted (hi.tick _)
  exact ⟨hb.inflight, hb.settled, hb.source⟩

/-! ## Since `stop()` -/

/-- What holds since `stop()` was called in the state `s₀`: no batch is dispatched, the collector
is cancelled, and when `stop()` has returned the tasks that were in flight are done. -/
structure Stopped (s₀ s : InferenceBatcher args ρ) : Prop where
  batches : s.batches = s₀.batches
  worker : s.worker = s₀.worker.cancel
  inflight : ∀ k ∈ s.inflight, k ∈ s₀.inflight
  stopping : s.stopping = .gathering s₀.inflight ∨
    s.stopping = .returned ∧ ∀ k ∈ s₀.inflight, s.taskDone k = true

/-- The call of `stop()`. -/
lemma stopped_stop {t : ℚ} (h : step s (t, .stop) = some s') : Stopped s s' := by
  obtain ⟨-, heff⟩ := step_effect h
  cases heff with
  | stop permits hs hp =>
    refine ⟨rfl, rfl, fun k hk => hk, ?_⟩
    by_cases hn : s.inflight = []
    · exact .inr ⟨by simp [hn], by simp [hn]⟩
    · exact .inl (by simp [hn])

/-- A task that is done stays done. -/
lemma Effect.taskDone (h : Effect s a s') {k : ℕ} (hd : s.taskDone k = true) :
    s'.taskDone k = true := by
  cases hk : s.tasks[k]? with
  | none => simp [InferenceBatcher.taskDone, hk] at hd
  | some t =>
    obtain ⟨q, hq, hqe⟩ := h.task_ended hk ((taskDone_iff hk).mp hd)
    exact (taskDone_iff hq).mpr hqe

/-- A collector that was cancelled, or never started, stands nowhere in the loop. -/
lemma cancel_cases (w : Worker) :
    w.cancel = .notStarted ∨ ∃ batch, w.cancel = .cancelled batch := by
  cases w <;> simp [Worker.cancel]

/-- Since `stop()` the collector does not move. -/
lemma Effect.worker_stopped (h : Effect s a s') (hn : s.stopping ≠ .notCalled)
    (hw : s.worker = .notStarted ∨ ∃ batch, s.worker = .cancelled batch) :
    s'.worker = s.worker := by
  cases h with
  | start he hs => exact absurd hs hn
  | stop permits hs hp => exact absurd hs hn
  | reject | accept | cancel | poll | callPredictFn | finish | batchDone | stopReturn => rfl
  | _ => simp_all

/-- **Every action keeps what holds since `stop()`.** -/
theorem Effect.stopped {s₀ : InferenceBatcher args ρ} (h : Effect s a s') (hs : Stopped s₀ s) :
    Stopped s₀ s' := by
  have hn : s.stopping ≠ .notCalled := by
    rcases hs.stopping with he | ⟨he, -⟩ <;> simp [he]
  have hw : s.worker = .notStarted ∨ ∃ batch, s.worker = .cancelled batch :=
    hs.worker ▸ cancel_cases s₀.worker
  have hd : ∀ batch, s.worker ≠ .dispatch batch := by
    intro batch he
    rcases hw with hw | ⟨b, hw⟩ <;> cases he.symm.trans hw
  have hdone : (∀ k ∈ s₀.inflight, s.taskDone k = true) →
      ∀ k ∈ s₀.inflight, s'.taskDone k = true := fun hk k hm => h.taskDone (hk k hm)
  refine ⟨?_, (h.worker_stopped hn hw).trans hs.worker, fun k hk => hs.inflight k ?_, ?_⟩
  · rw [← hs.batches]
    rcases h.tasks_cases with he | ⟨batch, he, -⟩ | ⟨k, batch, p, q, hk, -, he⟩
    · rw [batches, he, batches]
    · exact absurd he (hd batch)
    · rw [batches, he, map_batch_set hk, batches]
  · cases h with
    | dispatch batch he => exact absurd he (hd batch)
    | batchDone j batch b hj => exact List.mem_of_mem_erase hk
    | _ => exact hk
  · cases h with
    | stop permits he hp => exact absurd he hn
    | stopReturn ks he hk =>
      rcases hs.stopping with he' | ⟨he', -⟩
      · obtain rfl : ks = s₀.inflight := by simpa using he.symm.trans he'
        exact .inr ⟨rfl, hdone hk⟩
      · cases he.symm.trans he'
    | _ => exact hs.stopping.imp_right (And.imp_right hdone)

/-- What holds since `stop()` holds in every later state. -/
lemma stopped_exec {t : ℚ} {post : List (ℚ × Action ρ)} {s₁ s₂ : InferenceBatcher args ρ}
    (hstop : step s (t, .stop) = some s₁) (hpost : Machine.exec step s₁ post = some s₂) :
    Stopped s s₂ := by
  refine Machine.exec_invariant (I := fun x => Stopped s x) ?_ (stopped_stop hstop) hpost
  intro x e x' hI h
  refine (step_effect h).2.stopped ⟨hI.batches, hI.worker, hI.inflight, ?_⟩
  exact hI.stopping

/-- The heap of futures does not shrink in a run. -/
lemma futures_length_exec {post : List (ℚ × Action ρ)} {s₂ : InferenceBatcher args ρ}
    (hpost : Machine.exec step s post = some s₂) : s.futures.length ≤ s₂.futures.length := by
  refine Machine.exec_invariant (I := fun x => s.futures.length ≤ x.futures.length) ?_ le_rfl hpost
  intro x e x' hle h
  exact hle.trans (step_effect h).2.futures_length

/-- When `stop()` has returned, every task has ended: it was in flight, and `stop()` has waited for
it, or it had ended before. -/
lemma Stopped.ended {s₀ : InferenceBatcher args ρ} (hs : Stopped s₀ s)
    (hret : s.stopping = .returned) (hb : Accounted s) {k : ℕ} {task : BatchTask ρ}
    (hk : s.tasks[k]? = some task) : task.phase.ended = true := by
  have hdone : ∀ k ∈ s₀.inflight, s.taskDone k = true := by
    rcases hs.stopping with he | ⟨-, hdone⟩
    · cases hret.symm.trans he
    · exact hdone
  by_cases hin : k ∈ s₀.inflight
  · exact (taskDone_iff hk).mp (hdone k hin)
  · apply hb.inflight k task hk
    intro hm
    exact hin (hs.inflight k hm)

/-- Since `stop()` nobody answers a request that was not dispatched.

**Proof sketch.** An answer comes from a dispatched task (`Accounted`), no batch has been
dispatched since, and no other request is in one (`FlowInv.nodup`). -/
lemma Stopped.not_answered {s₀ : InferenceBatcher args ρ} (hs : Stopped s₀ s)
    (hi : FlowInv s₀) (hb : Accounted s) {it : Item} (hit : it ∈ s₀.worker.held ++ s₀.queue)
    {v : Future ρ} (hv : s.futures[it.future]? = some v) : v.answered = false := by
  by_contra ha
  rw [Bool.not_eq_false] at ha
  obtain ⟨task, htask, -, x, hx, he⟩ := hb.source _ _ hv ha
  have hmem : x ∈ s₀.batches.flatten := by
    rw [← hs.batches]
    exact List.mem_flatten.mpr ⟨task.batch, List.mem_map_of_mem htask, hx⟩
  have hnd := hi.nodup
  rw [flow, List.append_assoc, List.map_append, List.nodup_append] at hnd
  exact hnd.2.2 _ (List.mem_map_of_mem hmem) _ (List.mem_map_of_mem hit) he

/-- **What `stop()` answers.** When `stop()` has returned, every request that had been dispatched
when it was called is done; a request that was in the queue or with the collector is pending, or
its caller was cancelled.

**Proof sketch.** Since `stop()` nothing is dispatched (`Stopped`). Every dispatched task has ended
(`Stopped.ended`), and a task that has ended has answered its requests (`Accounted`). Nobody else
has been answered (`Stopped.not_answered`). -/
theorem stop_answers_dispatched (args : BatcherArgs) (ρ : Type) (t₀ t : ℚ)
    (es post : List (ℚ × Action ρ)) (s s₁ s₂ : InferenceBatcher args ρ)
    (hrun : Machine.exec step (new args ρ t₀) es = some s)
    (hstop : step s (t, .stop) = some s₁) (hpost : Machine.exec step s₁ post = some s₂)
    (hret : s₂.stopping = .returned) :
    (∀ batch ∈ s.batches, ∀ it ∈ batch,
      ∃ v, s₂.futures[it.future]? = some v ∧ v.done = true) ∧
    (∀ it ∈ s.worker.held ++ s.queue,
      s₂.futures[it.future]? = some .pending ∨ s₂.futures[it.future]? = some .cancelled) := by
  have hs : Stopped s s₂ := stopped_exec hstop hpost
  have hb : Accounted s₂ := accounted_exec (Machine.exec_through hrun hstop hpost)
  refine ⟨?_, ?_⟩
  · intro batch hbatch it hit
    rw [← hs.batches] at hbatch
    obtain ⟨task, htask, rfl⟩ := List.mem_map.mp hbatch
    obtain ⟨k, hk⟩ := List.mem_iff_getElem?.mp htask
    exact hb.settled task htask (hs.ended hret hb hk) it hit
  · intro it hit
    have hi : FlowInv s := flowInv_exec hrun
    have hflow : it ∈ s.flow := by
      rw [flow, List.append_assoc]
      exact List.mem_append_right _ hit
    have hlt : it.future < s₂.futures.length := calc
      it.future < s.futures.length := hi.future_lt hflow
      _ ≤ s₁.futures.length := (step_effect hstop).2.futures_length
      _ ≤ s₂.futures.length := futures_length_exec hpost
    have hget := List.getElem?_eq_getElem hlt
    have hna := hs.not_answered hi hb hit hget
    rw [hget]
    cases hv : s₂.futures[it.future] with
    | pending => exact .inl rfl
    | cancelled => exact .inr rfl
    | result r =>
      rw [hv] at hna
      cases hna
    | exception e =>
      rw [hv] at hna
      cases hna

/-- A request is dispatched and another one waits in the queue when `stop()` is called. -/
def stopRun : List (ℚ × Action ℕ) :=
  [(0, .start), (0, .predict "a"), (0, .collectFirst), (0, .loopTest), (0, .acquire),
    (0, .dispatch), (0, .callPredictFn 0), (0, .predict "b")]

/-- `stop()` waits for the first one. -/
theorem stop_answers_dispatched_first :
    ∃ s ∈ Machine.exec step (new ⟨1, 0, 1, ⟨1, 1⟩⟩ ℕ 0) stopRun, ∃ s₁ ∈ step s (1, .stop),
      ∃ s₂ ∈ Machine.exec step s₁ [(2, .finish 0 (.returned [7])), (2, .stopReturn)],
        s₂.stopping = .returned ∧ ∃ v, s₂.futures[0]? = some v ∧ v.done = true := by
  obtain ⟨s, hs, hb, s₁, hstop, s₂, hpost, hret⟩ :
      ∃ s ∈ Machine.exec step (new ⟨1, 0, 1, ⟨1, 1⟩⟩ ℕ 0) stopRun,
        [⟨"a", 0⟩] ∈ s.batches ∧ ∃ s₁ ∈ step s (1, .stop),
          ∃ s₂ ∈ Machine.exec step s₁ [(2, .finish 0 (.returned [7])), (2, .stopReturn)],
            s₂.stopping = .returned := by
    decide +kernel
  exact ⟨s, hs, s₁, hstop, s₂, hpost, hret,
    (stop_answers_dispatched _ ℕ 0 1 stopRun _ s s₁ s₂ hs hstop hpost hret).1 _ hb ⟨"a", 0⟩
      (by decide)⟩

/-- The second one was admitted before `stop()` and is pending when it returns. -/
theorem stop_drops_queue :
    ∃ s ∈ Machine.exec step (new ⟨1, 0, 1, ⟨1, 1⟩⟩ ℕ 0) stopRun,
      items s.calls = [⟨"a", 0⟩, ⟨"b", 1⟩] ∧ ∃ s₁ ∈ step s (1, .stop),
        ∃ s₂ ∈ Machine.exec step s₁ [(2, .finish 0 (.returned [7])), (2, .stopReturn)],
          s₂.stopping = .returned ∧ s₂.futures[1]? = some .pending := by
  decide +kernel

end InferenceBatcher

end InferenceServer
