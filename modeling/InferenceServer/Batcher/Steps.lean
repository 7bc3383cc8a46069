import InferenceServer.Batcher.Basic

set_option relaxedAutoImplicit false
set_option autoImplicit false

/-!
# What a step of the batcher does

The machine of `Batcher/Basic.lean` is a function. Here its steps are rules, one for each branch
of the code, with the guard of the branch and the state that it leaves; and from the rules one
lemma for each part of the state.

## Main definitions

* `InferenceBatcher.Effect` — the rules.

## Main results

* `InferenceBatcher.step_effect`, `InferenceBatcher.act_of_effect` — every step is by a rule, and
  every rule is a step.
* `InferenceBatcher.settleAll_cases` — a future is written once, while it is pending.
* `InferenceBatcher.Effect.calls_eq` — only `predict` logs a call.
* `InferenceBatcher.Effect.tasks_cases` — a task is created, or moves on.
-/

namespace InferenceServer

/-- The moves of a `_run_batch` task. -/
inductive TaskPhase.Moves {ρ : Type} : TaskPhase ρ → TaskPhase ρ → Prop
  | call : Moves .created .running
  | finish (b : Behaviour ρ) : Moves .running (.finished b)
  | reap (b : Behaviour ρ) : Moves (.finished b) (.reaped b)

namespace InferenceBatcher

variable {args : BatcherArgs} {ρ : Type} {s s' : InferenceBatcher args ρ} {a : Action ρ}

/-! ## The rules -/

/-- The rules of the machine: what each branch of the code requires and leaves. -/
inductive Effect (s : InferenceBatcher args ρ) : Action ρ → InferenceBatcher args ρ → Prop
  | start (hw : s.worker = .notStarted) (hs : s.stopping = .notCalled) :
      Effect s .start { s with worker := .awaitFirst }
  | reject (text : String) (cb : CircuitBreaker args.breaker) (e : PyException)
      (hc : s.circuitBreaker.check s.now = (cb, .error e)) :
      Effect s (.predict text)
        { s with circuitBreaker := cb, calls := s.calls ++ [.rejected text e] }
  | accept (text : String) (cb : CircuitBreaker args.breaker)
      (hc : s.circuitBreaker.check s.now = (cb, .ok ())) :
      Effect s (.predict text)
        { s with
          circuitBreaker := cb
          calls := s.calls ++
            [.admitted text (cb.probeInFlight && !s.circuitBreaker.probeInFlight)
              s.futures.length]
          futures := s.futures ++ [.pending]
          queue := s.queue ++ [⟨text, s.futures.length⟩] }
  | cancel (f : ℕ) :
      Effect s (.cancel f) { s with futures := settle s.futures f .cancelled }
  | poll : Effect s .poll { s with circuitBreaker := s.circuitBreaker.refresh s.now }
  | collectFirst (item : Item) (queue : List Item) (hw : s.worker = .awaitFirst)
      (hq : s.queue = item :: queue) :
      Effect s .collectFirst
        { s with worker := .loopHead [item] (s.now + args.timeoutS), queue := queue }
  | wait (batch : List Item) (deadline : ℚ) (hw : s.worker = .loopHead batch deadline)
      (hlen : (batch.length : ℤ) < args.batchSize) (hd : s.now < deadline) :
      Effect s .loopTest { s with worker := .waitFor batch deadline }
  | full (batch : List Item) (deadline : ℚ) (hw : s.worker = .loopHead batch deadline)
      (hd : args.batchSize ≤ batch.length ∨ deadline ≤ s.now) :
      Effect s .loopTest { s with worker := .acquire batch }
  | collectNext (batch : List Item) (deadline : ℚ) (item : Item) (queue : List Item)
      (hw : s.worker = .waitFor batch deadline) (hq : s.queue = item :: queue) :
      Effect s .collectNext
        { s with worker := .loopHead (batch ++ [item]) deadline, queue := queue }
  | collectTimeout (batch : List Item) (deadline : ℚ) (hw : s.worker = .waitFor batch deadline)
      (hd : deadline ≤ s.now) :
      Effect s .collectTimeout { s with worker := .acquire batch }
  | acquire (batch : List Item) (hw : s.worker = .acquire batch) (hp : 0 < s.permits) :
      Effect s .acquire { s with worker := .dispatch batch, permits := s.permits - 1 }
  | dispatch (batch : List Item) (hw : s.worker = .dispatch batch) :
      Effect s .dispatch
        { s with
          worker := .awaitFirst
          tasks := s.tasks ++ [⟨batch, .created⟩]
          inflight := s.inflight ++ [s.tasks.length] }
  | callPredictFn (k : ℕ) (batch : List Item) (hk : s.tasks[k]? = some ⟨batch, .created⟩) :
      Effect s (.callPredictFn k) { s with tasks := s.tasks.set k ⟨batch, .running⟩ }
  | finish (k : ℕ) (b : Behaviour ρ) (batch : List Item)
      (hk : s.tasks[k]? = some ⟨batch, .running⟩)
      (hb : b.isCancelled = true → s.stopping ≠ .notCalled) :
      Effect s (.finish k b)
        { s with
          circuitBreaker := record s.circuitBreaker s.now (outcome batch.length b)
          futures := settleAll (deliver s.futures batch (outcome batch.length b))
            (batch.map fun it => (it.future, .exception noResultError))
          tasks := s.tasks.set k ⟨batch, .finished b⟩ }
  | batchDone (k : ℕ) (batch : List Item) (b : Behaviour ρ)
      (hk : s.tasks[k]? = some ⟨batch, .finished b⟩) :
      Effect s (.batchDone k)
        { s with
          tasks := s.tasks.set k ⟨batch, .reaped b⟩
          inflight := s.inflight.erase k
          permits := s.permits + 1 }
  | stop (permits : ℕ) (hs : s.stopping = .notCalled)
      (hp : permits = match s.worker with
        | .dispatch _ => s.permits + 1
        | _ => s.permits) :
      Effect s .stop
        { s with
          worker := s.worker.cancel
          permits := permits
          stopping := if s.inflight = [] then .returned else .gathering s.inflight }
  | stopReturn (ks : List ℕ) (hs : s.stopping = .gathering ks)
      (hk : ∀ k ∈ ks, s.taskDone k = true) :
      Effect s .stopReturn { s with stopping := .returned }

/-- Every action that is possible is by a rule.

**Proof sketch.** One case for each action: split the branches of its definition. -/
lemma act_effect (h : act s a = some s') : Effect s a s' := by
  cases a with
  | start =>
    simp only [act, start] at h
    split_ifs at h with hg
    obtain rfl := Option.some.inj h
    exact .start hg.1 hg.2
  | predict text =>
    simp only [act, predict, Option.some.injEq] at h
    split at h <;> subst h
    · exact .reject text _ _ ‹_›
    · exact .accept text _ ‹_›
  | cancel f =>
    obtain rfl := Option.some.inj h
    exact .cancel f
  | poll =>
    obtain rfl := Option.some.inj h
    exact .poll
  | collectFirst =>
    simp only [act, collectFirst] at h
    split at h
    · obtain rfl := Option.some.inj h
      exact .collectFirst _ _ ‹_› ‹_›
    · cases h
  | loopTest =>
    simp only [act, loopTest] at h
    split at h
    · split_ifs at h with hlen hd <;> obtain rfl := Option.some.inj h
      · exact .full _ _ ‹_› (.inr (sub_nonpos.mp hd))
      · exact .wait _ _ ‹_› hlen (sub_pos.mp (not_le.mp hd))
      · exact .full _ _ ‹_› (.inl (not_lt.mp hlen))
    · cases h
  | collectNext =>
    simp only [act, collectNext] at h
    split at h
    · obtain rfl := Option.some.inj h
      exact .collectNext _ _ _ _ ‹_› ‹_›
    · cases h
  | collectTimeout =>
    simp only [act, collectTimeout] at h
    split at h
    · split_ifs at h with hd
      obtain rfl := Option.some.inj h
      exact .collectTimeout _ _ ‹_› hd
    · cases h
  | acquire =>
    simp only [act, acquire] at h
    split at h
    · split_ifs at h with hp
      obtain rfl := Option.some.inj h
      exact .acquire _ ‹_› hp
    · cases h
  | dispatch =>
    simp only [act, dispatch] at h
    split at h
    · obtain rfl := Option.some.inj h
      exact .dispatch _ ‹_›
    · cases h
  | callPredictFn k =>
    simp only [act, callPredictFn] at h
    split at h
    · obtain rfl := Option.some.inj h
      exact .callPredictFn k _ ‹_›
    · cases h
  | finish k b =>
    simp only [act, finishBatch] at h
    split at h
    · split_ifs at h with hc
      obtain rfl := Option.some.inj h
      exact .finish k b _ ‹_› fun hb hs => hc ⟨hb, hs⟩
    · cases h
  | batchDone k =>
    simp only [act, onBatchDone] at h
    split at h
    · obtain rfl := Option.some.inj h
      exact .batchDone k _ _ ‹_›
    · cases h
  | stop =>
    simp only [act, stop] at h
    split at h
    · obtain rfl := Option.some.inj h
      exact .stop _ ‹_› rfl
    · cases h
  | stopReturn =>
    simp only [act, stopReturn] at h
    split at h
    · split_ifs at h with hk
      obtain rfl := Option.some.inj h
      exact .stopReturn _ ‹_› (List.all_eq_true.mp hk)
    · cases h

/-- What a rule describes is possible.

**Proof sketch.** One case for each rule: its requirements choose the branch. -/
lemma act_of_effect (h : Effect s a s') : act s a = some s' := by
  cases h with
  | start hw hs => simp only [act, start, hw, hs, and_self, if_true]
  | reject text cb e hc => simp only [act, predict, hc]
  | accept text cb hc => simp only [act, predict, hc]
  | cancel f => rfl
  | poll => rfl
  | collectFirst item queue hw hq => simp only [act, collectFirst, hw, hq]
  | wait batch deadline hw hlen hd =>
    simp only [act, loopTest, hw, hlen, if_true, if_neg (not_le.mpr (sub_pos.mpr hd))]
  | full batch deadline hw hd =>
    simp only [act, loopTest, hw]
    split_ifs with hlen hle
    · rfl
    · exact absurd hd (not_or.mpr ⟨not_le.mpr hlen, fun hd => hle (sub_nonpos.mpr hd)⟩)
    · rfl
  | collectNext batch deadline item queue hw hq => simp only [act, collectNext, hw, hq]
  | collectTimeout batch deadline hw hd => simp only [act, collectTimeout, hw, hd, if_true]
  | acquire batch hw hp => simp only [act, acquire, hw, hp, if_true]
  | dispatch batch hw => simp only [act, dispatch, hw]
  | callPredictFn k batch hk => simp only [act, callPredictFn, hk]
  | finish k b batch hk hb =>
    have hn : ¬ (b.isCancelled = true ∧ s.stopping = .notCalled) := fun hn => hb hn.1 hn.2
    simp only [act, finishBatch, hk, hn, if_false]
  | batchDone k batch b hk => simp only [act, onBatchDone, hk]
  | stop permits hs hp =>
    rw [hp]
    exact if_pos hs
  | stopReturn ks hs hk =>
    simp only [act, stopReturn, hs, if_pos (List.all_eq_true.mpr hk)]

/-- A step is an action at a clock reading that is not before the latest one. -/
lemma step_eq_some {e : ℚ × Action ρ} :
    step s e = some s' ↔ s.now ≤ e.1 ∧ act { s with now := e.1 } e.2 = some s' := by
  unfold step
  split_ifs with h <;> simp [h]

/-- **Every step is by a rule**, at a clock reading that is not before the latest one. -/
theorem step_effect {e : ℚ × Action ρ} (h : step s e = some s') :
    s.now ≤ e.1 ∧ Effect { s with now := e.1 } e.2 s' :=
  ⟨(step_eq_some.mp h).1, act_effect (step_eq_some.mp h).2⟩

/-! ## Futures -/

section Futures

variable {fs : List (Future ρ)} {v : Future ρ} {vs : List (ℕ × Future ρ)} {f i : ℕ}

/-- `settle` writes a pending future and no other. -/
lemma settle_cases (fs : List (Future ρ)) (f : ℕ) (v : Future ρ) (i : ℕ) :
    (i = f ∧ fs[i]? = some .pending ∧ (settle fs f v)[i]? = some v) ∨
      (¬ (i = f ∧ fs[i]? = some .pending) ∧ (settle fs f v)[i]? = fs[i]?) := by
  unfold settle
  split
  · rename_i hf
    by_cases hi : i = f
    · subst hi
      exact .inl ⟨rfl, hf, List.getElem?_set_self (List.getElem?_eq_some_iff.mp hf).1⟩
    · exact .inr ⟨fun h => hi h.1, List.getElem?_set_ne (Ne.symm hi)⟩
  · rename_i hf
    refine .inr ⟨?_, rfl⟩
    rintro ⟨rfl, hi⟩
    exact hf hi

@[simp] lemma settle_length : (settle fs f v).length = fs.length := by
  unfold settle
  split <;> simp

@[simp] lemma settleAll_length : (settleAll fs vs).length = fs.length := by
  induction vs generalizing fs with
  | nil => rfl
  | cons w vs ih =>
    show (settleAll (settle fs w.1 w.2) vs).length = fs.length
    rw [ih, settle_length]

@[simp] lemma deliver_length {batch : List Item} {o : Option (Except PyException (List ρ))} :
    (deliver fs batch o).length = fs.length := by
  unfold deliver
  split <;> simp

/-- A future keeps its value in a loop of `settle`, or it was pending and gets one of the values
meant for it. -/
lemma settleAll_cases (fs : List (Future ρ)) (vs : List (ℕ × Future ρ)) (i : ℕ) :
    (settleAll fs vs)[i]? = fs[i]? ∨
      fs[i]? = some .pending ∧ ∃ v, (i, v) ∈ vs ∧ (settleAll fs vs)[i]? = some v := by
  induction vs generalizing fs with
  | nil => exact .inl rfl
  | cons w vs ih =>
    show (settleAll (settle fs w.1 w.2) vs)[i]? = _ ∨ _ ∧ ∃ v, _ ∧
      (settleAll (settle fs w.1 w.2) vs)[i]? = _
    rcases settle_cases fs w.1 w.2 i with ⟨rfl, hp, hset⟩ | ⟨-, hset⟩
    · rcases ih (settle fs w.1 w.2) with h | ⟨-, v, hv, h⟩
      · exact .inr ⟨hp, w.2, List.mem_cons_self, h.trans hset⟩
      · exact .inr ⟨hp, v, List.mem_cons_of_mem _ hv, h⟩
    · rcases ih (settle fs w.1 w.2) with h | ⟨hp, v, hv, h⟩
      · exact .inl (h.trans hset)
      · exact .inr ⟨hset ▸ hp, v, List.mem_cons_of_mem _ hv, h⟩

/-- A future that is done keeps its value. -/
lemma settleAll_of_done (hf : fs[i]? = some v) (hv : v.done = true) :
    (settleAll fs vs)[i]? = some v := by
  rcases settleAll_cases fs vs i with h | ⟨hp, -⟩
  · exact h.trans hf
  · obtain rfl : v = .pending := Option.some.inj (hf.symm.trans hp)
    cases hv

end Futures

/-! ## One part of the state at a time -/

/-- The calls that an action logs. -/
def newCalls (s : InferenceBatcher args ρ) : Action ρ → List PredictCall
  | .predict text =>
    match s.circuitBreaker.check s.now with
    | (_, .error e) => [.rejected text e]
    | (cb, .ok ()) =>
      [.admitted text (cb.probeInFlight && !s.circuitBreaker.probeInFlight) s.futures.length]
  | _ => []

/-- A task of a list in which the task `j` has become `x`. -/
lemma task_set_cases {tasks : List (BatchTask ρ)} {j k : ℕ} {x t : BatchTask ρ}
    (h : (tasks.set j x)[k]? = some t) : j = k ∧ t = x ∨ j ≠ k ∧ tasks[k]? = some t := by
  by_cases hjk : j = k
  · subst hjk
    rw [List.getElem?_set, if_pos rfl] at h
    split_ifs at h
    exact .inl ⟨rfl, (Option.some.inj h).symm⟩
  · rw [List.getElem?_set_ne hjk] at h
    exact .inr ⟨hjk, h⟩

/-- A task of a list to which `x` has been added. -/
lemma task_append_cases {tasks : List (BatchTask ρ)} {k : ℕ} {x t : BatchTask ρ}
    (h : (tasks ++ [x])[k]? = some t) : k = tasks.length ∧ t = x ∨ tasks[k]? = some t := by
  rcases Nat.lt_or_ge k tasks.length with hlt | hge
  · rw [List.getElem?_append_left hlt] at h
    exact .inr h
  · rw [List.getElem?_append_right hge, List.getElem?_singleton] at h
    split_ifs at h
    exact .inl ⟨by omega, (Option.some.inj h).symm⟩

namespace Effect

/-- An action does not move the clock. -/
lemma now_eq (h : Effect s a s') : s'.now = s.now := by
  cases h <;> rfl

/-- The log of calls only grows, by the calls of `predict`. -/
lemma calls_eq (h : Effect s a s') : s'.calls = s.calls ++ newCalls s a := by
  cases h with
  | reject text cb e hc => simp [newCalls, hc]
  | accept text cb hc => simp [newCalls, hc]
  | _ => exact (List.append_nil _).symm

/-- The heap of futures grows by one for each admission and never shrinks. -/
lemma futures_length (h : Effect s a s') : s.futures.length ≤ s'.futures.length := by
  cases h with
  | accept text cb hc => simp
  | cancel f => simp
  | finish k b batch hk hb => simp
  | _ => exact le_rfl

/-- The tasks after an action: the same, or one more, or one of them moved. -/
lemma tasks_cases (h : Effect s a s') :
    s'.tasks = s.tasks ∨
    (∃ batch, s.worker = .dispatch batch ∧ s'.tasks = s.tasks ++ [⟨batch, .created⟩]) ∨
    (∃ k batch p q, s.tasks[k]? = some ⟨batch, p⟩ ∧ p.Moves q ∧
      s'.tasks = s.tasks.set k ⟨batch, q⟩) := by
  cases h with
  | dispatch batch hw => exact .inr (.inl ⟨batch, hw, rfl⟩)
  | callPredictFn k batch hk => exact .inr (.inr ⟨k, batch, _, _, hk, .call, rfl⟩)
  | finish k b batch hk hb => exact .inr (.inr ⟨k, batch, _, _, hk, .finish b, rfl⟩)
  | batchDone k batch b hk => exact .inr (.inr ⟨k, batch, _, _, hk, .reap b, rfl⟩)
  | _ => exact .inl rfl

/-- A task keeps its index and its batch, and stays where it stands or moves on. -/
lemma tasks_getElem? (h : Effect s a s') {k : ℕ} {batch : List Item} {p : TaskPhase ρ}
    (hk : s.tasks[k]? = some ⟨batch, p⟩) :
    ∃ q, s'.tasks[k]? = some ⟨batch, q⟩ ∧ (q = p ∨ p.Moves q) := by
  have hlt := (List.getElem?_eq_some_iff.mp hk).1
  rcases h.tasks_cases with he | ⟨b, -, he⟩ | ⟨j, b, p', q, hj, hm, he⟩ <;> rw [he]
  · exact ⟨p, hk, .inl rfl⟩
  · exact ⟨p, by rw [List.getElem?_append_left hlt, hk], .inl rfl⟩
  · by_cases hjk : j = k
    · subst hjk
      obtain ⟨rfl, rfl⟩ : batch = b ∧ p = p' := by simpa using hk.symm.trans hj
      exact ⟨q, List.getElem?_set_self hlt, .inr hm⟩
    · exact ⟨p, by rw [List.getElem?_set_ne hjk, hk], .inl rfl⟩

end Effect

end InferenceBatcher

end InferenceServer
