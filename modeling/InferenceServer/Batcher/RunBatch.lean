import InferenceServer.Batcher.Answers
import InferenceServer.Python.Statement

set_option relaxedAutoImplicit false
set_option autoImplicit false

/-!
# `_run_batch`, statement by statement

The machine of `Batcher/Basic.lean` ends a batch in one step. Here `_run_batch` is written as in
the source, with its `try`, `except` and `finally` clauses, on the futures and a record of the
calls that it makes to the breaker; and the step of the machine is what it does.

## Main definitions

* `BatchState` — what the statements of `_run_batch` work on.
* `InferenceBatcher.runBatch` — `_run_batch`.
* `InferenceBatcher.Settled` — what it promises.
* `InferenceBatcher.Conveyed` — what `predict_fn` raises reaches the futures.

## Main results

* `InferenceBatcher.runBatch_eq` — what it does, in terms of the outcome of the batch.
* `InferenceBatcher.finish_runBatch` — the machine ends a batch by it.
* `InferenceBatcher.run_batch_settles` — every future is settled and one outcome is recorded,
  exactly when the exception is conveyed.
-/

namespace InferenceServer

/-- What the statements of `_run_batch` work on: the futures, and the calls to the breaker so
far. -/
structure BatchState (ρ : Type) where
  futures : List (Future ρ)
  calls : List CircuitBreaker.Call
  deriving DecidableEq

namespace InferenceBatcher

variable {args : BatcherArgs} {ρ : Type} {s s' : InferenceBatcher args ρ}

/-! ## The statements -/

/-- `if not future.done(): future.set_result(...)`, or `set_exception`. -/
def settleFuture (f : ℕ) (v : Future ρ) : Stmt PyException (BatchState ρ) :=
  .assign fun st => { st with futures := settle st.futures f v }

/-- A call to the breaker. -/
def callBreaker (c : CircuitBreaker.Call) : Stmt PyException (BatchState ρ) :=
  .assign fun st => { st with calls := st.calls ++ [c] }

/-- `results = await asyncio.to_thread(self.predict_fn, texts)`. Meanwhile the callers that await
the futures `gone` are cancelled. -/
def awaitPredictFn (gone : List ℕ) (b : Behaviour ρ)
    (rest : List ρ → Stmt PyException (BatchState ρ)) : Stmt PyException (BatchState ρ) :=
  .seq (.assign fun st =>
      { st with futures := settleAll st.futures (gone.map fun f => (f, .cancelled)) })
    (match b.delivered with
      | .returned results => rest results
      | .raised e => .raise e
      | .cancelled => .cancel)

/-- The `try` clause. -/
def tryClause (futures : List ℕ) (gone : List ℕ) (b : Behaviour ρ) :
    Stmt PyException (BatchState ρ) :=
  awaitPredictFn gone b fun results =>
    if results.length ≠ futures.length then
      .raise (arityError results.length futures.length)
    else
      .seq (callBreaker .recordSuccess)
        (.forEach (futures.zip results) fun p => settleFuture p.1 (.result p.2))

/-- The `except` clause. -/
def exceptClause (futures : List ℕ) (e : PyException) : Stmt PyException (BatchState ρ) :=
  .seq (callBreaker .recordFailure) (.forEach futures fun f => settleFuture f (.exception e))

/-- The `finally` clause. -/
def finallyClause (futures : List ℕ) : Stmt PyException (BatchState ρ) :=
  .forEach futures fun f => settleFuture f (.exception noResultError)

/-- `_run_batch`. -/
def runBatch (batch : List Item) (gone : List ℕ) (b : Behaviour ρ) :
    Stmt PyException (BatchState ρ) :=
  let futures := batch.map Item.future
  .tryFinally (.tryExcept (tryClause futures gone b) (exceptClause futures))
    (finallyClause futures)

/-! ## What they do -/

/-- A loop of `settleFuture` is a loop of `settle`. -/
lemma forEach_settleFuture {α : Type} (xs : List α) (f : α → ℕ) (v : α → Future ρ)
    (st : BatchState ρ) :
    Stmt.forEach xs (fun x => settleFuture (f x) (v x)) st =
      (.normal, { st with futures := settleAll st.futures (xs.map fun x => (f x, v x)) }) := by
  induction xs generalizing st with
  | nil => rfl
  | cons x xs ih =>
    have hx : settleFuture (f x) (v x) st =
        (.normal, { st with futures := settle st.futures (f x) (v x) }) := rfl
    exact (Stmt.forEach_cons_of_normal (fun x => settleFuture (f x) (v x)) hx).trans (ih _)

/-- What a call to the breaker does here. -/
lemma callBreaker_eq (c : CircuitBreaker.Call) (st : BatchState ρ) :
    callBreaker c st = (.normal, { st with calls := st.calls ++ [c] }) := rfl

/-- What the `except` clause does. -/
lemma exceptClause_eq (batch : List Item) (e : PyException) (st : BatchState ρ) :
    exceptClause (batch.map Item.future) e st =
      (.normal,
        { futures := settleAll st.futures (batch.map fun it => (it.future, .exception e))
          calls := st.calls ++ [.recordFailure] }) := by
  rw [exceptClause, Stmt.seq_of_normal (callBreaker_eq _ st), forEach_settleFuture, List.map_map]
  rfl

/-- What the `finally` clause does. -/
lemma finallyClause_eq (batch : List Item) (st : BatchState ρ) :
    finallyClause (batch.map Item.future) st =
      (.normal,
        { st with
          futures := settleAll st.futures
            (batch.map fun it => (it.future, .exception noResultError)) }) := by
  rw [finallyClause, forEach_settleFuture, List.map_map]
  rfl

/-- The calls to the breaker that record an outcome. -/
def recordCalls : Option (Except PyException (List ρ)) → List CircuitBreaker.Call
  | some (.ok _) => [.recordSuccess]
  | some (.error _) => [.recordFailure]
  | none => []

/-- How `_run_batch` completes: an exception does not leave it, a cancellation does. -/
def completion : Option (Except PyException (List ρ)) → Completion PyException
  | some _ => .normal
  | none => .cancelled

/-- The futures when the `await` is over: those of the callers that have gone are cancelled. -/
def whenAwaited (futures : List (Future ρ)) (gone : List ℕ) : List (Future ρ) :=
  settleAll futures (gone.map fun f => (f, .cancelled))

/-- **What the `try` and `except` clauses do**: they make the call that records the outcome, and
give the outcome to the futures.

**Proof sketch.** One case for each way in which the `await` ends, and for a list of rows one for
each verdict of the arity check. -/
theorem tryExcept_eq (batch : List Item) (gone : List ℕ) (b : Behaviour ρ) (st : BatchState ρ) :
    Stmt.tryExcept (tryClause (batch.map Item.future) gone b)
        (exceptClause (batch.map Item.future)) st =
      (completion (outcome batch.length b),
        { futures := deliver (whenAwaited st.futures gone) batch (outcome batch.length b)
          calls := st.calls ++ recordCalls (outcome batch.length b) }) := by
  have hawait : ∀ rest : List ρ → Stmt PyException (BatchState ρ),
      awaitPredictFn gone b rest st =
        (match b.delivered with
          | .returned results => rest results
          | .raised e => .raise e
          | .cancelled => .cancel) { st with futures := whenAwaited st.futures gone } :=
    fun rest => Stmt.seq_of_normal rfl
  cases hb : b.delivered with
  | returned results =>
    simp only [hb] at hawait
    by_cases hn : results.length = batch.length
    · have ho : outcome batch.length b = some (.ok results) := by
        simp [outcome, hb, hn]
      have htry : tryClause (batch.map Item.future) gone b st =
          (.normal,
            { futures := deliver (whenAwaited st.futures gone) batch (some (.ok results))
              calls := st.calls ++ [.recordSuccess] }) := by
        rw [tryClause, hawait]
        simp only [List.length_map, hn, ne_eq, not_true_eq_false, if_false]
        rw [Stmt.seq_of_normal (callBreaker_eq _ _), forEach_settleFuture, deliver,
          List.zip_map_right]
        rfl
      rw [Stmt.tryExcept_of_normal htry, ho]
      rfl
    · have ho : outcome batch.length b =
          some (.error (arityError results.length batch.length)) := by
        simp [outcome, hb, hn]
      have htry : tryClause (batch.map Item.future) gone b st =
          (.raised (arityError results.length batch.length),
            { st with futures := whenAwaited st.futures gone }) := by
        rw [tryClause, hawait]
        simp [hn, Stmt.raise]
      rw [Stmt.tryExcept_of_raised htry, exceptClause_eq, ho]
      rfl
  | raised e =>
    simp only [hb] at hawait
    have ho : outcome batch.length b = some (.error e) := by simp [outcome, hb]
    have htry : tryClause (batch.map Item.future) gone b st =
        (.raised e, { st with futures := whenAwaited st.futures gone }) := hawait _
    rw [Stmt.tryExcept_of_raised htry, exceptClause_eq, ho]
    rfl
  | cancelled =>
    simp only [hb] at hawait
    have ho : outcome batch.length b = none := by simp [outcome, hb]
    have htry : tryClause (batch.map Item.future) gone b st =
        (.cancelled, { st with futures := whenAwaited st.futures gone }) := hawait _
    rw [Stmt.tryExcept_of_cancelled htry, ho]
    simp [completion, deliver, recordCalls]

/-- **What `_run_batch` does**: after the `try` and `except` clauses, what is still pending gets the
exception of the `finally` clause. -/
theorem runBatch_eq (batch : List Item) (gone : List ℕ) (b : Behaviour ρ) (st : BatchState ρ) :
    runBatch batch gone b st =
      (completion (outcome batch.length b),
        { futures := settleAll
            (deliver (whenAwaited st.futures gone) batch (outcome batch.length b))
            (batch.map fun it => (it.future, .exception noResultError))
          calls := st.calls ++ recordCalls (outcome batch.length b) }) :=
  Stmt.tryFinally_of_normal (tryExcept_eq batch gone b st) (finallyClause_eq batch _)

/-! ## What it promises -/

/-- What `_run_batch` promises of the futures and of its calls to the breaker. -/
structure Settled (futures : List (Future ρ)) (batch : List Item) (gone : List ℕ)
    (b : Behaviour ρ) (out : Completion PyException × BatchState ρ) : Prop where
  done : ∀ it ∈ batch, ∃ v, out.2.futures[it.future]? = some v ∧ v.done = true
  /-- done before the batch starts -/
  kept : ∀ (f : ℕ) (v : Future ρ), futures[f]? = some v → v.done = true → out.2.futures[f]? = some v
  /-- done when `predict_fn` ends -/
  kept_awaited : ∀ (f : ℕ) (v : Future ρ), (whenAwaited futures gone)[f]? = some v → v.done = true →
    out.2.futures[f]? = some v
  others : ∀ f : ℕ, (∀ it ∈ batch, it.future ≠ f) →
    out.2.futures[f]? = (whenAwaited futures gone)[f]?
  success : ∀ results, b = .returned results → results.length = batch.length →
    out.2.calls = [.recordSuccess] ∧ ∀ (i : ℕ) (it : Item), batch[i]? = some it →
      (whenAwaited futures gone)[it.future]? = some .pending →
        ∃ r, results[i]? = some r ∧ out.2.futures[it.future]? = some (.result r)
  arity : ∀ results, b = .returned results → results.length ≠ batch.length →
    out.2.calls = [.recordFailure] ∧ ∀ it ∈ batch,
      (whenAwaited futures gone)[it.future]? = some .pending →
        out.2.futures[it.future]? = some (.exception (arityError results.length batch.length))
  raised : ∀ e, b = .raised e →
    out.2.calls = [.recordFailure] ∧ ∀ it ∈ batch,
      (whenAwaited futures gone)[it.future]? = some .pending →
        out.2.futures[it.future]? = some (.exception e)
  cancelled : b = .cancelled → out.1 = .cancelled ∧ out.2.calls = []

/-- What `predict_fn` raises reaches the futures: it is not `concurrent.futures.CancelledError`, and
if another exception is put in its place, then no future waits for it. -/
def Conveyed (futures : List (Future ρ)) (batch : List Item) (gone : List ℕ) (b : Behaviour ρ) :
    Prop :=
  ∀ e, b = .raised e → e.cls ≠ .futuresCancelledError ∧
    (e.isReplaced = true →
      ∀ it ∈ batch, (whenAwaited futures gone)[it.future]? ≠ some .pending)

section RunBatch

variable {futures : List (Future ρ)} {batch : List Item} {gone : List ℕ} {b : Behaviour ρ}

/-- What is done when the `await` ends stays as it is. -/
lemma runBatch_keep {f : ℕ} {v : Future ρ} (hf : (whenAwaited futures gone)[f]? = some v)
    (hv : v.done = true) : (runBatch batch gone b ⟨futures, []⟩).2.futures[f]? = some v := by
  rw [runBatch_eq]
  exact finish_keep b hf hv

/-- What is pending when the `await` ends gets its answer. -/
lemma runBatch_answer (hnd : (batch.map Item.future).Nodup) {i : ℕ} {it : Item}
    (hit : batch[i]? = some it) (hp : (whenAwaited futures gone)[it.future]? = some .pending) :
    (runBatch batch gone b ⟨futures, []⟩).2.futures[it.future]? =
      some (answer batch.length b i) := by
  rw [runBatch_eq]
  exact finish_answer hnd b hit hp

/-- A failed batch: one `record_failure`, and the exception goes to whoever waits. -/
lemma runBatch_failure (futures : List (Future ρ)) (gone : List ℕ)
    (hnd : (batch.map Item.future).Nodup) {e : PyException}
    (ho : outcome batch.length b = some (.error e)) :
    (runBatch batch gone b ⟨futures, []⟩).2.calls = [.recordFailure] ∧ ∀ it ∈ batch,
      (whenAwaited futures gone)[it.future]? = some .pending →
        (runBatch batch gone b ⟨futures, []⟩).2.futures[it.future]? = some (.exception e) := by
  refine ⟨by rw [runBatch_eq, ho]; rfl, fun it hit hp => ?_⟩
  obtain ⟨i, hi⟩ := List.mem_iff_getElem?.mp hit
  rw [runBatch_answer hnd hi hp, answer, ho]

/-- **`_run_batch` keeps its promise** when the exception, if there is one, is conveyed.

**Proof sketch.** `runBatch_eq`; a future that is pending gets its answer (`finish_answer`), and one
that is done keeps its value (`finish_keep`). -/
theorem settled_runBatch (hnd : (batch.map Item.future).Nodup)
    (hlt : ∀ it ∈ batch, it.future < futures.length) (hc : Conveyed futures batch gone b) :
    Settled futures batch gone b (runBatch batch gone b ⟨futures, []⟩) := by
  refine ⟨?_, ?_, fun f v => runBatch_keep, ?_, ?_, ?_, ?_, ?_⟩
  · intro it hit
    obtain ⟨i, hi⟩ := List.mem_iff_getElem?.mp hit
    have hlen : it.future < (whenAwaited futures gone).length := by
      simpa [whenAwaited] using hlt it hit
    obtain ⟨v, hv⟩ : ∃ v, (whenAwaited futures gone)[it.future]? = some v :=
      ⟨_, List.getElem?_eq_getElem hlen⟩
    by_cases hd : v.done = true
    · exact ⟨v, runBatch_keep hv hd, hd⟩
    · rw [Future.eq_pending hd] at hv
      exact ⟨_, runBatch_answer hnd hi hv, answer_done _ _ _⟩
  · intro f v hf hv
    exact runBatch_keep (settleAll_of_done hf hv) hv
  · intro f hf
    rw [runBatch_eq]
    exact finish_other b hf
  · rintro results rfl hn
    have ho : outcome batch.length (.returned results) = some (.ok results) :=
      outcome_eq_ok.mpr ⟨rfl, hn⟩
    refine ⟨by rw [runBatch_eq, ho]; rfl, fun i it hi hp => ?_⟩
    have hlen : i < results.length := hn ▸ (List.getElem?_eq_some_iff.mp hi).1
    refine ⟨results[i], List.getElem?_eq_getElem hlen, ?_⟩
    rw [runBatch_answer hnd hi hp]
    simp only [answer, ho, List.getElem?_eq_getElem hlen]
  · rintro results rfl hn
    exact runBatch_failure futures gone hnd (by simp [outcome, Behaviour.delivered, hn])
  · rintro e rfl
    obtain ⟨hcls, hwait⟩ := hc e rfl
    obtain ⟨e', hd, he⟩ := Behaviour.delivered_of_ne_cancelledError (ρ := ρ) hcls
    have ho : outcome batch.length (.raised e : Behaviour ρ) = some (.error e') := by
      simp [outcome, hd]
    have hfail := runBatch_failure futures gone hnd ho
    cases hr : e.isReplaced with
    | false => exact he.mpr hr ▸ hfail
    | true => exact ⟨hfail.1, fun it hit hp => absurd hp (hwait hr it hit)⟩
  · rintro rfl
    rw [runBatch_eq]
    exact ⟨rfl, rfl⟩

/-- If it keeps its promise, the exception was conveyed: otherwise no failure is recorded, or who
waits for the exception gets another one. -/
lemma conveyed_of_settled (hnd : (batch.map Item.future).Nodup)
    (h : Settled futures batch gone b (runBatch batch gone b ⟨futures, []⟩)) :
    Conveyed futures batch gone b := by
  rintro e rfl
  obtain ⟨hcalls, hheld⟩ := h.raised e rfl
  have hcls : e.cls ≠ .futuresCancelledError := by
    intro hc
    have ho : outcome batch.length (.raised e : Behaviour ρ) = none := by
      simp [outcome, Behaviour.delivered_of_cancelledError hc]
    rw [runBatch_eq, ho] at hcalls
    cases hcalls
  refine ⟨hcls, fun hr it hit hp => ?_⟩
  obtain ⟨e', hd, he⟩ := Behaviour.delivered_of_ne_cancelledError (ρ := ρ) hcls
  have ho : outcome batch.length (.raised e : Behaviour ρ) = some (.error e') := by
    simp [outcome, hd]
  have hother := (runBatch_failure futures gone hnd ho).2 it hit hp
  have hsame : e' = e := by simpa [hother] using hheld it hit hp
  cases (he.mp hsame).symm.trans hr

end RunBatch

/-! ## The machine -/

/-- **The machine ends a batch by `_run_batch`**: the futures afterwards are those that its
statements leave, and the breaker has taken its calls.

**Proof sketch.** The rule `finish`, and `runBatch_eq` with nobody cancelled after the `await`. -/
theorem finish_runBatch {k : ℕ} {b : Behaviour ρ} {t : ℚ} (h : step s (t, .finish k b) = some s') :
    ∃ batch, s.tasks[k]? = some ⟨batch, .running⟩ ∧
      s'.futures = (runBatch batch [] b ⟨s.futures, []⟩).2.futures ∧
      s'.circuitBreaker = (runBatch batch [] b ⟨s.futures, []⟩).2.calls.foldl
        (fun cb c => (cb.perform t c).1) s.circuitBreaker := by
  obtain ⟨-, heff⟩ := step_effect h
  cases heff with
  | finish _ _ batch hk hb =>
    refine ⟨batch, hk, ?_, ?_⟩
    · rw [runBatch_eq]
      rfl
    · rw [runBatch_eq]
      show record _ _ (outcome batch.length b) = _
      cases ho : outcome batch.length b with
      | none => rfl
      | some o => cases o <;> rfl

/-- **When `_run_batch` settles every request and records one outcome.** For every batch without
duplicates on every heap of futures, whichever of them are done or become so while `predict_fn`
runs, it keeps its promise (`Settled`) exactly when what `predict_fn` raises, if it does, reaches
the futures (`Conveyed`). In every run the batcher ends each batch by it, on a batch that is not
empty, has no duplicates and is on the heap.

**Proof sketch.** `settled_runBatch` and `conveyed_of_settled`; and `finish_runBatch` with the
invariant `FlowInv` of the runs. -/
theorem run_batch_settles (args : BatcherArgs) (ρ : Type) :
    (∀ (futures : List (Future ρ)) (batch : List Item) (gone : List ℕ) (b : Behaviour ρ),
      (batch.map Item.future).Nodup → (∀ it ∈ batch, it.future < futures.length) →
        (Settled futures batch gone b (runBatch batch gone b ⟨futures, []⟩) ↔
          Conveyed futures batch gone b)) ∧
    (∀ (t₀ t : ℚ) (es : List (ℚ × Action ρ)) (s s' : InferenceBatcher args ρ) (k : ℕ)
      (b : Behaviour ρ), Machine.exec step (new args ρ t₀) es = some s →
      step s (t, .finish k b) = some s' →
        ∃ batch, s.tasks[k]? = some ⟨batch, .running⟩ ∧ batch ≠ [] ∧
          (batch.map Item.future).Nodup ∧ (∀ it ∈ batch, it.future < s.futures.length) ∧
          s'.futures = (runBatch batch [] b ⟨s.futures, []⟩).2.futures ∧
          s'.circuitBreaker = (runBatch batch [] b ⟨s.futures, []⟩).2.calls.foldl
            (fun cb c => (cb.perform t c).1) s.circuitBreaker) := by
  refine ⟨fun futures batch gone b hnd hlt =>
    ⟨conveyed_of_settled hnd, settled_runBatch hnd hlt⟩, ?_⟩
  intro t₀ t es s s' k b hrun hstep
  have hi : FlowInv s := flowInv_exec hrun
  obtain ⟨batch, hk, hfutures, hbreaker⟩ := finish_runBatch hstep
  refine ⟨batch, hk, ?_, hi.batch_nodup hk, ?_, hfutures, hbreaker⟩
  · have hsize := (hi.sizes batch (List.mem_map.mpr ⟨_, List.mem_of_getElem? hk, rfl⟩)).1
    rintro rfl
    simp at hsize
  · intro it hit
    exact hi.future_lt (FlowInv.mem_flow hk hit)

/-- In a batch of three, the caller of the first request has gone before, and the one of the second
goes while `predict_fn` runs: the third request gets the third row. -/
theorem run_batch_settles_gone :
    (runBatch [⟨"a", 0⟩, ⟨"b", 1⟩, ⟨"c", 2⟩] [1] (.returned [10, 20, 30])
      ⟨[.cancelled, .pending, .pending], []⟩).2 =
        ⟨[.cancelled, .cancelled, .result 30], [.recordSuccess]⟩ ∧
    ∃ r, [10, 20, 30][2]? = some r ∧
      (runBatch [⟨"a", 0⟩, ⟨"b", 1⟩, ⟨"c", 2⟩] [1] (.returned [10, 20, 30])
        ⟨[.cancelled, .pending, .pending], []⟩).2.futures[2]? = some (.result r) := by
  have h := ((run_batch_settles {} ℕ).1 [.cancelled, .pending, .pending]
    [⟨"a", 0⟩, ⟨"b", 1⟩, ⟨"c", 2⟩] [1] (.returned [10, 20, 30]) (by decide) (by decide)).mpr nofun
  exact ⟨by decide, (h.success _ rfl rfl).2 2 ⟨"c", 2⟩ rfl rfl⟩

/-- `concurrent.futures.CancelledError` from `predict_fn` is not recorded, and the request gets the
exception of the `finally` clause; for `StopIteration` it gets a `RuntimeError`. -/
theorem run_batch_settles_swallowed :
    (runBatch (ρ := ℕ) [⟨"a", 0⟩] [] (.raised ⟨.futuresCancelledError, ""⟩) ⟨[.pending], []⟩ =
        (.cancelled, ⟨[.exception noResultError], []⟩) ∧
      ¬ Settled (ρ := ℕ) [.pending] [⟨"a", 0⟩] [] (.raised ⟨.futuresCancelledError, ""⟩)
        (runBatch [⟨"a", 0⟩] [] (.raised ⟨.futuresCancelledError, ""⟩) ⟨[.pending], []⟩)) ∧
    runBatch (ρ := ℕ) [⟨"a", 0⟩] [] (.raised ⟨.stopIteration, ""⟩) ⟨[.pending], []⟩ =
      (.normal, ⟨[.exception stopIterationError], [.recordFailure]⟩) := by
  refine ⟨⟨by decide, fun h => ?_⟩, by decide⟩
  cases (h.raised _ rfl).1

end InferenceBatcher

end InferenceServer
