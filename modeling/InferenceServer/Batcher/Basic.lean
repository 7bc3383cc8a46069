import InferenceServer.CircuitBreaker.Basic

set_option relaxedAutoImplicit false
set_option autoImplicit false

/-!
# The request batcher (`app/batcher.py`)

`InferenceBatcher` as a machine. A step is what the event loop runs between two suspensions of
one task: a whole `predict` up to `await future` (the queue is unbounded, so its `put` does not
suspend), one move of the collector, the start or the rest of one `_run_batch`, a done-callback,
a cancellation, or a call of `start` and `stop`. Every interleaving of these, at non-decreasing
clock readings, is a run.

## Main definitions

* `InferenceBatcher` — the object, with the futures, tasks and calls that it has created.
* `Worker` — where `_worker_loop` stands, and the batch it holds there.
* `Behaviour`, `Behaviour.delivered` — what `predict_fn` does with a batch, and what arrives of it.
* `InferenceBatcher.predict`, `collectFirst`, `loopTest`, `collectNext`, `collectTimeout`,
  `acquire`, `dispatch`, `callPredictFn`, `finishBatch`, `onBatchDone`, `stop` — the steps.
* `InferenceBatcher.step` — the machine.

## Design

Objects that Python would drop stay in lists that only grow: `calls` records each call of
`predict` with the verdict of `check`, `futures` is the heap of futures, and `tasks` has one entry
for each dispatched batch, in dispatch order. A future or a task is named by its index. A cancelled
collector keeps in `Worker.cancelled` the batch it dropped. `start` and `stop` are called at most
once, as `main.py` calls them. What the metrics of the batcher observe is in `Batcher/Metrics.lean`,
next to a run of this machine; no step reads them.
-/

namespace InferenceServer

/-- The arguments of `InferenceBatcher.__init__`. -/
structure BatcherArgs where
  batchSize : ℤ := 8
  timeoutMs : ℚ := 20
  maxConcurrentBatches : ℕ := 4
  breaker : BreakerArgs := {}
  deriving DecidableEq, Repr

/-- `self.timeout_s`. -/
def BatcherArgs.timeoutS (args : BatcherArgs) : ℚ := args.timeoutMs / 1000

/-- A pair `(text, future)` of the queue. -/
structure Item where
  text : String
  future : ℕ
  deriving DecidableEq, Repr

/-- An `asyncio.Future` for a result row. -/
inductive Future (ρ : Type)
  | pending
  | result (r : ρ)
  | exception (e : PyException)
  | cancelled
  deriving DecidableEq, Repr

/-- `future.done()`. -/
def Future.done {ρ : Type} : Future ρ → Bool
  | .pending => false
  | _ => true

/-- A future that is not done is pending. -/
lemma Future.eq_pending {ρ : Type} {v : Future ρ} (h : ¬ v.done = true) : v = .pending := by
  cases v with
  | pending => rfl
  | _ => exact absurd rfl h

/-- A call of `predict` after its `check`: rejected with the exception that `check` raised, or
admitted, as the probe if `check` claimed the token for it, with the future created for it. -/
inductive PredictCall
  | rejected (text : String) (e : PyException)
  | admitted (text : String) (probe : Bool) (future : ℕ)
  deriving DecidableEq, Repr

/-- What `predict_fn` does with a batch, unless the task that waits for it is cancelled before. -/
inductive Behaviour (ρ : Type)
  | returned (results : List ρ)
  | raised (e : PyException)
  | cancelled
  deriving DecidableEq, Repr

/-- The task was cancelled while it waited. -/
def Behaviour.isCancelled {ρ : Type} : Behaviour ρ → Bool
  | .cancelled => true
  | _ => false

/-- What an `asyncio.Future` holds when it is given a `StopIteration`. -/
def stopIterationError : PyException where
  cls := .runtimeError
  message := "StopIteration interacts badly with generators and cannot be raised into a Future"

/-- How `await asyncio.to_thread(self.predict_fn, texts)` ends. An exception goes through the future
of the executor into one of asyncio, which converts two classes to its own: `CancelledError` comes
out as `asyncio.CancelledError`, which is no `Exception`. -/
def Behaviour.delivered {ρ : Type} : Behaviour ρ → Behaviour ρ
  | .raised e =>
    match e.cls with
    | .futuresCancelledError => .cancelled
    | .futuresInvalidStateError => .raised { e with cls := .other }
    | .stopIteration => .raised stopIterationError
    | _ => .raised e
  | b => b

/-- `concurrent.futures.CancelledError` arrives as a cancellation. -/
lemma Behaviour.delivered_of_cancelledError {ρ : Type} {e : PyException}
    (h : e.cls = .futuresCancelledError) : (raised e : Behaviour ρ).delivered = .cancelled := by
  simp [delivered, h]

/-- Another exception is put in its place when it arrives. -/
def PyException.isReplaced (e : PyException) : Bool :=
  match e.cls with
  | .stopIteration => true
  | .futuresInvalidStateError => true
  | _ => false

/-- Every other exception arrives as an exception: itself, or the one put in its place. -/
lemma Behaviour.delivered_of_ne_cancelledError {ρ : Type} {e : PyException}
    (h : e.cls ≠ .futuresCancelledError) :
    ∃ e', (raised e : Behaviour ρ).delivered = .raised e' ∧
      (e' = e ↔ e.isReplaced = false) := by
  obtain ⟨cls, message⟩ := e
  cases cls with
  | futuresCancelledError => exact absurd rfl h
  | _ => exact ⟨_, rfl, by simp [PyException.isReplaced, stopIterationError]⟩

/-- A list arrives as it was returned. -/
lemma Behaviour.delivered_eq_returned {ρ : Type} {b : Behaviour ρ} {results : List ρ} :
    b.delivered = .returned results ↔ b = .returned results := by
  cases b with
  | raised e =>
    simp only [delivered, reduceCtorEq, iff_false]
    split <;> simp
  | _ => rfl

/-- Where a `_run_batch` task stands: created, waiting for `predict_fn`, ended, or ended with its
done-callback run. -/
inductive TaskPhase (ρ : Type)
  | created
  | running
  | finished (b : Behaviour ρ)
  | reaped (b : Behaviour ρ)
  deriving DecidableEq, Repr

/-- A `_run_batch` task. -/
structure BatchTask (ρ : Type) where
  batch : List Item
  phase : TaskPhase ρ
  deriving DecidableEq, Repr

/-- Where `_worker_loop` stands. -/
inductive Worker
  /-- `start()` has not been called -/
  | notStarted
  /-- `batch = [await self.queue.get()]` -/
  | awaitFirst
  /-- the head of the loop in `_collect_batch` -/
  | loopHead (batch : List Item) (deadline : ℚ)
  /-- `await asyncio.wait_for(self.queue.get(), timeout=remaining)` -/
  | waitFor (batch : List Item) (deadline : ℚ)
  /-- `await self._sem.acquire()` -/
  | acquire (batch : List Item)
  /-- the permit is taken, before `asyncio.create_task` -/
  | dispatch (batch : List Item)
  /-- cancelled by `stop()`, having dropped `batch` -/
  | cancelled (batch : List Item)
  deriving DecidableEq, Repr

/-- The items that the collector has taken from the queue and not dispatched. -/
def Worker.held : Worker → List Item
  | .notStarted => []
  | .awaitFirst => []
  | .loopHead batch _ => batch
  | .waitFor batch _ => batch
  | .acquire batch => batch
  | .dispatch batch => batch
  | .cancelled batch => batch

/-- The collector after `self._worker_task.cancel()`. -/
def Worker.cancel : Worker → Worker
  | .notStarted => .notStarted
  | w => .cancelled w.held

/-- Where `stop()` stands: not called, waiting for the tasks that were in flight, returned. -/
inductive Stopping
  | notCalled
  | gathering (tasks : List ℕ)
  | returned
  deriving DecidableEq, Repr

/-- An `InferenceBatcher`, the calls, futures and tasks so far, and the latest clock reading. -/
structure InferenceBatcher (args : BatcherArgs) (ρ : Type) where
  queue : List Item
  permits : ℕ
  inflight : List ℕ
  worker : Worker
  circuitBreaker : CircuitBreaker args.breaker
  calls : List PredictCall
  futures : List (Future ρ)
  tasks : List (BatchTask ρ)
  stopping : Stopping
  now : ℚ
  deriving DecidableEq, Repr

/-- What the event loop may run next. -/
inductive Action (ρ : Type)
  /-- `start()` -/
  | start
  /-- a caller enters `predict(text)` -/
  | predict (text : String)
  /-- the caller that awaits the future `f` is cancelled -/
  | cancel (f : ℕ)
  /-- `status()` or a read of `state` -/
  | poll
  | collectFirst
  | loopTest
  | collectNext
  | collectTimeout
  | acquire
  | dispatch
  /-- task `k` runs up to its `await` of `predict_fn` -/
  | callPredictFn (k : ℕ)
  /-- `predict_fn` ends and task `k` runs to its end -/
  | finish (k : ℕ) (b : Behaviour ρ)
  /-- the done-callback of task `k` -/
  | batchDone (k : ℕ)
  /-- `stop()` -/
  | stop
  /-- the `gather` in `stop()` completes -/
  | stopReturn
  deriving DecidableEq, Repr

namespace InferenceBatcher

variable {args : BatcherArgs} {ρ : Type}

/-- `InferenceBatcher.__init__`. -/
def new (args : BatcherArgs) (ρ : Type) (now : ℚ) : InferenceBatcher args ρ where
  queue := []
  permits := args.maxConcurrentBatches
  inflight := []
  worker := .notStarted
  circuitBreaker := .new args.breaker
  calls := []
  futures := []
  tasks := []
  stopping := .notCalled
  now := now

/-! ## The steps -/

/-- `start`. -/
def start (s : InferenceBatcher args ρ) : Option (InferenceBatcher args ρ) :=
  if s.worker = .notStarted ∧ s.stopping = .notCalled then some { s with worker := .awaitFirst }
  else none

/-- `predict` up to `await future`: the object afterwards, and the future or the exception. -/
def predict (s : InferenceBatcher args ρ) (text : String) :
    InferenceBatcher args ρ × Except PyException ℕ :=
  match s.circuitBreaker.check s.now with
  | (cb, .error e) =>
    ({ s with circuitBreaker := cb, calls := s.calls ++ [.rejected text e] }, .error e)
  | (cb, .ok ()) =>
    let future := s.futures.length
    ({ s with
        circuitBreaker := cb
        calls := s.calls ++
          [.admitted text (cb.probeInFlight && !s.circuitBreaker.probeInFlight) future]
        futures := s.futures ++ [.pending]
        queue := s.queue ++ [⟨text, future⟩] }, .ok future)

/-- `if not future.done(): future.set_result(...)`, or `set_exception`, or `cancel`. -/
def settle (futures : List (Future ρ)) (f : ℕ) (v : Future ρ) : List (Future ρ) :=
  match futures[f]? with
  | some .pending => futures.set f v
  | _ => futures

/-- A `for` loop of `settle`. -/
def settleAll (futures : List (Future ρ)) (vs : List (ℕ × Future ρ)) : List (Future ρ) :=
  vs.foldl (fun fs v => settle fs v.1 v.2) futures

/-- The cancellation of a caller that awaits `future`. -/
def cancelCaller (s : InferenceBatcher args ρ) (f : ℕ) : InferenceBatcher args ρ :=
  { s with futures := settle s.futures f .cancelled }

/-- `batch = [await self.queue.get()]` and `deadline = time.monotonic() + self.timeout_s`. -/
def collectFirst (s : InferenceBatcher args ρ) : Option (InferenceBatcher args ρ) :=
  match s.worker, s.queue with
  | .awaitFirst, item :: queue =>
    some { s with worker := .loopHead [item] (s.now + args.timeoutS), queue := queue }
  | _, _ => none

/-- The head of the loop of `_collect_batch`: leave it when the batch is full or no time
remains, else wait for an item. -/
def loopTest (s : InferenceBatcher args ρ) : Option (InferenceBatcher args ρ) :=
  match s.worker with
  | .loopHead batch deadline =>
    if (batch.length : ℤ) < args.batchSize then
      if deadline - s.now ≤ 0 then some { s with worker := .acquire batch }
      else some { s with worker := .waitFor batch deadline }
    else some { s with worker := .acquire batch }
  | _ => none

/-- `batch.append(await asyncio.wait_for(...))`. -/
def collectNext (s : InferenceBatcher args ρ) : Option (InferenceBatcher args ρ) :=
  match s.worker, s.queue with
  | .waitFor batch deadline, item :: queue =>
    some { s with worker := .loopHead (batch ++ [item]) deadline, queue := queue }
  | _, _ => none

/-- `except asyncio.TimeoutError: break`, not before the deadline. -/
def collectTimeout (s : InferenceBatcher args ρ) : Option (InferenceBatcher args ρ) :=
  match s.worker with
  | .waitFor batch deadline =>
    if deadline ≤ s.now then some { s with worker := .acquire batch } else none
  | _ => none

/-- `await self._sem.acquire()`, blocked while no permit is free. -/
def acquire (s : InferenceBatcher args ρ) : Option (InferenceBatcher args ρ) :=
  match s.worker with
  | .acquire batch =>
    if 0 < s.permits then
      some { s with worker := .dispatch batch, permits := s.permits - 1 }
    else none
  | _ => none

/-- `asyncio.create_task(self._run_batch(batch))` and `self._inflight.add(task)`. -/
def dispatch (s : InferenceBatcher args ρ) : Option (InferenceBatcher args ρ) :=
  match s.worker with
  | .dispatch batch =>
    some
      { s with
        worker := .awaitFirst
        tasks := s.tasks ++ [⟨batch, .created⟩]
        inflight := s.inflight ++ [s.tasks.length] }
  | _ => none

/-- `_run_batch` up to its `await`: the batch is handed to `predict_fn`. -/
def callPredictFn (s : InferenceBatcher args ρ) (k : ℕ) : Option (InferenceBatcher args ρ) :=
  match s.tasks[k]? with
  | some ⟨batch, .created⟩ => some { s with tasks := s.tasks.set k ⟨batch, .running⟩ }
  | _ => none

/-- The `RuntimeError` of the arity check. -/
def arityError (results inputs : ℕ) : PyException where
  cls := .runtimeError
  message := "predict_fn returned " ++ toString results ++ " results for " ++ toString inputs ++
    " inputs"

/-- The `RuntimeError` of the `finally` clause. -/
def noResultError : PyException where
  cls := .runtimeError
  message := "batch completed without producing a result"

/-- The outcome that `_run_batch` records for a batch of `n` items: the rows if there is one for
each item, the exception otherwise, nothing if the `await` ends with a cancellation. -/
def outcome (n : ℕ) (b : Behaviour ρ) : Option (Except PyException (List ρ)) :=
  match b.delivered with
  | .returned results =>
    if results.length ≠ n then some (.error (arityError results.length n)) else some (.ok results)
  | .raised e => some (.error e)
  | .cancelled => none

/-- The breaker after an outcome is recorded. -/
def record (cb : CircuitBreaker args.breaker) (now : ℚ) :
    Option (Except PyException (List ρ)) → CircuitBreaker args.breaker
  | some (.ok _) => cb.recordSuccess
  | some (.error _) => cb.recordFailure now
  | none => cb

/-- The futures of `batch` after the `try` and `except` clauses. -/
def deliver (futures : List (Future ρ)) (batch : List Item) :
    Option (Except PyException (List ρ)) → List (Future ρ)
  | some (.ok results) =>
    settleAll futures ((batch.map Item.future).zip (results.map .result))
  | some (.error e) => settleAll futures (batch.map fun it => (it.future, .exception e))
  | none => futures

/-- The rest of `_run_batch`, from the end of its `await` on. -/
def finishBatch (s : InferenceBatcher args ρ) (k : ℕ) (b : Behaviour ρ) :
    Option (InferenceBatcher args ρ) :=
  match s.tasks[k]? with
  | some ⟨batch, .running⟩ =>
    -- nobody cancels the task itself before `stop()`
    if b.isCancelled ∧ s.stopping = .notCalled then none
    else
      let o := outcome batch.length b
      some
        { s with
          circuitBreaker := record s.circuitBreaker s.now o
          futures := settleAll (deliver s.futures batch o)
            (batch.map fun it => (it.future, .exception noResultError))
          tasks := s.tasks.set k ⟨batch, .finished b⟩ }
  | _ => none

/-- `_on_batch_done`. -/
def onBatchDone (s : InferenceBatcher args ρ) (k : ℕ) : Option (InferenceBatcher args ρ) :=
  match s.tasks[k]? with
  | some ⟨batch, .finished b⟩ =>
    some
      { s with
        tasks := s.tasks.set k ⟨batch, .reaped b⟩
        inflight := s.inflight.erase k
        permits := s.permits + 1 }
  | _ => none

/-- `stop` up to its `gather`; a permit that the collector has taken goes back. -/
def stop (s : InferenceBatcher args ρ) : Option (InferenceBatcher args ρ) :=
  if s.stopping = .notCalled then
    some
      { s with
        worker := s.worker.cancel
        permits := match s.worker with
          | .dispatch _ => s.permits + 1
          | _ => s.permits
        stopping := if s.inflight = [] then .returned else .gathering s.inflight }
  else none

/-- Task `k` is done. -/
def taskDone (s : InferenceBatcher args ρ) (k : ℕ) : Bool :=
  match s.tasks[k]? with
  | some ⟨_, .finished _⟩ => true
  | some ⟨_, .reaped _⟩ => true
  | _ => false

/-- `asyncio.gather(*self._inflight, return_exceptions=True)` completes. -/
def stopReturn (s : InferenceBatcher args ρ) : Option (InferenceBatcher args ρ) :=
  match s.stopping with
  | .gathering ks => if ks.all s.taskDone then some { s with stopping := .returned } else none
  | _ => none

/-- The effect of an action at time `s.now`. -/
def act (s : InferenceBatcher args ρ) : Action ρ → Option (InferenceBatcher args ρ)
  | .start => s.start
  | .predict text => some (s.predict text).1
  | .cancel f => some (s.cancelCaller f)
  | .poll => some { s with circuitBreaker := s.circuitBreaker.refresh s.now }
  | .collectFirst => s.collectFirst
  | .loopTest => s.loopTest
  | .collectNext => s.collectNext
  | .collectTimeout => s.collectTimeout
  | .acquire => s.acquire
  | .dispatch => s.dispatch
  | .callPredictFn k => s.callPredictFn k
  | .finish k b => s.finishBatch k b
  | .batchDone k => s.onBatchDone k
  | .stop => s.stop
  | .stopReturn => s.stopReturn

/-- The machine: an action at a clock reading that is not before the latest one. -/
def step (s : InferenceBatcher args ρ) (e : ℚ × Action ρ) : Option (InferenceBatcher args ρ) :=
  if s.now ≤ e.1 then act { s with now := e.1 } e.2 else none

end InferenceBatcher

end InferenceServer
