import Mathlib.Data.List.Nodup
import InferenceServer.Batcher.Flow

set_option relaxedAutoImplicit false
set_option autoImplicit false

/-!
# The breaker inside the batcher

What a step of the batcher tells the breaker and what the breaker answers, and which requests
still wait for the outcome of their batch to be recorded.

## Main definitions

* `InferenceBatcher.verdict`, `InferenceBatcher.endedBatch` — the outcome that a step records,
  and the batch it is about.
* `InferenceBatcher.Gate` — the rules for the breaker and the log of calls.
* `InferenceBatcher.Awaiting` — a request whose batch has no recorded outcome yet.
* `InferenceBatcher.latestProbe` — the most recently admitted probe request.

## Main results

* `InferenceBatcher.Effect.gate` — every step is by a rule for the breaker.
* `InferenceBatcher.Effect.awaiting_iff` — requests begin to wait when they are admitted, and stop
  when an outcome of their batch is recorded.
* `InferenceBatcher.consistent_exec` — the fields of the breaker are consistent after every run.
-/

namespace InferenceServer

/-- The task is done. -/
def TaskPhase.ended {ρ : Type} : TaskPhase ρ → Bool
  | .created => false
  | .running => false
  | .finished _ => true
  | .reaped _ => true

/-- The outcome of the task has been recorded: it has ended, and not with a cancellation. -/
def TaskPhase.recorded {ρ : Type} : TaskPhase ρ → Bool
  | .created => false
  | .running => false
  | .finished b => !b.delivered.isCancelled
  | .reaped b => !b.delivered.isCancelled

/-- The futures of the calls that were admitted as probes, in the order of admission. -/
def probes (calls : List PredictCall) : List ℕ :=
  calls.filterMap fun c =>
    match c with
    | .rejected _ _ => none
    | .admitted _ probe f => if probe then some f else none

/-- The probes of a longer log. -/
@[simp] lemma probes_append (cs ds : List PredictCall) :
    probes (cs ++ ds) = probes cs ++ probes ds :=
  List.filterMap_append

/-- A probe has been admitted. -/
lemma probes_subset (calls : List PredictCall) :
    probes calls ⊆ (items calls).map Item.future := by
  intro f hf
  obtain ⟨c, hc, he⟩ := List.mem_filterMap.mp hf
  cases c with
  | rejected text e => cases he
  | admitted text probe g =>
    refine List.mem_map.mpr ⟨⟨text, g⟩, mem_items.mpr ⟨probe, hc⟩, ?_⟩
    cases probe with
    | false => cases he
    | true => exact Option.some.inj he

namespace InferenceBatcher

variable {args : BatcherArgs} {ρ : Type} {s s' : InferenceBatcher args ρ} {a : Action ρ}
  {cb : CircuitBreaker args.breaker} {calls : List PredictCall} {f : ℕ}

/-! ## The rules for the breaker -/

/-- What an action records: `some true` for `record_success`, `some false` for
`record_failure`. -/
def verdict (s : InferenceBatcher args ρ) : Action ρ → Option Bool
  | .finish k b =>
    match s.tasks[k]? with
    | some ⟨batch, .running⟩ => (outcome batch.length b).map Except.isOk
    | _ => none
  | _ => none

/-- The batch that an action ends. -/
def endedBatch (s : InferenceBatcher args ρ) : Action ρ → List Item
  | .finish k _ =>
    match s.tasks[k]? with
    | some t => t.batch
    | none => []
  | _ => []

/-- What an action does to the breaker, and which call it logs. -/
inductive Gate (s : InferenceBatcher args ρ) :
    Action ρ → CircuitBreaker args.breaker → List PredictCall → Prop
  | closed (text : String) (hs : s.circuitBreaker.state = .CLOSED) :
      Gate s (.predict text) s.circuitBreaker [.admitted text false s.futures.length]
  | probe (text : String) (hs : (s.circuitBreaker.refresh s.now).state = .HALF_OPEN)
      (hp : s.circuitBreaker.probeInFlight = false) :
      Gate s (.predict text) { s.circuitBreaker.refresh s.now with probeInFlight := true }
        [.admitted text true s.futures.length]
  | rejected (text : String) (e : PyException) (he : e.cls = .circuitOpenError)
      (hs : (s.circuitBreaker.refresh s.now).state = .OPEN ∨
        (s.circuitBreaker.refresh s.now).state = .HALF_OPEN ∧
          s.circuitBreaker.probeInFlight = true) :
      Gate s (.predict text) (s.circuitBreaker.refresh s.now).countRejection [.rejected text e]
  | success (a : Action ρ) (hv : verdict s a = some true) :
      Gate s a s.circuitBreaker.recordSuccess []
  | failure (a : Action ρ) (hv : verdict s a = some false) :
      Gate s a (s.circuitBreaker.recordFailure s.now) []
  | poll : Gate s .poll (s.circuitBreaker.refresh s.now) []
  | other (a : Action ρ) (hv : verdict s a = none) : Gate s a s.circuitBreaker []

/-- **Every step is by a rule for the breaker.** -/
theorem Effect.gate (h : Effect s a s') : Gate s a s'.circuitBreaker (newCalls s a) := by
  cases h with
  | reject text cb e hc =>
    rcases s.circuitBreaker.check_cases s.now with ⟨-, he⟩ | ⟨-, -, he⟩ | ⟨hs, e', he', he⟩
    · cases hc.symm.trans he
    · cases hc.symm.trans he
    · obtain ⟨rfl, rfl⟩ : cb = _ ∧ e = e' := by simpa using hc.symm.trans he
      simpa [newCalls, he] using Gate.rejected text e he' hs
  | accept text cb hc =>
    rcases s.circuitBreaker.check_cases s.now with ⟨hs, he⟩ | ⟨hs, hp, he⟩ | ⟨-, e', -, he⟩
    · obtain rfl : cb = _ := by simpa using hc.symm.trans he
      simpa [newCalls, he] using Gate.closed text hs
    · obtain rfl : cb = _ := by simpa using hc.symm.trans he
      simpa [newCalls, he, hp] using Gate.probe text hs hp
    · cases hc.symm.trans he
  | poll => exact .poll
  | finish k b batch hk hb =>
    have hv : verdict s (.finish k b) = (outcome batch.length b).map Except.isOk := by
      simp [verdict, hk]
    cases ho : outcome batch.length b with
    | none => exact .other _ (by rw [hv, ho]; rfl)
    | some o =>
      cases o with
      | error e => exact .failure _ (by rw [hv, ho]; rfl)
      | ok rows => exact .success _ (by rw [hv, ho]; rfl)
  | _ => exact .other _ rfl

/-- A request is admitted through a closed breaker, or as the probe of a half-open one. -/
lemma Gate.admitted (h : Gate s a cb calls) {text : String} {probe : Bool}
    (hc : .admitted text probe f ∈ calls) :
    f = s.futures.length ∧
      (probe = false ∧ s.circuitBreaker.state = .CLOSED ∧ cb = s.circuitBreaker ∨
        probe = true ∧ s.circuitBreaker.probeInFlight = false ∧ cb.probeInFlight = true ∧
          cb.state = .HALF_OPEN) := by
  cases h with
  | closed text' hs =>
    obtain ⟨rfl, rfl, rfl⟩ : text = text' ∧ probe = false ∧ f = _ := by simpa using hc
    exact ⟨rfl, .inl ⟨rfl, hs, rfl⟩⟩
  | probe text' hs hp =>
    obtain ⟨rfl, rfl, rfl⟩ : text = text' ∧ probe = true ∧ f = _ := by simpa using hc
    exact ⟨rfl, .inr ⟨rfl, hp, rfl, hs⟩⟩
  | _ => simp at hc

/-- A request that is admitted gets the next future. -/
lemma Gate.new_item (h : Gate s a cb calls) {it : Item} (hit : it ∈ items calls) :
    it.future = s.futures.length := by
  obtain ⟨probe, hc⟩ := mem_items.mp hit
  exact (h.admitted hc).1

/-- Every rule keeps the fields of the breaker consistent. -/
lemma Gate.consistent (h : Gate s a cb calls) (hc : s.circuitBreaker.Consistent s.now) :
    cb.Consistent s.now := by
  have hr := hc.refresh
  cases h with
  | closed text hs => exact hc
  | probe text hs hp => exact ⟨hr.closed_iff, fun _ => hs, hr.cooled, hr.openedAt_le⟩
  | rejected text e he hs =>
    exact ⟨hr.closed_iff, hr.halfOpen_of_probe, hr.cooled, hr.openedAt_le⟩
  | success a hv => exact .recordSuccess _ _
  | failure a hv => exact hc.recordFailure
  | poll => exact hr
  | other a hv => exact hc

/-- A failure that is recorded is `record_failure` at the time of the step. -/
lemma Gate.eq_recordFailure (h : Gate s a cb calls) (hv : verdict s a = some false) :
    cb = s.circuitBreaker.recordFailure s.now := by
  cases h with
  | success _ hv' => cases hv.symm.trans hv'
  | failure _ hv' => rfl
  | other _ hv' => cases hv.symm.trans hv'
  | _ => cases hv

/-- The token is claimed by a probe, cleared by a recorded outcome, and left alone otherwise. -/
lemma Gate.token_cases (h : Gate s a cb calls) :
    (s.circuitBreaker.probeInFlight = false ∧ cb.probeInFlight = true ∧ verdict s a = none ∧
      ∃ text, calls = [.admitted text true s.futures.length]) ∨
    (verdict s a ≠ none ∧ cb.probeInFlight = false ∧ calls = []) ∨
    (verdict s a = none ∧ cb.probeInFlight = s.circuitBreaker.probeInFlight ∧
      probes calls = []) := by
  cases h with
  | probe text hs hp => exact .inl ⟨hp, rfl, rfl, text, rfl⟩
  | success a hv => exact .inr (.inl ⟨by simp [hv], by simp, rfl⟩)
  | failure a hv => exact .inr (.inl ⟨by simp [hv], by simp, rfl⟩)
  | closed text hs => exact .inr (.inr ⟨rfl, rfl, rfl⟩)
  | rejected text e he hs =>
    exact .inr (.inr ⟨rfl, by simp [CircuitBreaker.countRejection], rfl⟩)
  | poll => exact .inr (.inr ⟨rfl, by simp, rfl⟩)
  | other a hv => exact .inr (.inr ⟨hv, rfl, rfl⟩)

/-- Every step keeps the fields of the breaker consistent. -/
lemma consistent_step {e : ℚ × Action ρ} (hc : s.circuitBreaker.Consistent s.now)
    (h : step s e = some s') : s'.circuitBreaker.Consistent s'.now := by
  obtain ⟨hle, heff⟩ := step_effect h
  rw [heff.now_eq]
  exact heff.gate.consistent (hc.mono hle)

/-- **The fields of the breaker are consistent after every run.** -/
theorem consistent_exec {t₀ : ℚ} {es : List (ℚ × Action ρ)}
    (hrun : Machine.exec step (new args ρ t₀) es = some s) :
    s.circuitBreaker.Consistent s.now :=
  Machine.exec_invariant (I := fun s => s.circuitBreaker.Consistent s.now)
    (fun _ _ _ => consistent_step) (CircuitBreaker.consistent_new t₀) hrun

/-! ## Requests without a recorded outcome -/

/-- The request with the future `f` is in the queue, in the collector's batch, or in a dispatched
batch whose outcome has not been recorded. -/
def Awaiting (s : InferenceBatcher args ρ) (f : ℕ) : Prop :=
  (∃ it ∈ s.queue, it.future = f) ∨ (∃ it ∈ s.worker.held, it.future = f) ∨
    ∃ t ∈ s.tasks, t.phase.recorded = false ∧ ∃ it ∈ t.batch, it.future = f

instance (s : InferenceBatcher args ρ) (f : ℕ) : Decidable (s.Awaiting f) :=
  inferInstanceAs (Decidable (_ ∨ _))

/-- The most recently admitted probe request. -/
def latestProbe (s : InferenceBatcher args ρ) : Option ℕ := (probes s.calls).getLast?

/-- The latest probe changes only when a probe is admitted. -/
lemma Effect.latestProbe_eq (h : Effect s a s') (hp : probes (newCalls s a) = []) :
    s'.latestProbe = s.latestProbe := by
  rw [latestProbe, h.calls_eq, probes_append, hp, List.append_nil, latestProbe]

/-- A probe that is admitted becomes the latest one. -/
lemma Effect.latestProbe_of_probe (h : Effect s a s') {text : String}
    (hc : newCalls s a = [.admitted text true f]) : s'.latestProbe = some f := by
  rw [latestProbe, h.calls_eq, probes_append, hc]
  exact List.getLast?_concat

namespace FlowInv

/-- A probe has a future on the heap. -/
lemma probe_lt (hi : FlowInv s) (h : f ∈ probes s.calls) : f < s.futures.length := by
  rw [← List.mem_range, ← hi.fresh]
  exact probes_subset s.calls h

/-- The holders of a request are disjoint: one that is in a dispatched batch is in no other
batch, not with the collector, and not in the queue. -/
lemma unique (hi : FlowInv s) {k : ℕ} {t : BatchTask ρ} (hk : s.tasks[k]? = some t)
    {it : Item} (hit : it ∈ t.batch) :
    (∀ j u, s.tasks[j]? = some u → (∃ x ∈ u.batch, x.future = it.future) → j = k) ∧
    (¬ ∃ x ∈ s.worker.held, x.future = it.future) ∧
    ¬ ∃ x ∈ s.queue, x.future = it.future := by
  have hmem : it ∈ s.batches.flatten :=
    List.mem_flatten.mpr ⟨t.batch, List.mem_map_of_mem (List.mem_of_getElem? hk), hit⟩
  have hnd := hi.nodup
  simp only [flow, List.map_append, List.nodup_append] at hnd
  obtain ⟨⟨hb, -, hbw⟩, -, hbq⟩ := hnd
  refine ⟨?_, ?_, ?_⟩
  · rintro j u hj ⟨x, hx, he⟩
    rw [List.map_flatten, List.nodup_flatten] at hb
    have hget : ∀ (i : ℕ) (v : BatchTask ρ), s.tasks[i]? = some v →
        (s.batches.map (List.map Item.future))[i]? = some (v.batch.map Item.future) := by
      intro i v hv
      simp [batches, hv]
    by_contra hne
    have hdisj : List.Disjoint (u.batch.map Item.future) (t.batch.map Item.future) := by
      have hp := List.pairwise_iff_getElem.mp hb.2
      obtain ⟨hjl, hje⟩ := List.getElem?_eq_some_iff.mp (hget j u hj)
      obtain ⟨hkl, hke⟩ := List.getElem?_eq_some_iff.mp (hget k t hk)
      rw [← hje, ← hke]
      rcases Nat.lt_or_gt_of_ne hne with hlt | hlt
      · exact hp j k hjl hkl hlt
      · exact List.disjoint_symm (hp k j hkl hjl hlt)
    exact hdisj (List.mem_map.mpr ⟨x, hx, he⟩) (List.mem_map_of_mem hit)
  · rintro ⟨x, hx, he⟩
    exact hbw _ (List.mem_map_of_mem hmem) _ (List.mem_map_of_mem hx) he.symm
  · rintro ⟨x, hx, he⟩
    exact hbq _ (List.mem_append_left _ (List.mem_map_of_mem hmem)) _ (List.mem_map_of_mem hx)
      he.symm

end FlowInv

/-- The request with the future `f` waits, but not in the task `k`. -/
def AwaitingElsewhere (s : InferenceBatcher args ρ) (k f : ℕ) : Prop :=
  (∃ it ∈ s.queue, it.future = f) ∨ (∃ it ∈ s.worker.held, it.future = f) ∨
    ∃ j t, j ≠ k ∧ s.tasks[j]? = some t ∧ t.phase.recorded = false ∧ ∃ it ∈ t.batch, it.future = f

/-- Some task has a property, told for the task `k` and for the others. -/
lemma exists_task_iff {tasks : List (BatchTask ρ)} {k : ℕ} {t : BatchTask ρ}
    (hk : tasks[k]? = some t) (P : BatchTask ρ → Prop) :
    (∃ u ∈ tasks, P u) ↔ P t ∨ ∃ j u, j ≠ k ∧ tasks[j]? = some u ∧ P u := by
  constructor
  · rintro ⟨u, hu, hP⟩
    obtain ⟨j, hj⟩ := List.mem_iff_getElem?.mp hu
    by_cases hjk : j = k
    · subst hjk
      obtain rfl : t = u := Option.some.inj (hk.symm.trans hj)
      exact .inl hP
    · exact .inr ⟨j, u, hjk, hj, hP⟩
  · rintro (hP | ⟨j, u, -, hj, hP⟩)
    · exact ⟨t, List.mem_of_getElem? hk, hP⟩
    · exact ⟨u, List.mem_of_getElem? hj, hP⟩

/-- A request waits in the task `k` or elsewhere. -/
lemma awaiting_iff_elsewhere {k : ℕ} {t : BatchTask ρ} (hk : s.tasks[k]? = some t) :
    s.Awaiting f ↔ (t.phase.recorded = false ∧ ∃ it ∈ t.batch, it.future = f) ∨
      s.AwaitingElsewhere k f := by
  unfold Awaiting AwaitingElsewhere
  rw [exists_task_iff hk]
  constructor
  · rintro (h | h | h | h)
    · exact .inr (.inl h)
    · exact .inr (.inr (.inl h))
    · exact .inl h
    · exact .inr (.inr (.inr h))
  · rintro (h | h | h | h)
    · exact .inr (.inr (.inl h))
    · exact .inl h
    · exact .inr (.inl h)
    · exact .inr (.inr (.inr h))

/-- After the task `k` has moved, a request waits in it or elsewhere as before. -/
lemma awaiting_set_iff {k : ℕ} {t t' : BatchTask ρ} (hk : s.tasks[k]? = some t)
    (hq : s'.queue = s.queue) (hw : s'.worker = s.worker) (ht : s'.tasks = s.tasks.set k t') :
    s'.Awaiting f ↔ (t'.phase.recorded = false ∧ ∃ it ∈ t'.batch, it.future = f) ∨
      s.AwaitingElsewhere k f := by
  have hlt := (List.getElem?_eq_some_iff.mp hk).1
  have hk' : s'.tasks[k]? = some t' := by rw [ht, List.getElem?_set_self hlt]
  have hothers : ∀ j, j ≠ k → s'.tasks[j]? = s.tasks[j]? := by
    intro j hj
    rw [ht, List.getElem?_set_ne (Ne.symm hj)]
  rw [awaiting_iff_elsewhere hk']
  unfold AwaitingElsewhere
  rw [hq, hw]
  refine or_congr_right (or_congr_right (or_congr_right ?_))
  refine exists_congr fun j => exists_congr fun u => and_congr_right fun hj => ?_
  rw [hothers j hj]

/-- A request of a dispatched batch waits nowhere else. -/
lemma FlowInv.not_awaitingElsewhere (hi : FlowInv s) {k : ℕ} {t : BatchTask ρ}
    (hk : s.tasks[k]? = some t) {it : Item} (hit : it ∈ t.batch) :
    ¬ s.AwaitingElsewhere k it.future := by
  obtain ⟨hj, hw, hq⟩ := hi.unique hk hit
  rintro (h | h | ⟨j, u, hne, hu, -, hx⟩)
  · exact hq h
  · exact hw h
  · exact hne (hj j u hu hx)

/-- No outcome is recorded exactly when the `await` ends with a cancellation. -/
lemma outcome_eq_none {n : ℕ} {b : Behaviour ρ} :
    outcome n b = none ↔ b.delivered.isCancelled = true := by
  unfold outcome
  cases b.delivered with
  | returned results =>
    dsimp only
    split_ifs <;> simp [Behaviour.isCancelled]
  | _ => simp [Behaviour.isCancelled]

/-- The end of a batch records an outcome unless it is a cancellation. -/
lemma verdict_finish {k : ℕ} {b : Behaviour ρ} {batch : List Item}
    (hk : s.tasks[k]? = some ⟨batch, .running⟩) :
    verdict s (.finish k b) = none ↔ b.delivered.isCancelled = true := by
  simp only [verdict, hk, Option.map_eq_none_iff]
  exact outcome_eq_none

/-- An item that goes from the queue to the collector, or stays with it, still waits. -/
lemma awaiting_congr (hh : s'.worker.held ++ s'.queue = s.worker.held ++ s.queue)
    (ht : s'.tasks = s.tasks) : s'.Awaiting f ↔ s.Awaiting f := by
  have hsplit : ∀ u : InferenceBatcher args ρ, u.Awaiting f ↔
      (∃ it ∈ u.worker.held ++ u.queue, it.future = f) ∨
        ∃ t ∈ u.tasks, t.phase.recorded = false ∧ ∃ it ∈ t.batch, it.future = f := by
    intro u
    simp only [Awaiting, List.mem_append, or_and_right, exists_or, or_assoc, or_left_comm]
  rw [hsplit s', hsplit s, hh, ht]

/-- A step that records no outcome and admits nobody, and after which the same requests wait. -/
lemma awaiting_iff_of_quiet (hv : verdict s a = none) (hn : items (newCalls s a) = [])
    (hw : s'.Awaiting f ↔ s.Awaiting f) :
    s'.Awaiting f ↔
      (s.Awaiting f ∧ ¬ (verdict s a ≠ none ∧ ∃ it ∈ endedBatch s a, it.future = f)) ∨
        ∃ it ∈ items (newCalls s a), it.future = f := by
  simp [hv, hn, hw]

/-- **Who waits after a step**: the requests that waited before, less those of a batch whose
outcome the step records, and the one that the step admits.

**Proof sketch.** An item that goes from one holder to the next still waits. When a batch ends
with a recorded outcome its requests wait no longer, since no other holder has them
(`FlowInv.not_awaitingElsewhere`). -/
theorem Effect.awaiting_iff (h : Effect s a s') (hi : FlowInv s) (f : ℕ) :
    s'.Awaiting f ↔
      (s.Awaiting f ∧ ¬ (verdict s a ≠ none ∧ ∃ it ∈ endedBatch s a, it.future = f)) ∨
        ∃ it ∈ items (newCalls s a), it.future = f := by
  cases h with
  | accept text cb hc =>
    have hn : items (newCalls s (.predict text)) = [⟨text, s.futures.length⟩] := by
      simp [newCalls, hc, items]
    rw [hn]
    simp only [Awaiting, verdict, List.mem_append, List.mem_singleton, or_and_right, exists_or,
      exists_eq_left, ne_eq, not_true_eq_false, false_and, not_false_eq_true, and_true]
    exact or_right_comm
  | reject text cb e hc =>
    have hn : items (newCalls s (.predict text)) = [] := by simp [newCalls, hc, items]
    exact awaiting_iff_of_quiet rfl hn (awaiting_congr rfl rfl)
  | start hw hs =>
    exact awaiting_iff_of_quiet rfl rfl (awaiting_congr (by simp [Worker.held, hw]) rfl)
  | collectFirst item queue hw hq =>
    exact awaiting_iff_of_quiet rfl rfl (awaiting_congr (by simp [Worker.held, hw, hq]) rfl)
  | wait batch deadline hw hlen hd =>
    exact awaiting_iff_of_quiet rfl rfl (awaiting_congr (by simp [Worker.held, hw]) rfl)
  | full batch deadline hw hd =>
    exact awaiting_iff_of_quiet rfl rfl (awaiting_congr (by simp [Worker.held, hw]) rfl)
  | collectNext batch deadline item queue hw hq =>
    exact awaiting_iff_of_quiet rfl rfl (awaiting_congr (by simp [Worker.held, hw, hq]) rfl)
  | collectTimeout batch deadline hw hd =>
    exact awaiting_iff_of_quiet rfl rfl (awaiting_congr (by simp [Worker.held, hw]) rfl)
  | acquire batch hw hp =>
    exact awaiting_iff_of_quiet rfl rfl (awaiting_congr (by simp [Worker.held, hw]) rfl)
  | stop permits hs hp =>
    exact awaiting_iff_of_quiet rfl rfl (awaiting_congr (by simp) rfl)
  | dispatch batch hw =>
    -- the collector's batch becomes a task without a recorded outcome
    have hr : (TaskPhase.created : TaskPhase ρ).recorded = false := rfl
    apply awaiting_iff_of_quiet rfl rfl
    simp only [Awaiting, Worker.held, hw, List.mem_append, List.mem_singleton, List.not_mem_nil,
      or_and_right, exists_or, exists_eq_left, false_and, exists_false, hr, true_and, false_or]
    exact or_congr_right or_comm
  | callPredictFn k batch hk =>
    refine awaiting_iff_of_quiet rfl rfl (Iff.trans (awaiting_set_iff hk rfl rfl rfl) ?_)
    rw [awaiting_iff_elsewhere hk]
    rfl
  | batchDone k batch b hk =>
    refine awaiting_iff_of_quiet rfl rfl (Iff.trans (awaiting_set_iff hk rfl rfl rfl) ?_)
    rw [awaiting_iff_elsewhere hk]
    rfl
  | finish k b batch hk hb =>
    have he : endedBatch s (.finish k b) = batch := by simp [endedBatch, hk]
    by_cases hc : b.delivered.isCancelled = true
    · have hr : (TaskPhase.finished b).recorded = false := by simp [TaskPhase.recorded, hc]
      refine awaiting_iff_of_quiet ((verdict_finish hk).mpr hc) rfl
        (Iff.trans (awaiting_set_iff hk rfl rfl rfl) ?_)
      rw [awaiting_iff_elsewhere hk, hr]
      rfl
    · have hv : verdict s (.finish k b) ≠ none := mt (verdict_finish hk).mp hc
      have hr : (TaskPhase.finished b).recorded = true := by simp [TaskPhase.recorded, hc]
      have hout : s.AwaitingElsewhere k f → ¬ ∃ it ∈ batch, it.future = f := by
        rintro hw ⟨it, hit, rfl⟩
        exact hi.not_awaitingElsewhere hk hit hw
      refine Iff.trans (awaiting_set_iff hk rfl rfl rfl) ?_
      rw [awaiting_iff_elsewhere hk, he]
      constructor
      · rintro (⟨hn, -⟩ | hw)
        · cases hn.symm.trans hr
        · exact .inl ⟨.inr hw, fun hn => hout hw hn.2⟩
      · rintro (⟨⟨-, hw⟩ | hw, hn⟩ | ⟨it, hit, -⟩)
        · exact absurd ⟨hv, hw⟩ hn
        · exact .inr hw
        · cases hit
  | _ => exact awaiting_iff_of_quiet rfl rfl (awaiting_congr rfl rfl)

end InferenceBatcher

end InferenceServer
