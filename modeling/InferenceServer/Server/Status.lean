import InferenceServer.Batcher.Failures
import InferenceServer.Server.Steps

set_option relaxedAutoImplicit false
set_option autoImplicit false

/-!
# Who is answered with 503

`except RuntimeError` in `predict` meets two kinds of exceptions: the `CircuitOpenError` that
`check` raises, and whatever `RuntimeError` a batch ended with. An observer of the gate writes down
which requests came to the batcher and what became of them there; from the log one reads off which
of the two a 503 stands for.

## Main definitions

* `Response.status`, `Request.status` — the status code.
* `Entry`, `Server.entered` — the log of the gate.
* `Server.Logged` — the invariant: what became of the requests in the log and of the others.

## Main results

* `Server.logged_exec` — the invariant holds after every run.
* `Server.status_503` — whom a 503 is for, and how many there are.
* `Server.failed_batch_503` — a 503 that sheds no load.
-/

namespace InferenceServer

open InferenceBatcher

/-- The status code of a response. -/
def Response.status : Response → ℕ
  | .ok _ => 200
  | .error status _ => status

/-- The status code of the response to a request, once there is one. -/
def Request.status (req : Request) : Option ℕ := req.response.map Response.status

/-- A request at the gate of the batcher: its number, its text, and what `batcher.predict` did: the
exception that `check` raised, or the future that was created. -/
structure Entry where
  request : ℕ
  text : String
  verdict : Except PyException ℕ
  deriving DecidableEq

/-- The request was admitted. -/
def Entry.isAdmitted (p : Entry) : Bool := p.verdict.isOk

/-- The text of a call, and its verdict. -/
def PredictCall.verdict : PredictCall → String × Except PyException ℕ
  | .rejected text e => (text, .error e)
  | .admitted text _ f => (text, .ok f)

namespace Server

variable {args : BatcherArgs} {lib : Library} {s s' : Server args} {a : ServerAction}
  {requests : List Request} {b b' : InferenceBatcher args Json} {log : List Entry}

/-! ## The log of the gate -/

/-- What the observer writes down: a request that goes on without a cached value, and what
`batcher.predict` does at that moment. -/
def entered (s : Server args) (e : ℚ × ServerAction) (_ : Server args) : List Entry :=
  match e.2 with
  | .resume i =>
    match s.requests[i]? with
    | some ⟨text, _, .looked cached⟩ =>
      if cached.truthy then []
      else [⟨i, text, ({ s.batcher with now := e.1 }.predict text).2⟩]
    | _ => []
  | _ => []

/-- What has become of a request with this verdict. A rejected one is answered at once; an admitted
one waits for its future, is aborted, or is answered from it. -/
def Follows (lib : Library) (b : InferenceBatcher args Json) (req : Request) :
    Except PyException ℕ → Prop
  | .error e => req.phase = .answered (failure e)
  | .ok f => req.phase = .awaiting f ∨ req.phase = .aborted ∨
      (∃ row now, b.futures[f]? = some (.result row) ∧
        req.phase = .answered (respond lib req.start now row)) ∨
      ∃ e, b.futures[f]? = some (.exception e) ∧ req.phase = .answered (failure e)

/-- The futures that are done in `b` keep their values in `b'`. -/
def KeepsDone (b b' : InferenceBatcher args Json) : Prop :=
  ∀ (f : ℕ) (v : Future Json), b.futures[f]? = some v → v.done = true → b'.futures[f]? = some v

/-- What a request that has not been at the gate may be. -/
def Outside (req : Request) : Prop :=
  match req.phase with
  | .awaiting _ => False
  | .answered response => response.status ≠ 503
  | _ => True

/-- The log tells the calls of the batcher and what became of the requests; none is in it twice. -/
structure Logged (lib : Library) (requests : List Request) (b : InferenceBatcher args Json)
    (log : List Entry) : Prop where
  calls : b.calls.map PredictCall.verdict = log.map fun p => (p.text, p.verdict)
  nodup : (log.map Entry.request).Nodup
  entered : ∀ p ∈ log, ∃ req, requests[p.request]? = some req ∧ req.text = p.text ∧
    Follows lib b req p.verdict
  outside : ∀ i req, requests[i]? = some req → i ∉ log.map Entry.request → Outside req

/-- A row is never answered with 503. -/
lemma respond_status {start now : ℚ} {row : Json} :
    (respond lib start now row).status ≠ 503 := by
  unfold respond internalError
  split
  · split <;> simp [Response.status]
  · simp [Response.status]

/-- An exception is answered with 503 exactly when it is a `RuntimeError`. -/
lemma failure_status {e : PyException} :
    (failure e).status = 503 ↔ e.isRuntimeError = true := by
  unfold failure internalError
  split_ifs with h <;> simp [Response.status, h]

/-- A new server has an empty log. -/
lemma logged_new (t₀ : ℚ) : Logged lib (new args t₀).requests (new args t₀).batcher [] where
  calls := rfl
  nodup := List.nodup_nil
  entered := by simp
  outside := by simp [new]

/-- What a verdict means survives while futures that are done keep their values. -/
lemma Follows.mono {req : Request} {v : Except PyException ℕ}
    (hk : KeepsDone b b')
    (h : Follows lib b req v) : Follows lib b' req v := by
  cases v with
  | error e => exact h
  | ok f =>
    rcases h with h | h | ⟨row, now, hf, h⟩ | ⟨e, hf, h⟩
    · exact .inl h
    · exact .inr (.inl h)
    · exact .inr (.inr (.inl ⟨row, now, hk f _ hf rfl, h⟩))
    · exact .inr (.inr (.inr ⟨e, hk f _ hf rfl, h⟩))

namespace Logged

/-- The batcher moves without a call of `predict`. -/
lemma mono (hl : Logged lib requests b log) (hc : b'.calls = b.calls)
    (hk : KeepsDone b b') :
    Logged lib requests b' log where
  calls := by rw [hc, hl.calls]
  nodup := hl.nodup
  entered := by
    intro p hp
    obtain ⟨req, hreq, ht, hf⟩ := hl.entered p hp
    exact ⟨req, hreq, ht, Follows.mono hk hf⟩
  outside := hl.outside

/-- A request that has not been at the gate yet is not in the log. -/
lemma not_mem (hl : Logged lib requests b log) {i : ℕ} {req : Request}
    (hi : requests[i]? = some req)
    (hp : req.phase = .lookup ∨ ∃ cached, req.phase = .looked cached) :
    i ∉ log.map Entry.request := by
  intro hmem
  obtain ⟨p, hpl, rfl⟩ := List.mem_map.mp hmem
  obtain ⟨req', hreq, -, hf⟩ := hl.entered p hpl
  obtain rfl : req' = req := Option.some.inj (hreq.symm.trans hi)
  unfold Follows at hf
  rcases hp with hp | ⟨cached, hp⟩ <;> rw [hp] at hf <;> split at hf <;> simp at hf

/-- A request that waits is in the log, with its future. -/
lemma mem_of_awaiting (hl : Logged lib requests b log) {i f : ℕ} {req : Request}
    (hi : requests[i]? = some req) (hp : req.phase = .awaiting f) :
    ∃ p ∈ log, p.request = i ∧ p.verdict = .ok f := by
  by_cases hmem : i ∈ log.map Entry.request
  · obtain ⟨p, hpl, rfl⟩ := List.mem_map.mp hmem
    refine ⟨p, hpl, rfl, ?_⟩
    obtain ⟨req', hreq, -, hf⟩ := hl.entered p hpl
    obtain rfl : req' = req := Option.some.inj (hreq.symm.trans hi)
    cases hv : p.verdict with
    | error e => simp [hv, Follows, hp] at hf
    | ok g =>
      have hfg : f = g := by simpa [hv, Follows, hp] using hf
      rw [hfg]
  · have ho := hl.outside i req hi hmem
    simp [Outside, hp] at ho

/-- A new request is outside. -/
lemma arrive (hl : Logged lib requests b log) (text : String) (start : ℚ) :
    Logged lib (requests ++ [⟨text, start, .lookup⟩]) b log where
  calls := hl.calls
  nodup := hl.nodup
  entered := by
    intro p hp
    obtain ⟨req, hreq, h⟩ := hl.entered p hp
    refine ⟨req, ?_, h⟩
    rw [List.getElem?_append_left (List.getElem?_eq_some_iff.mp hreq).1, hreq]
  outside := by
    intro i req hi hn
    rcases Nat.lt_or_ge i requests.length with hlt | hge
    · rw [List.getElem?_append_left hlt] at hi
      exact hl.outside i req hi hn
    · rw [List.getElem?_append_right hge, List.getElem?_singleton] at hi
      split_ifs at hi
      obtain rfl := Option.some.inj hi
      trivial

/-- A request goes on that is not in the log. -/
lemma moveOutside (hl : Logged lib requests b log) {i : ℕ} {old : Request} {phase : RequestPhase}
    (hi : requests[i]? = some old) (hn : i ∉ log.map Entry.request)
    (ho : Outside { old with phase := phase }) :
    Logged lib (requests.modify i fun req => { req with phase := phase }) b log where
  calls := hl.calls
  nodup := hl.nodup
  entered := by
    intro p hp
    have hne : i ≠ p.request := fun he => hn (he ▸ List.mem_map_of_mem hp)
    rw [List.getElem?_modify_ne _ _ hne]
    exact hl.entered p hp
  outside := by
    intro j req hj hnj
    rw [List.getElem?_modify] at hj
    split_ifs at hj with hij
    · subst hij
      rw [hi] at hj
      obtain rfl := Option.some.inj hj
      exact ho
    · exact hl.outside j req (by simpa using hj) hnj

/-- A request goes on that is in the log. -/
lemma moveInside (hl : Logged lib requests b log) {p : Entry} {old : Request}
    {phase : RequestPhase} (hp : p ∈ log) (hi : requests[p.request]? = some old)
    (hf : Follows lib b { old with phase := phase } p.verdict) :
    Logged lib (requests.modify p.request fun req => { req with phase := phase }) b log where
  calls := hl.calls
  nodup := hl.nodup
  entered := by
    intro q hq
    by_cases hqp : p.request = q.request
    · obtain rfl : p = q := List.inj_on_of_nodup_map hl.nodup hp hq hqp
      obtain ⟨req, hreq, ht, -⟩ := hl.entered p hp
      obtain rfl : req = old := Option.some.inj (hreq.symm.trans hi)
      exact ⟨{ req with phase := phase }, by simp [hi], ht, hf⟩
    · rw [List.getElem?_modify_ne _ _ hqp]
      exact hl.entered q hq
  outside := by
    intro j req hj hnj
    have hne : p.request ≠ j := fun he => hnj (he ▸ List.mem_map_of_mem hp)
    rw [List.getElem?_modify_ne _ _ hne] at hj
    exact hl.outside j req hj hnj

/-- A request comes to the gate. -/
lemma enter (hl : Logged lib requests b log) {p : Entry} {old : Request} {phase : RequestPhase}
    (hi : requests[p.request]? = some old) (hn : p.request ∉ log.map Entry.request)
    (ht : old.text = p.text)
    (hc : b'.calls.map PredictCall.verdict =
      b.calls.map PredictCall.verdict ++ [(p.text, p.verdict)])
    (hk : KeepsDone b b')
    (hf : Follows lib b' { old with phase := phase } p.verdict) :
    Logged lib (requests.modify p.request fun req => { req with phase := phase }) b'
      (log ++ [p]) where
  calls := by simp [hc, hl.calls]
  nodup := by
    rw [List.map_append, List.nodup_append]
    refine ⟨hl.nodup, List.nodup_singleton _, ?_⟩
    rintro i hi' j hj rfl
    exact hn (List.mem_singleton.mp hj ▸ hi')
  entered := by
    intro q hq
    rcases List.mem_append.mp hq with hq | hq
    · have hne : p.request ≠ q.request := fun he => hn (he ▸ List.mem_map_of_mem hq)
      rw [List.getElem?_modify_ne _ _ hne]
      obtain ⟨req, hreq, hqt, hqf⟩ := hl.entered q hq
      exact ⟨req, hreq, hqt, Follows.mono hk hqf⟩
    · obtain rfl := List.mem_singleton.mp hq
      exact ⟨{ old with phase := phase }, by simp [hi], ht, hf⟩
  outside := by
    intro j req hj hnj
    rw [List.map_append, List.mem_append, not_or] at hnj
    have hne : p.request ≠ j := fun he => hnj.2 (by simp [he])
    rw [List.getElem?_modify_ne _ _ hne] at hj
    exact hl.outside j req hj hnj.1

end Logged

/-- A call of `predict` is logged with its verdict. -/
lemma predict_calls {text : String} {r : Except PyException ℕ} (h : b.predict text = (b', r)) :
    b'.calls.map PredictCall.verdict = b.calls.map PredictCall.verdict ++ [(text, r)] := by
  unfold InferenceBatcher.predict at h
  split at h <;>
  · obtain ⟨rfl, rfl⟩ := Prod.mk.inj h
    simp [PredictCall.verdict]

/-- The batcher calls `predict` for nobody by itself. -/
lemma internal_calls {e : ℚ × Action Json} (hi : e.2.isInternal = true) (h : b.step e = some b') :
    b'.calls = b.calls := by
  obtain ⟨-, heff⟩ := InferenceBatcher.step_effect h
  rw [heff.calls_eq]
  cases ha : e.2 with
  | predict text => simp [ha, Action.isInternal] at hi
  | _ => exact List.append_nil _

namespace Effect

/-- A future that is done keeps its value. -/
lemma keepsDone (h : Effect lib s a s') (hnow : s.batcher.now ≤ s.now) :
    KeepsDone s.batcher s'.batcher := by
  rcases h.batcher_step hnow with hb | ⟨b, hb⟩
  · rw [hb]
    exact fun _ _ hf _ => hf
  · obtain ⟨-, heff⟩ := InferenceBatcher.step_effect hb
    exact fun f v hf hv => heff.futures_keep hf hv

/-- **Every action keeps the log.**

**Proof sketch.** One case for each rule. The two rules in which a request goes on without a cached
value write it down; a request that waits is in the log with its future, and what the future holds
is its answer. -/
theorem logged (h : Effect lib s a s') (hnow : s.batcher.now ≤ s.now)
    (hl : Logged lib s.requests s.batcher log) :
    Logged lib s'.requests s'.batcher (log ++ Server.entered s (s.now, a) s') := by
  have hk := h.keepsDone hnow
  cases h with
  | arrive text =>
    rw [Server.entered, List.append_nil]
    exact hl.arrive text s.now
  | lookup i text start reply hi =>
    rw [Server.entered, List.append_nil]
    exact hl.moveOutside hi (hl.not_mem hi (.inl rfl)) trivial
  | hit i text start cached hi hc =>
    simp only [Server.entered, hi, hc, if_true, List.append_nil]
    exact hl.moveOutside hi (hl.not_mem hi (.inr ⟨cached, rfl⟩)) respond_status
  | reject i text start cached b e hi hc hp =>
    simp only [Server.entered, hi, hc, hp, Bool.false_eq_true, if_false]
    have hcalls := predict_calls hp
    exact hl.enter (p := ⟨i, text, .error e⟩) hi (hl.not_mem hi (.inr ⟨cached, rfl⟩)) rfl hcalls hk
      rfl
  | accept i text start cached b f hi hc hp =>
    simp only [Server.entered, hi, hc, hp, Bool.false_eq_true, if_false]
    have hcalls := predict_calls hp
    exact hl.enter (p := ⟨i, text, .ok f⟩) hi (hl.not_mem hi (.inr ⟨cached, rfl⟩)) rfl hcalls hk
      (.inl rfl)
  | result i text start f row hi hf =>
    rw [Server.entered, List.append_nil]
    obtain ⟨p, hp, rfl, hv⟩ := hl.mem_of_awaiting hi rfl
    refine hl.moveInside hp hi ?_
    rw [hv]
    exact .inr (.inr (.inl ⟨row, s.now, hf, rfl⟩))
  | failed i text start f e hi hf =>
    rw [Server.entered, List.append_nil]
    obtain ⟨p, hp, rfl, hv⟩ := hl.mem_of_awaiting hi rfl
    refine hl.moveInside hp hi ?_
    rw [hv]
    exact .inr (.inr (.inr ⟨e, hf, rfl⟩))
  | abortWaiting i text start f hi =>
    rw [Server.entered, List.append_nil]
    obtain ⟨p, hp, rfl, hv⟩ := hl.mem_of_awaiting hi rfl
    have hl' : Logged lib s.requests ({ s.batcher with now := s.now }.cancelCaller f) log :=
      hl.mono rfl hk
    refine hl'.moveInside hp hi ?_
    rw [hv]
    exact .inr (.inl rfl)
  | abort i req hi hp =>
    rw [Server.entered, List.append_nil]
    exact hl.moveOutside hi (hl.not_mem hi hp) trivial
  | detach i text start hi =>
    rw [Server.entered, List.append_nil]
    exact hl.moveOutside hi (hl.not_mem hi (.inl rfl)) trivial
  | stray j reply hj =>
    rw [Server.entered, List.append_nil]
    exact hl
  | write j w cmd hj hc =>
    rw [Server.entered, List.append_nil]
    exact hl
  | drop j w effective hj hd =>
    rw [Server.entered, List.append_nil]
    exact hl
  | batcher a b ha hb =>
    rw [Server.entered, List.append_nil]
    exact hl.mono (internal_calls ha hb) hk

end Effect

/-- The log of the gate along a run. -/
def gateLog (lib : Library) (args : BatcherArgs) (t₀ : ℚ) (es : List (ℚ × ServerAction)) :
    List Entry :=
  Machine.observe (step lib) entered (new args t₀) es

/-- **The invariant holds after every run.** -/
theorem logged_exec {t₀ : ℚ} {es : List (ℚ × ServerAction)}
    (hrun : Machine.exec (step lib) (new args t₀) es = some s) :
    Logged lib s.requests s.batcher (gateLog lib args t₀ es) := by
  refine Machine.exec_induction (P := fun es (s : Server args) =>
    Logged lib s.requests s.batcher (gateLog lib args t₀ es)) (logged_new t₀) ?_ es s hrun
  intro es e s s' hs ih hstep
  obtain ⟨hnow, -⟩ := batcher_run hs
  obtain ⟨hle, heff⟩ := step_effect hstep
  rw [gateLog, Machine.observe_snoc hs hstep]
  exact heff.logged (hnow.trans hle) ih

/-! ## The responses -/

/-- The request `i` was rejected. -/
def Rejected (log : List Entry) (i : ℕ) : Prop := ∃ text e, ⟨i, text, .error e⟩ ∈ log

/-- The request `i` was admitted, with the future `f`. -/
def Admitted (log : List Entry) (i f : ℕ) : Prop := ∃ text, ⟨i, text, .ok f⟩ ∈ log

/-- A status is the status of a response. -/
lemma status_eq_some_iff {req : Request} {n : ℕ} :
    req.status = some n ↔ ∃ response, req.phase = .answered response ∧ response.status = n := by
  simp [Request.status, Request.response_eq_some_iff]

namespace Logged

/-- A request is in the log only once. -/
lemma unique (hl : Logged lib requests b log) {i : ℕ} {text text' : String}
    {v v' : Except PyException ℕ} (h : ⟨i, text, v⟩ ∈ log) (h' : ⟨i, text', v'⟩ ∈ log) :
    text = text' ∧ v = v' := by
  have he := List.inj_on_of_nodup_map hl.nodup h h' rfl
  simpa using he

/-- A request in the log, with what has become of it. -/
lemma follows (hl : Logged lib requests b log) {i : ℕ} {text : String}
    {v : Except PyException ℕ} {req : Request} (h : ⟨i, text, v⟩ ∈ log)
    (hi : requests[i]? = some req) : Follows lib b req v := by
  obtain ⟨req', hreq, -, hf⟩ := hl.entered _ h
  obtain rfl : req' = req := Option.some.inj (hreq.symm.trans hi)
  exact hf

/-- The items of the batcher are the admitted requests. -/
lemma items_eq (hl : Logged lib requests b log) {it : Item} (hit : it ∈ items b.calls) :
    ∃ i, ⟨i, it.text, .ok it.future⟩ ∈ log := by
  obtain ⟨probe, hc⟩ := mem_items.mp hit
  have hm : (it.text, .ok it.future) ∈ log.map fun p => (p.text, p.verdict) := by
    rw [← hl.calls]
    exact List.mem_map.mpr ⟨_, hc, rfl⟩
  obtain ⟨⟨i, text, v⟩, hp, he⟩ := List.mem_map.mp hm
  obtain ⟨rfl, rfl⟩ := Prod.mk.inj he
  exact ⟨i, hp⟩

/-- An admitted request that has its response has it from the end of its batch. -/
lemma answered (hl : Logged lib requests b log) (hm : AnswersMatch b) {i f : ℕ} {req : Request}
    {response : Response} (ha : Admitted log i f) (hi : requests[i]? = some req)
    (hr : req.phase = .answered response) :
    (∃ row now, response = respond lib req.start now row ∧ b.AnsweredBy f (.result row)) ∨
      ∃ e, response = failure e ∧ b.FailedWith f e := by
  obtain ⟨text, hp⟩ := ha
  rcases hl.follows hp hi with h | h | ⟨row, now, hf, h⟩ | ⟨e, hf, h⟩ <;> rw [hr] at h
  · cases h
  · cases h
  · exact .inl ⟨row, now, RequestPhase.answered.inj h, hm f _ hf rfl (by simp)⟩
  · exact .inr ⟨e, RequestPhase.answered.inj h, failedWith_iff.mpr (hm f _ hf rfl (by simp))⟩

/-- The exception that a batch ended with is what its requests are answered with. -/
lemma failed (hl : Logged lib requests b log) (hm : AnswersMatch b) (hb : FlowInv b) {i f : ℕ}
    {req : Request} {response : Response} {e : PyException} (ha : Admitted log i f)
    (hi : requests[i]? = some req) (hr : req.phase = .answered response)
    (hf : b.FailedWith f e) : response = failure e := by
  have hfe := failedWith_iff.mp hf
  rcases hl.answered hm ha hi hr with ⟨row, now, -, hrow⟩ | ⟨e', rfl, he'⟩
  · cases hrow.unique hb hfe
  · rw [Future.exception.inj ((failedWith_iff.mp he').unique hb hfe)]

/-- A rejected request is answered with 503. -/
lemma rejected (hl : Logged lib requests b log)
    (hc : ∀ text e, .rejected text e ∈ b.calls → e.cls = .circuitOpenError) {i : ℕ} {text : String}
    {e : PyException} {req : Request} (hp : ⟨i, text, .error e⟩ ∈ log)
    (hi : requests[i]? = some req) : e.cls = .circuitOpenError ∧ req.status = some 503 := by
  have hcls : e.cls = .circuitOpenError := by
    have hm : (text, .error e) ∈ b.calls.map PredictCall.verdict := by
      rw [hl.calls]
      exact List.mem_map.mpr ⟨_, hp, rfl⟩
    obtain ⟨c, hcall, hv⟩ := List.mem_map.mp hm
    cases c with
    | rejected text' e' =>
      obtain ⟨-, he⟩ := Prod.mk.inj hv
      rw [← Except.error.inj he]
      exact hc text' e' hcall
    | admitted text' probe f => simp [PredictCall.verdict] at hv
  refine ⟨hcls, status_eq_some_iff.mpr ⟨failure e, hl.follows hp hi, failure_status.mpr ?_⟩⟩
  simp [PyException.isRuntimeError, hcls]

/-- **Whom a 503 is for**: a request that was rejected, or one that was admitted into a batch that
ended with a `RuntimeError`.

**Proof sketch.** A request outside the log is answered from the cache, if at all; a rejected one
with 503 (`Logged.rejected`); an admitted one from its future, with what its batch ended with
(`Logged.answered`, `Logged.failed`). -/
theorem status_iff (hl : Logged lib requests b log) (hm : AnswersMatch b) (hb : FlowInv b)
    (hc : ∀ text e, .rejected text e ∈ b.calls → e.cls = .circuitOpenError) {i : ℕ}
    {req : Request} (hi : requests[i]? = some req) :
    req.status = some 503 ↔ Rejected log i ∨
      ∃ f e, Admitted log i f ∧ req.response.isSome = true ∧ b.FailedWith f e ∧
        e.isRuntimeError = true := by
  constructor
  · intro hs
    obtain ⟨response, hr, h503⟩ := status_eq_some_iff.mp hs
    by_cases hmem : i ∈ log.map Entry.request
    · obtain ⟨⟨j, text, v⟩, hp, rfl⟩ := List.mem_map.mp hmem
      cases v with
      | error e => exact .inl ⟨text, e, hp⟩
      | ok f =>
        have ha : Admitted log j f := ⟨text, hp⟩
        rcases hl.answered hm ha hi hr with ⟨row, now, rfl, -⟩ | ⟨e, rfl, hf⟩
        · exact absurd h503 respond_status
        · refine .inr ⟨f, e, ha, ?_, hf, failure_status.mp h503⟩
          rw [Request.response_eq_some_iff.mpr hr]
          rfl
    · have ho := hl.outside i req hi hmem
      simp only [Outside, hr] at ho
      exact absurd h503 ho
  · rintro (⟨text, e, hp⟩ | ⟨f, e, ha, hr, hf, he⟩)
    · exact (hl.rejected hc hp hi).2
    · obtain ⟨response, hr⟩ := Option.isSome_iff_exists.mp hr
      have hphase := Request.response_eq_some_iff.mp hr
      refine status_eq_some_iff.mpr ⟨response, hphase, ?_⟩
      rw [hl.failed hm hb ha hi hphase hf]
      exact failure_status.mpr he

/-- The number of responses with 503: the rejections, and the admitted requests among them.

**Proof sketch.** A request that is answered with 503 is in the log, and all rejected ones are
answered so; none is in the log twice. -/
lemma count (hl : Logged lib requests b log) (hm : AnswersMatch b) (hb : FlowInv b)
    (hc : ∀ text e, .rejected text e ∈ b.calls → e.cls = .circuitOpenError)
    (hn : b.circuitBreaker.rejections = b.calls.countP PredictCall.isRejected) :
    requests.countP (fun req => req.status = some 503) =
      b.circuitBreaker.rejections + log.countP fun p =>
        p.isAdmitted && (requests[p.request]?.bind Request.status) = some 503 := by
  have hperm : (requests.findIdxs fun req => req.status = some 503).Perm
      ((log.filter fun p => (requests[p.request]?.bind Request.status) = some 503).map
        Entry.request) := by
    rw [List.perm_ext_iff_of_nodup List.nodup_findIdxs (hl.nodup.sublist
      (List.filter_sublist.map _))]
    intro i
    simp only [List.mem_findIdxs_iff_exists_getElem_pos, List.mem_map, List.mem_filter,
      decide_eq_true_eq]
    constructor
    · rintro ⟨hlt, hs⟩
      have hi := List.getElem?_eq_getElem hlt
      have hmem : ∃ p ∈ log, p.request = i := by
        rcases (hl.status_iff hm hb hc hi).mp hs with ⟨text, e, hp⟩ | ⟨f, e, ⟨text, hp⟩, -⟩
        · exact ⟨_, hp, rfl⟩
        · exact ⟨_, hp, rfl⟩
      obtain ⟨p, hp, rfl⟩ := hmem
      exact ⟨p, ⟨hp, by simp [hi, hs]⟩, rfl⟩
    · rintro ⟨p, ⟨hp, hs⟩, rfl⟩
      obtain ⟨req, hi, hst⟩ := Option.bind_eq_some_iff.mp hs
      obtain ⟨hlt, rfl⟩ := List.getElem?_eq_some_iff.mp hi
      exact ⟨hlt, hst⟩
  have hrej : b.circuitBreaker.rejections = log.countP fun p => !p.isAdmitted := calc
    b.circuitBreaker.rejections = b.calls.countP PredictCall.isRejected := hn
    _ = (b.calls.map PredictCall.verdict).countP fun v => !v.2.isOk := by
      rw [List.countP_map]
      refine List.countP_congr fun c _ => ?_
      cases c <;> simp [PredictCall.verdict, PredictCall.isRejected, Except.isOk, Except.toBool]
    _ = log.countP fun p => !p.isAdmitted := by
      rw [hl.calls, List.countP_map]
      rfl
  have hall : ∀ p ∈ log, ¬ p.isAdmitted = true →
      (requests[p.request]?.bind Request.status) = some 503 := by
    rintro ⟨i, text, v⟩ hp hv
    obtain ⟨req, hi, -, -⟩ := hl.entered _ hp
    cases v with
    | ok f => exact absurd rfl hv
    | error e => simp [hi, (hl.rejected hc hp hi).2]
  calc requests.countP (fun req => req.status = some 503)
      = log.countP fun p => (requests[p.request]?.bind Request.status) = some 503 := by
        rw [← List.length_findIdxs, hperm.length_eq, List.length_map, List.countP_eq_length_filter]
    _ = b.circuitBreaker.rejections + log.countP fun p =>
          p.isAdmitted && (requests[p.request]?.bind Request.status) = some 503 := by
        rw [hrej, List.countP_eq_countP_filter_add log _ fun p => !p.isAdmitted,
          List.countP_filter, List.countP_filter]
        congr 1
        · refine List.countP_congr fun p hp => ?_
          simpa using hall p hp
        · refine List.countP_congr fun p _ => ?_
          simp [and_comm]

end Logged

/-- **Whom a 503 of `/predict` is for.** After every run, whatever `predict_fn` returns or raises:
a request is answered with 503 exactly when `check` has raised a `CircuitOpenError` for it, or it
was admitted and its batch has ended with a `RuntimeError`, which may be one that asyncio has put in
the place of what `predict_fn` raised. All that is handed to `predict_fn` are requests that were not
rejected. The number of responses with 503 is the breaker's rejections and the admitted requests
that were answered so. If the batch of a request ends with another exception, its response is a 500.

**Proof sketch.** `logged_exec` for the log, `answers_exec` for what the futures hold, and from both
`Logged.status_iff` and `Logged.count`. -/
theorem status_503 (lib : Library) (args : BatcherArgs) (t₀ : ℚ) (es : List (ℚ × ServerAction))
    (s : Server args) (hrun : Machine.exec (step lib) (new args t₀) es = some s) :
    (∀ i req, s.requests[i]? = some req →
      (req.status = some 503 ↔ Rejected (gateLog lib args t₀ es) i ∨
        ∃ f e, Admitted (gateLog lib args t₀ es) i f ∧ req.response.isSome = true ∧
          s.batcher.FailedWith f e ∧ e.isRuntimeError = true)) ∧
    (∀ i text e, ⟨i, text, .error e⟩ ∈ gateLog lib args t₀ es → e.cls = .circuitOpenError) ∧
    (∀ t ∈ s.batcher.tasks, ∀ it ∈ t.batch,
      ∃ i, ⟨i, it.text, .ok it.future⟩ ∈ gateLog lib args t₀ es ∧
        ¬ Rejected (gateLog lib args t₀ es) i) ∧
    (s.requests.countP (fun req => req.status = some 503) =
      s.batcher.circuitBreaker.rejections + (gateLog lib args t₀ es).countP fun p =>
        p.isAdmitted && (s.requests[p.request]?.bind Request.status) = some 503) ∧
    (∀ i req f e, s.requests[i]? = some req → Admitted (gateLog lib args t₀ es) i f →
      req.response.isSome = true → s.batcher.FailedWith f e → e.isRuntimeError = false →
      req.status = some 500) := by
  have hl := logged_exec hrun
  obtain ⟨-, bs, hbs⟩ := batcher_run hrun
  have hb : FlowInv s.batcher := flowInv_exec hbs
  have hm : AnswersMatch s.batcher := answers_exec hbs
  have hc := rejected_exec hbs
  refine ⟨fun i req hi => hl.status_iff hm hb hc hi, ?_, ?_, hl.count hm hb hc
    (rejections_exec hbs), ?_⟩
  · intro i text e hp
    obtain ⟨req, hi, -, -⟩ := hl.entered _ hp
    exact (hl.rejected hc hp hi).1
  · intro t ht it hit
    obtain ⟨k, hk⟩ := List.mem_iff_getElem?.mp ht
    obtain ⟨i, hp⟩ := hl.items_eq (hb.task_mem hk hit)
    refine ⟨i, hp, ?_⟩
    rintro ⟨text, e, hp'⟩
    cases (hl.unique hp hp').2
  · intro i req f e hi ha hr hf he
    obtain ⟨response, hr⟩ := Option.isSome_iff_exists.mp hr
    have hphase := Request.response_eq_some_iff.mp hr
    refine status_eq_some_iff.mpr ⟨response, hphase, ?_⟩
    rw [hl.failed hm hb ha hi hphase hf]
    simp [failure, he, internalError, Response.status]

/-- What the two runs below do with the request `i` alone in the batch `i`. -/
def failedRequest (i : ℕ) (text : String) (e : PyException) : List (ℚ × ServerAction) :=
  [(0, .arrive text), (0, .lookup i (.ok none)), (0, .resume i), (0, .batcher .collectFirst),
    (0, .batcher .loopTest), (0, .batcher .acquire), (0, .batcher .dispatch),
    (0, .batcher (.callPredictFn i)), (0, .batcher (.finish i (.raised e))), (0, .complete i)]

/-- A batch fails with a `ValueError`, the next one with a `RuntimeError`, and the breaker rejects
the third request. -/
def threeFailures : List (ℚ × ServerAction) :=
  (0, .batcher .start) :: failedRequest 0 "a" ⟨.other, "no tokens"⟩ ++
    failedRequest 1 "b" ⟨.runtimeError, "out of memory"⟩ ++
    [(0, .arrive "c"), (0, .lookup 2 (.ok none)), (0, .resume 2)]

/-- One of the two responses with 503 is a rejection. -/
theorem status_503_mixed :
    ∃ s, Machine.exec (step noLibrary) (new ⟨1, 0, 2, ⟨2, 1⟩⟩ 0) threeFailures = some s ∧
      s.requests.map Request.status = [some 500, some 503, some 503] ∧
      2 = s.batcher.circuitBreaker.rejections +
        (gateLog noLibrary ⟨1, 0, 2, ⟨2, 1⟩⟩ 0 threeFailures).countP fun p =>
          p.isAdmitted && (s.requests[p.request]?.bind Request.status) = some 503 := by
  obtain ⟨s, hs, hst, hcount⟩ :
      ∃ s ∈ Machine.exec (step noLibrary) (new ⟨1, 0, 2, ⟨2, 1⟩⟩ 0) threeFailures,
        s.requests.map Request.status = [some 500, some 503, some 503] ∧
        s.requests.countP (fun req => req.status = some 503) = 2 := by
    decide +kernel
  have h := (status_503 noLibrary _ 0 threeFailures s hs).2.2.2.1
  rw [hcount] at h
  exact ⟨s, hs, hst, h⟩

/-- **A 503 that sheds no load**: the breaker is closed and has rejected nobody, the request was
handed to `predict_fn`, which raised a `RuntimeError`, and it is answered with 503. -/
theorem failed_batch_503 :
    ∃ s, Machine.exec (step noLibrary) (new ⟨1, 0, 4, {}⟩ 0)
        ((0, .batcher .start) :: failedRequest 0 "a" ⟨.runtimeError, "out of memory"⟩) = some s ∧
      (∃ req ∈ s.requests[0]?, req.status = some 503) ∧
      (∃ t ∈ s.batcher.tasks, ∃ it ∈ t.batch, it.text = "a") ∧
      (∀ p ∈ gateLog noLibrary ⟨1, 0, 4, {}⟩ 0
        ((0, .batcher .start) :: failedRequest 0 "a" ⟨.runtimeError, "out of memory"⟩),
          p.isAdmitted = true) ∧
      s.batcher.circuitBreaker.rejections = 0 := by
  decide +kernel

end Server

end InferenceServer
