import InferenceServer.Batcher.Basic
import InferenceServer.Cache

set_option relaxedAutoImplicit false
set_option autoImplicit false

/-!
# The endpoint `/predict` (`app/main.py`)

The server as a machine: the requests to `/predict`, the batcher they share, and what goes on
detached from them: writes to the cache, and lookups whose request has been cancelled. A request
looks into the cache on a worker thread, goes back to the event loop with what it found, and is
answered from it or waits for the batcher.

## Main definitions

* `predictResponse`, `respond`, `failure` — how a row or an exception becomes a response.
* `Prediction` — the values that make a response.
* `Request`, `CacheWrite`, `Server` — the state.
* `Server.step` — the machine.

## Design

Redis may reply anything to a `GET`: the reply is part of the event. `stored` records what the
writes that have taken effect stored last, so that a property which needs an honest Redis can say
so of the replies. The batcher moves by its own machine, except that `predict` and the
cancellation of a caller belong to the requests here.

The cancellation of a request does not stop a `cache.get` that a worker thread has begun: it runs to
its end, and what it finds is dropped (`detach`, `stray`). One that has not begun is cancelled, too
(`abort`).
-/

namespace InferenceServer

/-- `PredictResponse`. A float that is not finite is rendered as `null`. -/
structure PredictResponse where
  label : String
  score : PyFloat
  latencyMs : PyFloat
  deriving DecidableEq, Repr

/-- A response of `/predict`. -/
inductive Response
  | ok (body : PredictResponse)
  | error (status : ℕ) (detail : String)
  deriving DecidableEq, Repr

/-- The response is a 200. -/
def Response.isOk : Response → Bool
  | .ok _ => true
  | .error _ _ => false

/-- The response to an exception that the endpoint does not handle. -/
def internalError : Response := .error 500 "Internal Server Error"

section Responses

variable (lib : Library)

/-- The validation of the returned `dict` against `PredictResponse`. -/
def predictResponse (content : List (PyStr × Json)) : Option PredictResponse := do
  let label ← (dictGet content "label").bind lib.strField
  let score ← (dictGet content "score").bind lib.floatField
  let latencyMs ← (dictGet content "latency_ms").bind lib.floatField
  return ⟨label, score, latencyMs⟩

/-- `return {**row, "latency_ms": round(elapsed_ms, 2)}`, validated. A row that is no mapping
raises a `TypeError`. -/
def respond (start now : ℚ) : Json → Response
  | .obj fields =>
    match predictResponse lib
        (dictSet fields "latency_ms" (.float (.finite (pyRound ((now - start) * 1000) 2)))) with
    | some body => .ok body
    | none => internalError
  | _ => internalError

end Responses

/-- What a response carries. -/
lemma predictResponse_eq_some {lib : Library} {content : List (PyStr × Json)}
    {body : PredictResponse} :
    predictResponse lib content = some body ↔
      (dictGet content "label").bind lib.strField = some body.label ∧
        (dictGet content "score").bind lib.floatField = some body.score ∧
        (dictGet content "latency_ms").bind lib.floatField = some body.latencyMs := by
  obtain ⟨label, score, latencyMs⟩ := body
  unfold predictResponse
  simp only [bind, Option.bind_eq_some_iff, pure, Option.some.injEq, PredictResponse.mk.injEq]
  constructor
  · rintro ⟨l, hl, x, hx, y, hy, rfl, rfl, rfl⟩
    exact ⟨hl, hx, hy⟩
  · rintro ⟨hl, hx, hy⟩
    exact ⟨_, hl, _, hx, _, hy, rfl, rfl, rfl⟩

/-- A 200 response carries the label and the score of the row behind it, and the time since the
request came. -/
lemma respond_eq_ok_iff {lib : Library} {start now : ℚ} {row : Json} {body : PredictResponse} :
    respond lib start now row = .ok body ↔
      ∃ fields, row = .obj fields ∧
        (dictGet fields "label").bind lib.strField = some body.label ∧
        (dictGet fields "score").bind lib.floatField = some body.score ∧
        body.latencyMs = .finite (pyRound ((now - start) * 1000) 2) := by
  have hfields : ∀ fields, respond lib start now (.obj fields) = .ok body ↔
      predictResponse lib (dictSet fields "latency_ms"
        (.float (.finite (pyRound ((now - start) * 1000) 2)))) = some body := by
    intro fields
    unfold respond
    dsimp only
    split
    · rename_i body' hbody
      rw [hbody, Response.ok.injEq, Option.some.injEq]
    · rename_i hnone
      simp [hnone, internalError]
  cases row with
  | obj fields =>
    rw [hfields, predictResponse_eq_some, dictGet_dictSet_of_ne (by decide),
      dictGet_dictSet_of_ne (by decide), dictGet_dictSet_self, Option.bind_some,
      lib.floatField_finite, Option.some.injEq, eq_comm (a := PyFloat.finite _)]
    simp
  | _ => simp [respond, internalError]

/-- The label of a response is the label of the row, and the score is how the field reads it. -/
lemma respond_eq_ok {lib : Library} {start now : ℚ} {row : Json} {body : PredictResponse}
    (h : respond lib start now row = .ok body) :
    ∃ fields, row = .obj fields ∧ dictGet fields "label" = some (.str body.label) ∧
      (dictGet fields "score").bind lib.floatField = some body.score := by
  obtain ⟨fields, rfl, hlabel, hscore, -⟩ := respond_eq_ok_iff.mp h
  obtain ⟨v, hv, hread⟩ := Option.bind_eq_some_iff.mp hlabel
  rw [lib.strField_eq v body.label hread] at hv
  exact ⟨fields, rfl, hv, hscore⟩

/-- A value that makes a response: an object whose label and score are accepted. -/
def Prediction (lib : Library) (v : Json) : Prop :=
  ∃ fields label score, v = .obj fields ∧ (dictGet fields "label").bind lib.strField = some label ∧
    (dictGet fields "score").bind lib.floatField = some score

/-- `Prediction`, evaluated. -/
def isPrediction (lib : Library) : Json → Bool
  | .obj fields => ((dictGet fields "label").bind lib.strField).isSome &&
      ((dictGet fields "score").bind lib.floatField).isSome
  | _ => false

lemma isPrediction_iff {lib : Library} {v : Json} :
    isPrediction lib v = true ↔ Prediction lib v := by
  cases v <;> simp [isPrediction, Prediction, Option.isSome_iff_exists]

instance (lib : Library) (v : Json) : Decidable (Prediction lib v) :=
  decidable_of_iff _ isPrediction_iff

/-- A value that makes a response counts as true. -/
lemma truthy_of_prediction {lib : Library} {v : Json} (h : Prediction lib v) : v.truthy = true := by
  obtain ⟨fields, label, score, rfl, hlabel, -⟩ := h
  cases fields with
  | nil => cases hlabel
  | cons e rest => rfl

/-- A value is answered with 200 exactly when it makes a response. -/
lemma respond_ok_iff {lib : Library} {start now : ℚ} {v : Json} :
    (∃ body, respond lib start now v = .ok body) ↔ Prediction lib v := by
  constructor
  · rintro ⟨body, h⟩
    obtain ⟨fields, hv, hlabel, hscore, -⟩ := respond_eq_ok_iff.mp h
    exact ⟨fields, body.label, body.score, hv, hlabel, hscore⟩
  · rintro ⟨fields, label, score, hv, hlabel, hscore⟩
    exact ⟨⟨label, score, _⟩, respond_eq_ok_iff.mpr ⟨fields, hv, hlabel, hscore, rfl⟩⟩

/-- A value that makes no response is answered with 500. -/
lemma respond_eq_internalError {lib : Library} {start now : ℚ} {v : Json}
    (h : ¬ Prediction lib v) : respond lib start now v = internalError := by
  cases hresp : respond lib start now v with
  | ok body => exact absurd (respond_ok_iff.mp ⟨body, hresp⟩) h
  | error status detail =>
    rw [← hresp]
    unfold respond at hresp ⊢
    split
    · split
      · rename_i hb
        simp [hb] at hresp
      · rfl
    · rfl

/-- An exception from `await batcher.predict(...)`: `except RuntimeError` makes it a 503. Any other
is a 500, as none is an `HTTPException` or the like, which FastAPI would handle. -/
def failure (e : PyException) : Response :=
  if e.isRuntimeError then .error 503 e.message else internalError

/-- Where a request stands. -/
inductive RequestPhase
  /-- `await asyncio.to_thread(cache.get, request.text)` -/
  | lookup
  /-- `cache.get` has returned, and the endpoint has not resumed -/
  | looked (cached : Json)
  /-- `await batcher.predict(request.text)` -/
  | awaiting (future : ℕ)
  | answered (response : Response)
  /-- its client has gone -/
  | aborted

/-- A request to `/predict`. -/
structure Request where
  text : String
  start : ℚ
  phase : RequestPhase

/-- The response to a request, once there is one. -/
def Request.response (req : Request) : Option Response :=
  match req.phase with
  | .answered response => some response
  | _ => none

/-- A request has a response exactly when it has been answered. -/
lemma Request.response_eq_some_iff {req : Request} {response : Response} :
    req.response = some response ↔ req.phase = .answered response := by
  unfold Request.response
  split
  · rename_i r hp
    rw [hp]
    simp
  · rename_i hn
    simp only [reduceCtorEq, false_iff]
    exact hn response

/-- A detached `cache.set(text, result)` that has not run. -/
structure CacheWrite where
  text : String
  result : Json

/-- The server: its batcher, the requests so far, the detached writes, the texts of the detached
lookups, what the writes that took effect stored last under each key, and the counters of the
cache. -/
structure Server (args : BatcherArgs) where
  batcher : InferenceBatcher args Json
  requests : List Request
  writes : List CacheWrite
  strays : List String
  stored : String → Option String
  metrics : CacheMetrics
  now : ℚ

/-- What can happen next. -/
inductive ServerAction
  /-- a request for `text` arrives -/
  | arrive (text : String)
  /-- the `GET` of request `i` has this reply, and `cache.get` returns -/
  | lookup (i : ℕ) (reply : RedisReply)
  /-- request `i` goes on with what it found in the cache -/
  | resume (i : ℕ)
  /-- request `i` goes on after `await batcher.predict(...)` -/
  | complete (i : ℕ)
  /-- the client of request `i` goes -/
  | abort (i : ℕ)
  /-- the client of request `i` goes while a worker thread is in its `cache.get` -/
  | detach (i : ℕ)
  /-- the `GET` of the `j`-th detached lookup has this reply, and `cache.get` returns -/
  | stray (j : ℕ) (reply : RedisReply)
  /-- the `j`-th detached write runs, and takes effect or not -/
  | write (j : ℕ) (effective : Bool)
  /-- the batcher moves -/
  | batcher (a : Action Json)

/-- The batcher moves by itself: not in a call of `predict`, nor in its cancellation. -/
def Action.isInternal {ρ : Type} : Action ρ → Bool
  | .predict _ => false
  | .cancel _ => false
  | _ => true

namespace Server

variable {args : BatcherArgs} (lib : Library)

/-- The server after its start, with an empty cache. -/
def new (args : BatcherArgs) (now : ℚ) : Server args where
  batcher := .new args Json now
  requests := []
  writes := []
  strays := []
  stored := fun _ => none
  metrics := ⟨0, 0⟩
  now := now

/-- Request `i` goes on to `phase`. -/
def setPhase (s : Server args) (i : ℕ) (phase : RequestPhase) : Server args :=
  { s with requests := s.requests.modify i fun req => { req with phase := phase } }

/-- `cache.get` on the worker thread. -/
def lookup (s : Server args) (i : ℕ) (reply : RedisReply) : Option (Server args) :=
  match s.requests[i]? with
  | some ⟨_, _, .lookup⟩ =>
    some
      { s.setPhase i (.looked (Cache.get lib s.metrics reply).2) with
        metrics := (Cache.get lib s.metrics reply).1 }
  | _ => none

/-- `if cached: return ...`, else `batcher.predict` up to its `await`. -/
def resume (s : Server args) (i : ℕ) : Option (Server args) :=
  match s.requests[i]? with
  | some ⟨text, start, .looked cached⟩ =>
    if cached.truthy then some (s.setPhase i (.answered (respond lib start s.now cached)))
    else
      match { s.batcher with now := s.now }.predict text with
      | (b, .error e) => some { s.setPhase i (.answered (failure e)) with batcher := b }
      | (b, .ok f) => some { s.setPhase i (.awaiting f) with batcher := b }
  | _ => none

/-- The end of `await batcher.predict(...)`. -/
def complete (s : Server args) (i : ℕ) : Option (Server args) :=
  match s.requests[i]? with
  | some ⟨text, start, .awaiting f⟩ =>
    match s.batcher.futures[f]? with
    | some (.result row) =>
      some
        { s.setPhase i (.answered (respond lib start s.now row)) with
          writes := s.writes ++ [⟨text, row⟩] }
    | some (.exception e) => some (s.setPhase i (.answered (failure e)))
    | _ => none
  | _ => none

/-- The cancellation of a request. -/
def abort (s : Server args) (i : ℕ) : Option (Server args) :=
  match s.requests[i]? with
  | some ⟨_, _, .awaiting f⟩ =>
    some
      { s.setPhase i .aborted with
        batcher := { s.batcher with now := s.now }.cancelCaller f }
  | some ⟨_, _, .lookup⟩ => some (s.setPhase i .aborted)
  | some ⟨_, _, .looked _⟩ => some (s.setPhase i .aborted)
  | _ => none

/-- The cancellation of a request whose `cache.get` runs on. -/
def detach (s : Server args) (i : ℕ) : Option (Server args) :=
  match s.requests[i]? with
  | some ⟨text, _, .lookup⟩ => some { s.setPhase i .aborted with strays := s.strays ++ [text] }
  | _ => none

/-- `cache.get` on the worker thread, for nobody. -/
def stray (s : Server args) (j : ℕ) (reply : RedisReply) : Option (Server args) :=
  if j < s.strays.length then
    some { s with
      strays := s.strays.eraseIdx j
      metrics := (Cache.get lib s.metrics reply).1 }
  else none

/-- `cache.set` on the worker thread. -/
def write (s : Server args) (j : ℕ) (effective : Bool) : Option (Server args) :=
  match s.writes[j]? with
  | some w =>
    match Cache.set lib w.text w.result, effective with
    | some cmd, true =>
      some { s with
        writes := s.writes.eraseIdx j
        stored := fun key => if key = cmd.key then some cmd.value else s.stored key }
    | _, _ => some { s with writes := s.writes.eraseIdx j }
  | none => none

/-- The effect of an action at time `s.now`. -/
def act (s : Server args) : ServerAction → Option (Server args)
  | .arrive text => some { s with requests := s.requests ++ [⟨text, s.now, .lookup⟩] }
  | .lookup i reply => s.lookup lib i reply
  | .resume i => s.resume lib i
  | .complete i => s.complete lib i
  | .abort i => s.abort i
  | .detach i => s.detach i
  | .stray j reply => s.stray lib j reply
  | .write j effective => s.write lib j effective
  | .batcher a =>
    if a.isInternal then (s.batcher.step (s.now, a)).map fun b => { s with batcher := b } else none

/-- The machine: an action at a clock reading that is not before the latest one. -/
def step (s : Server args) (e : ℚ × ServerAction) : Option (Server args) :=
  if s.now ≤ e.1 then act lib { s with now := e.1 } e.2 else none

end Server

end InferenceServer
