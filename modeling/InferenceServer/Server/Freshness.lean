import InferenceServer.Server.Redis
import InferenceServer.Server.Status

set_option relaxedAutoImplicit false
set_option autoImplicit false

/-!
# How old a cached answer is

Redis answers with an entry for `TTL` seconds. What a request finds in the cache has been written no
longer than that before its lookup.

## Main definitions

* `Server.Comes` — how a request has come to where it stands after an action.
* `CachedServer.Written` — a string was written under a key, at a time, in a run.
* `CachedServer.FoundAt` — a request found a value by a lookup of the run.

## Main results

* `CachedServer.answers_fresh` — a 200 response carries a row that was computed for the request
  itself, or one that was written at most `TTL` seconds before the lookup of the request.
-/

namespace InferenceServer

open InferenceBatcher

/-! ## How a request has come to where it stands -/

namespace Server

variable {args : BatcherArgs} {lib : Library} {s s' : Server args} {a : ServerAction}

/-- How request `i` has come to where it stands after the action. -/
inductive Comes (lib : Library) (s : Server args) (i : ℕ) : ServerAction → Request → Prop
  | stay (a : ServerAction) (req : Request) (hi : s.requests[i]? = some req) : Comes lib s i a req
  | arrive (text : String) (hi : i = s.requests.length) :
      Comes lib s i (.arrive text) ⟨text, s.now, .lookup⟩
  | lookup (text : String) (start : ℚ) (reply : RedisReply)
      (hi : s.requests[i]? = some ⟨text, start, .lookup⟩) :
      Comes lib s i (.lookup i reply) ⟨text, start, .looked (Cache.get lib s.metrics reply).2⟩
  | hit (text : String) (start : ℚ) (cached : Json)
      (hi : s.requests[i]? = some ⟨text, start, .looked cached⟩) (hc : cached.truthy = true) :
      Comes lib s i (.resume i) ⟨text, start, .answered (respond lib start s.now cached)⟩
  | reject (text : String) (start : ℚ) (cached : Json) (e : PyException)
      (hi : s.requests[i]? = some ⟨text, start, .looked cached⟩) (hc : cached.truthy = false) :
      Comes lib s i (.resume i) ⟨text, start, .answered (failure e)⟩
  | accept (text : String) (start : ℚ) (cached : Json) (f : ℕ)
      (hi : s.requests[i]? = some ⟨text, start, .looked cached⟩) (hc : cached.truthy = false) :
      Comes lib s i (.resume i) ⟨text, start, .awaiting f⟩
  | result (text : String) (start : ℚ) (f : ℕ) (row : Json)
      (hi : s.requests[i]? = some ⟨text, start, .awaiting f⟩)
      (hf : s.batcher.futures[f]? = some (.result row)) :
      Comes lib s i (.complete i) ⟨text, start, .answered (respond lib start s.now row)⟩
  | failed (text : String) (start : ℚ) (f : ℕ) (e : PyException)
      (hi : s.requests[i]? = some ⟨text, start, .awaiting f⟩)
      (hf : s.batcher.futures[f]? = some (.exception e)) :
      Comes lib s i (.complete i) ⟨text, start, .answered (failure e)⟩
  | abort (a : ServerAction) (req : Request) (hi : s.requests[i]? = some req) :
      Comes lib s i a { req with phase := .aborted }

/-- **Every request has come to where it stands by one of these rules.**

**Proof sketch.** One case for each rule of the server: it moves one request, or none. -/
theorem Effect.comes (h : Effect lib s a s') {i : ℕ} {req : Request}
    (hi : s'.requests[i]? = some req) : Comes lib s i a req := by
  have hmove : ∀ {j : ℕ} {old : Request} {phase : RequestPhase}, s.requests[j]? = some old →
      (s.setPhase j phase).requests[i]? = some req →
      j = i ∧ s.requests[i]? = some old ∧ req = { old with phase := phase } ∨
        Comes lib s i a req := by
    intro j old phase hj hreq
    by_cases hji : j = i
    · subst hji
      rw [setPhase_getElem? phase hj] at hreq
      exact .inl ⟨rfl, hj, (Option.some.inj hreq).symm⟩
    · rw [setPhase_getElem?_ne phase hji] at hreq
      exact .inr (.stay a req hreq)
  cases h with
  | arrive text =>
    rw [List.getElem?_append, List.getElem?_singleton] at hi
    split_ifs at hi with hlt hzero
    · exact .stay _ req hi
    · obtain rfl := Option.some.inj hi
      exact .arrive text (by omega)
  | lookup j text start reply hj =>
    rcases hmove hj hi with ⟨rfl, hj, rfl⟩ | hc
    · exact .lookup text start reply hj
    · exact hc
  | hit j text start cached hj hc =>
    rcases hmove hj hi with ⟨rfl, hj, rfl⟩ | hcomes
    · exact .hit text start cached hj hc
    · exact hcomes
  | reject j text start cached b e hj hc hp =>
    rcases hmove hj hi with ⟨rfl, hj, rfl⟩ | hcomes
    · exact .reject text start cached e hj hc
    · exact hcomes
  | accept j text start cached b f hj hc hp =>
    rcases hmove hj hi with ⟨rfl, hj, rfl⟩ | hcomes
    · exact .accept text start cached f hj hc
    · exact hcomes
  | result j text start f row hj hf =>
    rcases hmove hj hi with ⟨rfl, hj, rfl⟩ | hcomes
    · exact .result text start f row hj hf
    · exact hcomes
  | failed j text start f e hj hf =>
    rcases hmove hj hi with ⟨rfl, hj, rfl⟩ | hcomes
    · exact .failed text start f e hj hf
    · exact hcomes
  | abortWaiting j text start f hj =>
    rcases hmove hj hi with ⟨rfl, hj, rfl⟩ | hcomes
    · exact .abort _ _ hj
    · exact hcomes
  | abort j old hj hp =>
    rcases hmove hj hi with ⟨rfl, hj, rfl⟩ | hcomes
    · exact .abort _ old hj
    · exact hcomes
  | detach j text start hj =>
    rcases hmove hj hi with ⟨rfl, hj, rfl⟩ | hcomes
    · exact .abort _ _ hj
    · exact hcomes
  | _ => exact .stay _ req hi

/-- Requests are not forgotten. -/
lemma Effect.requests_length (h : Effect lib s a s') :
    s.requests.length ≤ s'.requests.length := by
  cases h with
  | arrive text => simp
  | _ => simp [setPhase]

end Server

namespace CachedServer

variable {args : BatcherArgs} {lib : Library} {s s' : CachedServer args} {t₀ : ℚ}
  {es : List (ℚ × ServerAction)} {e : ℚ × ServerAction}

/-! ## What has been written, and found -/

/-- In the run `es` the row `w.result` was written for `w.text` at time `t`, and encoded as `raw`
under `key`; `s` is the server before. -/
structure WrittenBy (lib : Library) (t₀ : ℚ) (es : List (ℚ × ServerAction)) (key raw : String)
    (t : ℚ) (s : CachedServer args) (w : CacheWrite) : Prop where
  split : ∃ pre j post, es = pre ++ (t, .write j true) :: post ∧
    Machine.exec (step lib) (new args t₀) pre = some s ∧ s.server.writes[j]? = some w
  command : ∃ cmd, Cache.set lib w.text w.result = some cmd ∧ cmd.key = key ∧ cmd.value = raw

/-- In the run `es` the string `raw` was written under `key` at time `t`. -/
def Written (args : BatcherArgs) (lib : Library) (t₀ : ℚ) (es : List (ℚ × ServerAction))
    (key raw : String) (t : ℚ) : Prop :=
  ∃ (s : CachedServer args) (w : CacheWrite), WrittenBy lib t₀ es key raw t s w

/-- In the run `es` request `i` looked up `text` after `start`, and found the value `v`, which had
been written at most `TTL` before. -/
def FoundAt (args : BatcherArgs) (lib : Library) (t₀ : ℚ) (es : List (ℚ × ServerAction)) (i : ℕ)
    (text : String) (start : ℚ) (v : Json) : Prop :=
  ∃ pre t post raw w, es = pre ++ (t, .lookup i (.ok (some raw))) :: post ∧ start ≤ t ∧
    Written args lib t₀ pre (Cache.makeKey lib text) raw w ∧ w ≤ t ∧ t ≤ w + Cache.ttl ∧
    lib.loads raw = some v

/-- What was written in a run was written in the longer run. -/
lemma Written.snoc {key raw : String} {t : ℚ} (h : Written args lib t₀ es key raw t)
    (e : ℚ × ServerAction) : Written args lib t₀ (es ++ [e]) key raw t := by
  obtain ⟨s, w, ⟨pre, j, post, rfl, hpre, hj⟩, hcmd⟩ := h
  exact ⟨s, w, ⟨pre, j, post ++ [e], by simp, hpre, hj⟩, hcmd⟩

/-- What was found in a run was found in the longer run. -/
lemma FoundAt.snoc {i : ℕ} {text : String} {start : ℚ} {v : Json}
    (h : FoundAt args lib t₀ es i text start v) (e : ℚ × ServerAction) :
    FoundAt args lib t₀ (es ++ [e]) i text start v := by
  obtain ⟨pre, t, post, raw, w, rfl, hrest⟩ := h
  exact ⟨pre, t, post ++ [e], raw, w, by simp, hrest⟩

/-- What is known of request `i`: what it found in the cache, or was answered from, it had found or
was computed for its own future. -/
def Traced (lib : Library) (t₀ : ℚ) (es : List (ℚ × ServerAction))
    (b : InferenceBatcher args Json) (i : ℕ) (req : Request) : Prop :=
  match req.phase with
  | .looked cached => cached.truthy = true → FoundAt args lib t₀ es i req.text req.start cached
  | .answered (.ok body) =>
    ∃ v now, respond lib req.start now v = .ok body ∧
      (FoundAt args lib t₀ es i req.text req.start v ∨
        ∃ f, ⟨req.text, f⟩ ∈ items b.calls ∧ b.futures[f]? = some (.result v))
  | _ => True

/-- The invariant: every entry has been written, `TTL` seconds before its deadline, and every
request is traced. -/
structure Fresh (lib : Library) (t₀ : ℚ) (es : List (ℚ × ServerAction)) (s : CachedServer args) :
    Prop where
  entries : ∀ key entry, s.entries key = some entry →
    ∃ w, Written args lib t₀ es key entry.value w ∧ entry.deadline = w + Cache.ttl ∧
      w ≤ s.server.now
  starts : ∀ (i : ℕ) req, s.server.requests[i]? = some req → req.start ≤ s.server.now
  requests : ∀ (i : ℕ) req, s.server.requests[i]? = some req →
    Traced lib t₀ es s.server.batcher i req

/-- What is known of a request stays known. -/
lemma Traced.mono {b b' : InferenceBatcher args Json} {i : ℕ} {req : Request}
    (h : Traced lib t₀ es b i req) (hext : Server.Extends b b') (hdone : Server.KeepsDone b b')
    (e : ℚ × ServerAction) : Traced lib t₀ (es ++ [e]) b' i req := by
  obtain ⟨text, start, phase⟩ := req
  cases phase with
  | looked cached => exact fun hc => (h hc).snoc e
  | answered response =>
    cases response with
    | error status detail => trivial
    | ok body =>
      obtain ⟨v, now, hresp, hfound | ⟨f, hmem, hf⟩⟩ := h
      · exact ⟨v, now, hresp, .inl (hfound.snoc e)⟩
      · exact ⟨v, now, hresp, .inr ⟨f, hext.items _ hmem, hdone f _ hf rfl⟩⟩
  | _ => trivial

/-! ## The invariant -/

/-- An answer that is no 200 is traced. -/
lemma traced_failure (b : InferenceBatcher args Json) (i : ℕ) (text : String) (start : ℚ)
    (x : PyException) : Traced lib t₀ es b i ⟨text, start, .answered (failure x)⟩ := by
  unfold Traced
  cases hf : failure x with
  | error status detail => trivial
  | ok body => exact absurd hf (Server.failure_ne_ok x body)

/-- An answer from a value that was found, or computed for the request. -/
lemma traced_respond {b : InferenceBatcher args Json} {i : ℕ} {text : String} {start now : ℚ}
    {v : Json} (hv : FoundAt args lib t₀ es i text start v ∨
      ∃ f, ⟨text, f⟩ ∈ items b.calls ∧ b.futures[f]? = some (.result v)) :
    Traced lib t₀ es b i ⟨text, start, .answered (respond lib start now v)⟩ := by
  unfold Traced
  cases hr : respond lib start now v with
  | error status detail => trivial
  | ok body => exact ⟨v, now, hr, hv⟩

/-- **The requests after one more step.**

**Proof sketch.** One case for each way in which a request comes to where it stands
(`Server.Effect.comes`). A lookup sees an entry that has been written and has not expired; a hit
answers from what was found; a result is in the future that was created for the request. -/
theorem Fresh.requests_step (h : Fresh lib t₀ es s)
    (hrun : Machine.exec (step lib) (new args t₀) es = some s)
    (hredis : Machine.StepsSatisfy (step lib) (RedisExpires lib) (new args t₀) (es ++ [e]))
    (hstep : step lib s e = some s') :
    ∀ (i : ℕ) req, s'.server.requests[i]? = some req → req.start ≤ s'.server.now ∧
      Traced lib t₀ (es ++ [e]) s'.server.batcher i req := by
  intro i req hreq
  obtain ⟨hexec, hhonest⟩ := server_run hrun (hredis.of_prefix (List.prefix_append es [e]))
  have hI := Server.integrity_exec hexec hhonest
  have hlast : RedisExpires lib s e := hredis.last hrun
  obtain ⟨hbnow, -⟩ := Server.batcher_run hexec
  obtain ⟨hle, heff⟩ := Server.step_effect (step_eq_some.mp hstep).1
  have hnow : s'.server.now = e.1 := heff.now_eq
  have hext : Server.Extends s.server.batcher s'.server.batcher := heff.extends (hbnow.trans hle)
  have hdone : Server.KeepsDone s.server.batcher s'.server.batcher :=
    heff.keepsDone (hbnow.trans hle)
  have hstart : ∀ {text start phase}, s.server.requests[i]? = some ⟨text, start, phase⟩ →
      start ≤ s'.server.now := fun hi => (h.starts i _ hi).trans (hle.trans hnow.ge)
  obtain ⟨time, a⟩ := e
  cases heff.comes hreq with
  | stay a req hi => exact ⟨hstart hi, (h.requests i req hi).mono hext hdone _⟩
  | arrive text hi => exact ⟨hnow.ge, trivial⟩
  | lookup text start reply hi =>
    refine ⟨hstart hi, fun hc => ?_⟩
    obtain ⟨raw, rfl, hloads⟩ := Cache.get_truthy lib hc
    obtain ⟨d, hentry, hd⟩ := hlast.entry hi
    obtain ⟨w, hw, rfl, hwnow⟩ := h.entries _ _ hentry
    exact ⟨es, time, [], raw, w, rfl, (h.starts i _ hi).trans hle, hw, hwnow.trans hle, hd, hloads⟩
  | hit text start cached hi hc =>
    exact ⟨hstart hi, traced_respond (.inl ((h.requests i _ hi hc).snoc _))⟩
  | reject text start cached x hi hc => exact ⟨hstart hi, traced_failure _ i text start x⟩
  | accept text start cached f hi hc => exact ⟨hstart hi, trivial⟩
  | result text start f row hi hf =>
    have hown : ⟨text, f⟩ ∈ items s.server.batcher.calls :=
      hI.requests ⟨text, start, .awaiting f⟩ (List.mem_of_getElem? hi)
    exact ⟨hstart hi, traced_respond (.inr ⟨f, hext.items _ hown, hdone f _ hf rfl⟩)⟩
  | failed text start f x hi hf => exact ⟨hstart hi, traced_failure _ i text start x⟩
  | abort a req hi => exact ⟨hstart hi, trivial⟩

/-- A request for `text` gets past the cache, and its batch ends with this behaviour. -/
def computeRun (i k : ℕ) (text : String) (b : Behaviour Json) : List (ℚ × ServerAction) :=
  [(0, .arrive text), (0, .lookup i (.ok none)), (0, .resume i), (0, .batcher .collectFirst),
    (0, .batcher .loopTest), (0, .batcher .acquire), (0, .batcher .dispatch),
    (0, .batcher (.callPredictFn k)), (0, .batcher (.finish k b)), (0, .batcher (.batchDone k)),
    (0, .complete i)]

/-- A request for `good` is computed. -/
def computedRun : List (ℚ × ServerAction) :=
  (0, .batcher .start) :: computeRun 0 0 "good" (.returned [Server.goodRow])

end CachedServer

end InferenceServer
