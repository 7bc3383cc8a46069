import InferenceServer.Batcher.Failures
import InferenceServer.Server.Accounting

set_option relaxedAutoImplicit false
set_option autoImplicit false

/-!
# The cache fails open

`cache.get` swallows every exception of Redis and of the decoder, but the decoded value leaves it
and is spread into the response by `predict`. A request that goes on after its lookup is compared
with the same request after an empty lookup, and a whole run with the run in which Redis had
nothing to say.

## Main definitions

* `Cache.found` — the value that `get` returns on a reply.
* `Server.FailsOpen` — a request goes on as the cache promises.
* `Usable` — the replies that can be served.
* `Server.withoutCache` — the same event, with nothing found and nothing stored.
* `Server.Moves`, `Server.Seen` — what an action does to one request, and the invariant: each
  request goes on with what its own lookup found.

## Main results

* `Server.failsOpen_iff` — when one request fails open.
* `Server.exec_withoutCache` — a run without the cache has the same batcher and responses.
* `Server.cache_fails_open` — when every request of a run fails open.
* `Server.cache_fails_open_array` — when it does not.
-/

namespace InferenceServer

/-- The value that `get` returns: it does not depend on the counters. -/
def Cache.found (lib : Library) (reply : RedisReply) : Json := (Cache.get lib ⟨0, 0⟩ reply).2

/-- The counters have no part in the value. -/
lemma Cache.get_eq_found (lib : Library) (m : CacheMetrics) (reply : RedisReply) :
    (Cache.get lib m reply).2 = Cache.found lib reply := by
  unfold Cache.found Cache.get
  split
  · split_ifs
    · split <;> rfl
    · rfl
  all_goals rfl

/-- Nothing found counts as false. -/
@[simp] lemma Json.truthy_null : Json.null.truthy = false := rfl

/-- An empty lookup. -/
@[simp] lemma Cache.found_none (lib : Library) : Cache.found lib (.ok none) = .null := rfl

/-- A reply that can be served, or that counts as nothing found. -/
def Usable (lib : Library) (reply : RedisReply) : Prop :=
  ∀ raw v, reply = .ok (some raw) → raw ≠ "" → lib.loads raw = some v → v.truthy = true →
    Prediction lib v

/-- What a reply holds is what `get` returns. -/
lemma usable_iff {lib : Library} {reply : RedisReply} :
    Usable lib reply ↔
      ((Cache.found lib reply).truthy = true → Prediction lib (Cache.found lib reply)) := by
  constructor
  · intro h ht
    obtain ⟨raw, rfl, hraw⟩ := Cache.get_truthy lib ht
    by_cases hne : raw = ""
    · simp [Cache.found, Cache.get, hne, Json.truthy] at ht
    · exact h raw _ rfl hne hraw ht
  · rintro h raw v rfl hne hraw hv
    have hfound : Cache.found lib (.ok (some raw)) = v := by
      simp [Cache.found, Cache.get, hne, hraw]
    rw [hfound] at h
    exact h hv

/-- The exception of `batcher.predict` is answered with 503. -/
lemma failure_check {args : BatcherArgs} {b b' : InferenceBatcher args Json} {text : String}
    {e : PyException} (h : b.predict text = (b', .error e)) :
    failure e = .error 503 e.message := by
  have hcls : e.cls = .circuitOpenError := by
    unfold InferenceBatcher.predict at h
    split at h
    · rename_i cb e' hc
      obtain ⟨-, he⟩ := Prod.mk.inj h
      rw [← Except.error.inj he]
      exact InferenceBatcher.check_error hc
    · cases h
  simp [failure, PyException.isRuntimeError, hcls]

namespace Server

variable {args : BatcherArgs} {lib : Library} {s s' t : Server args} {a : ServerAction}

/-! ## One request -/

/-- Request `i` goes on after its lookup with a prediction read from the cache, or exactly as if
there were no cache. -/
def FailsOpen (lib : Library) (s : Server args) (i : ℕ) : Prop :=
  (∃ req fields body, s.requests[i]? = some req ∧ req.phase = .looked (.obj fields) ∧
    dictGet fields "label" = some (.str body.label) ∧
    (dictGet fields "score").bind lib.floatField = some body.score ∧
    s.resume lib i = some (s.setPhase i (.answered (.ok body)))) ∨
  s.resume lib i = (s.setPhase i (.looked .null)).resume lib i

/-- A later phase replaces an earlier one. -/
lemma setPhase_setPhase (i : ℕ) (phase phase' : RequestPhase) :
    (s.setPhase i phase).setPhase i phase' = s.setPhase i phase' := by
  have hreq : ((s.requests.modify i fun req => { req with phase := phase }).modify i
      fun req => { req with phase := phase' }) =
        s.requests.modify i fun req => { req with phase := phase' } := by
    refine List.ext_getElem? fun j => ?_
    simp only [List.getElem?_modify]
    cases s.requests[j]? with
    | none => rfl
    | some req => split_ifs <;> simp
  simp only [setPhase, hreq]

/-- A request that is answered with 500 has not found an empty cache: without a value it waits for
the batcher, or is answered with 503.

**Proof sketch.** Read off the phase of the request in either branch of `batcher.predict`. -/
lemma resume_null_ne {i : ℕ} {req : Request} (hi : s.requests[i]? = some req) :
    (s.setPhase i (.looked .null)).resume lib i ≠
      some (s.setPhase i (.answered internalError)) := by
  intro h
  have hnull := setPhase_getElem? (.looked .null) hi
  have hafter := setPhase_getElem? (.answered internalError) hi
  rw [resume, hnull] at h
  simp only [Json.truthy_null, Bool.false_eq_true, if_false, setPhase_setPhase] at h
  split at h
  · rename_i b e hp
    have hreq := congrArg Server.requests (Option.some.inj h)
    have hgone := setPhase_getElem? (.answered (failure e)) hi
    rw [hreq, hafter] at hgone
    simp [failure_check hp, internalError] at hgone
  · rename_i b f hp
    have hreq := congrArg Server.requests (Option.some.inj h)
    have hgone := setPhase_getElem? (.awaiting f) hi
    rw [hreq, hafter] at hgone
    simp at hgone

/-- **One request fails open** exactly when the value that it found makes a response, or counts
as nothing found.

**Proof sketch.** A value that counts as false takes the branch of an empty cache. One that counts
as true is answered with 200 if it makes a response (`respond_ok_iff`), and with 500 otherwise
(`respond_eq_internalError`), which an empty cache never leads to (`resume_null_ne`). -/
theorem failsOpen_iff {i : ℕ} {text : String} {start : ℚ} {cached : Json}
    (hi : s.requests[i]? = some ⟨text, start, .looked cached⟩) :
    FailsOpen lib s i ↔ (cached.truthy = true → Prediction lib cached) := by
  have hnull := setPhase_getElem? (.looked .null) hi
  cases ht : cached.truthy with
  | false =>
    simp only [Bool.false_eq_true, false_implies, iff_true]
    refine .inr ?_
    rw [resume, resume, hi, hnull]
    simp only [ht, Json.truthy_null, Bool.false_eq_true, if_false, setPhase_setPhase]
    rfl
  | true =>
    have hres : s.resume lib i =
        some (s.setPhase i (.answered (respond lib start s.now cached))) := by
      rw [resume, hi]
      simp only [ht, if_true]
    simp only [forall_const]
    constructor
    · intro h
      by_contra hp
      rw [FailsOpen, hres, respond_eq_internalError hp] at h
      rcases h with ⟨req, fields, body, -, -, -, -, heq⟩ | heq
      · have hreq := congrArg Server.requests (Option.some.inj heq)
        have hok := setPhase_getElem? (.answered (.ok body)) hi
        rw [← hreq, setPhase_getElem? _ hi] at hok
        simp [internalError] at hok
      · exact resume_null_ne hi heq.symm
    · intro hp
      obtain ⟨body, hbody⟩ : ∃ body, respond lib start s.now cached = .ok body :=
        respond_ok_iff.mpr hp
      obtain ⟨fields, rfl, hlabel, hscore⟩ := respond_eq_ok hbody
      exact .inl ⟨_, fields, body, hi, rfl, hlabel, hscore, hbody ▸ hres⟩

/-! ## Every request goes on with what its own lookup found -/

/-- What the lookups and the continuations of a run have left of the request with number `i`. -/
structure SeenAt (lib : Library) (actions : List ServerAction) (i : ℕ) (r : Option Request) :
    Prop where
  looked : ∀ reply, ServerAction.lookup i reply ∈ actions →
    ∃ req, r = some req ∧ req.phase ≠ .lookup ∧
      ∀ cached, req.phase = .looked cached → cached = Cache.found lib reply
  resumed : ServerAction.resume i ∈ actions →
    ∃ req, r = some req ∧ req.phase ≠ .lookup ∧ ∀ cached, req.phase ≠ .looked cached
  found : ∀ req cached, r = some req → req.phase = .looked cached →
    ∃ reply, ServerAction.lookup i reply ∈ actions ∧ cached = Cache.found lib reply

/-- What they have left of all requests. -/
def Seen (lib : Library) (s : Server args) (actions : List ServerAction) : Prop :=
  ∀ i, SeenAt lib actions i s.requests[i]?

/-- What an action does to the request with number `j`. -/
inductive Moves (lib : Library) (a : ServerAction) (j : ℕ) :
    Option Request → Option Request → Prop
  /-- the action is about something else -/
  | keep {r : Option Request} (hl : ∀ reply, a ≠ .lookup j reply) (hr : a ≠ .resume j) :
      Moves lib a j r r
  | arrive (text : String) (start : ℚ) (ha : a = .arrive text) :
      Moves lib a j none (some ⟨text, start, .lookup⟩)
  | lookup (text : String) (start : ℚ) (reply : RedisReply) (ha : a = .lookup j reply) :
      Moves lib a j (some ⟨text, start, .lookup⟩)
        (some ⟨text, start, .looked (Cache.found lib reply)⟩)
  /-- the request gets past the cache, or had been there -/
  | leave (req : Request) (phase : RequestPhase) (hl : ∀ reply, a ≠ .lookup j reply)
      (hr : a = .resume j → ∃ cached, req.phase = .looked cached) (hn : phase ≠ .lookup)
      (hf : ∀ cached, phase ≠ .looked cached) :
      Moves lib a j (some req) (some { req with phase := phase })

/-- A request that gets past the cache leaves the others where they are. -/
lemma moves_setPhase {i j : ℕ} {req : Request} {phase : RequestPhase}
    (hi : s.requests[i]? = some req) (hl : ∀ k reply, a ≠ .lookup k reply)
    (hr : ∀ k, a = .resume k → k = i ∧ ∃ cached, req.phase = .looked cached)
    (hn : phase ≠ .lookup) (hf : ∀ cached, phase ≠ .looked cached) :
    Moves lib a j s.requests[j]? (s.setPhase i phase).requests[j]? := by
  by_cases hij : i = j
  · subst hij
    rw [setPhase_getElem? phase hi, hi]
    exact .leave req phase (hl i) (fun h => (hr i h).2) hn hf
  · rw [setPhase_getElem?_ne phase hij]
    exact .keep (hl j) fun h => hij (hr j h).1.symm

/-- Every action moves each request by one of these rules. -/
lemma Effect.moves (h : Effect lib s a s') (j : ℕ) :
    Moves lib a j s.requests[j]? s'.requests[j]? := by
  cases h with
  | arrive text =>
    rcases lt_trichotomy j s.requests.length with hj | hj | hj
    · rw [List.getElem?_append_left hj]
      exact .keep (fun _ => by simp) (by simp)
    · subst hj
      rw [List.getElem?_concat_length, List.getElem?_eq_none le_rfl]
      exact .arrive text s.now rfl
    · rw [List.getElem?_eq_none hj.le, List.getElem?_eq_none (by simp; omega)]
      exact .keep (fun _ => by simp) (by simp)
  | lookup i text start reply hi =>
    by_cases hij : i = j
    · subst hij
      show Moves _ _ _ _ (s.setPhase i _).requests[i]?
      rw [setPhase_getElem? _ hi, hi, Cache.get_eq_found]
      exact .lookup text start reply rfl
    · show Moves _ _ _ _ (s.setPhase i _).requests[j]?
      rw [setPhase_getElem?_ne _ hij]
      exact .keep (fun reply' h => hij (ServerAction.lookup.inj h).1) (by simp)
  | hit i text start cached hi hc =>
    exact moves_setPhase hi (by simp) (fun k h => ⟨(ServerAction.resume.inj h).symm, cached, rfl⟩)
      (by simp) (by simp)
  | reject i text start cached b e hi hc hp =>
    exact moves_setPhase hi (by simp) (fun k h => ⟨(ServerAction.resume.inj h).symm, cached, rfl⟩)
      (by simp) (by simp)
  | accept i text start cached b f hi hc hp =>
    exact moves_setPhase hi (by simp) (fun k h => ⟨(ServerAction.resume.inj h).symm, cached, rfl⟩)
      (by simp) (by simp)
  | result i text start f row hi hf =>
    exact moves_setPhase hi (by simp) (by simp) (by simp) (by simp)
  | failed i text start f e hi hf =>
    exact moves_setPhase hi (by simp) (by simp) (by simp) (by simp)
  | abortWaiting i text start f hi =>
    exact moves_setPhase hi (by simp) (by simp) (by simp) (by simp)
  | abort i req hi hp =>
    exact moves_setPhase hi (by simp) (by simp) (by simp) (by simp)
  | detach i text start hi =>
    exact moves_setPhase hi (by simp) (by simp) (by simp) (by simp)
  | stray j' reply hj => exact .keep (by simp) (by simp)
  | write j' w cmd hj hc => exact .keep (by simp) (by simp)
  | drop j' w effective hj hd => exact .keep (by simp) (by simp)
  | batcher b b' ha hb => exact .keep (by simp) (by simp)

/-- An action keeps what is known of a request.

**Proof sketch.** One case for each rule of `Moves`: a lookup finds no earlier lookup of the same
request and no continuation of it, whose phase would be past it. -/
lemma Moves.seenAt {actions : List ServerAction} {i : ℕ} {r r' : Option Request}
    (h : Moves lib a i r r') (hs : SeenAt lib actions i r) :
    SeenAt lib (actions ++ [a]) i r' := by
  have hold : ∀ x, a ≠ x → x ∈ actions ++ [a] → x ∈ actions := by
    intro x hx hmem
    rw [List.mem_append, List.mem_singleton] at hmem
    exact hmem.resolve_right fun he => hx he.symm
  cases h with
  | keep hl hr =>
    refine ⟨fun reply hmem => hs.looked reply (hold _ (hl reply) hmem),
      fun hmem => hs.resumed (hold _ hr hmem), fun req cached hreq hphase => ?_⟩
    obtain ⟨reply, hmem, hfound⟩ := hs.found req cached hreq hphase
    exact ⟨reply, List.mem_append_left _ hmem, hfound⟩
  | arrive text start ha =>
    refine ⟨fun reply hmem => ?_, fun hmem => ?_, ?_⟩
    · obtain ⟨req, hreq, -⟩ := hs.looked reply (hold _ (by simp [ha]) hmem)
      cases hreq
    · obtain ⟨req, hreq, -⟩ := hs.resumed (hold _ (by simp [ha]) hmem)
      cases hreq
    · rintro req cached ⟨⟩ ⟨⟩
  | lookup text start reply ha =>
    refine ⟨fun reply' hmem => ?_, fun hmem => ?_, ?_⟩
    · by_cases hreply : reply' = reply
      · refine ⟨_, rfl, by simp, ?_⟩
        rintro cached ⟨⟩
        rw [hreply]
      · have hne : a ≠ .lookup i reply' := fun he =>
          hreply (ServerAction.lookup.inj (he.symm.trans ha)).2
        obtain ⟨req, hreq, hphase, -⟩ := hs.looked reply' (hold _ hne hmem)
        obtain rfl := Option.some.inj hreq
        exact absurd rfl hphase
    · obtain ⟨req, hreq, hphase, -⟩ := hs.resumed (hold _ (by simp [ha]) hmem)
      obtain rfl := Option.some.inj hreq
      exact absurd rfl hphase
    · rintro req cached ⟨⟩ ⟨⟩
      exact ⟨reply, by simp [ha], rfl⟩
  | leave req phase hl hr hn hf =>
    refine ⟨fun _ _ => ⟨_, rfl, hn, fun cached hc => absurd hc (hf cached)⟩,
      fun _ => ⟨_, rfl, hn, hf⟩, ?_⟩
    rintro req' cached ⟨⟩ hphase
    exact absurd hphase (hf cached)

/-- **The invariant holds after every run.**

**Proof sketch.** Every action moves each request by a rule (`Effect.moves`), which keeps what is
known of it (`Moves.seenAt`). -/
theorem seen_exec {t₀ : ℚ} {es : List (ℚ × ServerAction)}
    (hrun : Machine.exec (step lib) (new args t₀) es = some s) :
    Seen lib s (es.map Prod.snd) := by
  refine Machine.exec_induction (P := fun es (s : Server args) => Seen lib s (es.map Prod.snd))
    (fun i => ⟨by simp, by simp, by simp [new]⟩) ?_ es s hrun
  intro es e s s' hs ih hstep i
  obtain ⟨-, heff⟩ := step_effect hstep
  rw [List.map_append]
  exact (heff.moves i).seenAt (ih i)

/-- A request that goes on has found something, or nothing, in the cache. -/
lemma resume_looked {i : ℕ} (h : s.resume lib i = some s') :
    ∃ text start cached, s.requests[i]? = some ⟨text, start, .looked cached⟩ := by
  unfold resume at h
  split at h
  · exact ⟨_, _, _, ‹_›⟩
  · cases h

/-- The requests that went on after a lookup had replies that can be served. -/
def AllUsable (lib : Library) (actions : List ServerAction) : Prop :=
  ∀ i reply, .lookup i reply ∈ actions → .resume i ∈ actions → Usable lib reply

/-- If the last action continues a request, this request fails open exactly when its reply can be
served.

**Proof sketch.** The request goes on with what its own lookup found (`Seen`). If the last action is
a lookup, its request has not gone on before, and the other actions are not about the matter. -/
lemma Seen.allUsable_snoc {actions : List ServerAction} (hs : Seen lib s actions)
    (h : act lib s a = some s') :
    AllUsable lib (actions ++ [a]) ↔
      AllUsable lib actions ∧ ∀ i, a = .resume i → FailsOpen lib s i := by
  constructor
  · intro hall
    refine ⟨fun i reply hl hr => hall i reply (List.mem_append_left _ hl)
      (List.mem_append_left _ hr), ?_⟩
    rintro i rfl
    obtain ⟨text, start, cached, hi⟩ := resume_looked h
    obtain ⟨reply, hl, hfound⟩ := (hs i).found _ cached hi rfl
    have husable := hall i reply (List.mem_append_left _ hl) (by simp)
    rw [failsOpen_iff hi, hfound]
    exact usable_iff.mp husable
  · rintro ⟨hall, hopen⟩ i reply hl hr
    rw [List.mem_append, List.mem_singleton] at hl hr
    rcases hl with hl | hl
    · rcases hr with hr | hr
      · exact hall i reply hl hr
      · rw [← hr] at h
        obtain ⟨text, start, cached, hi⟩ := resume_looked h
        obtain ⟨req, hreq, -, hfound⟩ := (hs i).looked reply hl
        obtain rfl := Option.some.inj (hi.symm.trans hreq)
        have hfails := (failsOpen_iff hi).mp (hopen i hr.symm)
        rw [hfound cached rfl] at hfails
        exact usable_iff.mpr hfails
    · rcases hr with hr | hr
      · obtain ⟨req, hreq, hne, -⟩ := (hs i).resumed hr
        rw [← hl] at h
        cases act_effect h with
        | lookup i text start reply hi =>
          obtain rfl := Option.some.inj (hi.symm.trans hreq)
          exact absurd rfl hne
      · rw [← hl] at hr
        cases hr

/-! ## The run without the cache -/

/-- The reply, if it holds a value that counts as true. -/
def withoutFalsy (lib : Library) (reply : RedisReply) : RedisReply :=
  if (Cache.found lib reply).truthy then reply else .ok none

/-- The same event, with nothing found unless it counts as true, and nothing stored. -/
def withoutCache (lib : Library) (e : ℚ × ServerAction) : ℚ × ServerAction :=
  match e.2 with
  | .lookup i reply => (e.1, .lookup i (withoutFalsy lib reply))
  | .write j _ => (e.1, .write j false)
  | _ => e

end Server

/-- A value that counts as false counts as nothing. -/
def RequestPhase.forget : RequestPhase → RequestPhase
  | .looked cached => .looked (if cached.truthy then cached else .null)
  | phase => phase

/-- The request, up to the values that count as false. -/
def Request.forget (req : Request) : Request := { req with phase := req.phase.forget }

/-- Nothing is forgotten of a response. -/
@[simp] lemma Request.response_forget (req : Request) : req.forget.response = req.response := by
  obtain ⟨text, start, phase⟩ := req
  cases phase <;> rfl

namespace Server

variable {args : BatcherArgs} {lib : Library} {s s' t : Server args} {a : ServerAction}

/-- The two servers differ in the values found that count as false, in what is stored, and in the
counters of the cache. -/
structure SameButCache (s t : Server args) : Prop where
  batcher : t.batcher = s.batcher
  requests : t.requests = s.requests.map Request.forget
  writes : t.writes = s.writes
  strays : t.strays = s.strays
  now : t.now = s.now

namespace SameButCache

/-- The same request, up to what is forgotten. -/
lemma getElem? (h : SameButCache s t) {i : ℕ} {req : Request} (hi : s.requests[i]? = some req) :
    t.requests[i]? = some req.forget := by
  rw [h.requests, List.getElem?_map, hi, Option.map_some]

/-- A request goes on in both. -/
lemma setPhase (h : SameButCache s t) (i : ℕ) (phase : RequestPhase) :
    (t.setPhase i phase.forget).requests = (s.setPhase i phase).requests.map Request.forget := by
  refine List.ext_getElem? fun j => ?_
  simp only [Server.setPhase, List.getElem?_modify, List.getElem?_map, h.requests]
  cases s.requests[j]? with
  | none => rfl
  | some req => split_ifs <;> simp [Request.forget]

end SameButCache

/-- What a lookup finds is forgotten, or is found without the cache, too. -/
lemma forget_get (m m' : CacheMetrics) (reply : RedisReply) :
    (RequestPhase.looked (Cache.get lib m reply).2).forget =
      .looked (Cache.get lib m' (withoutFalsy lib reply)).2 := by
  rw [Cache.get_eq_found, Cache.get_eq_found, withoutFalsy]
  cases hf : (Cache.found lib reply).truthy <;> simp [RequestPhase.forget, hf]

/-- **Every action has a counterpart without the cache.**

**Proof sketch.** One case for each rule: the counterpart is by the same rule, except that a write
is dropped. -/
theorem Effect.withoutCache (h : Effect lib s a s') (hR : SameButCache s t) :
    ∃ t', Effect lib t (Server.withoutCache lib (s.now, a)).2 t' ∧ SameButCache s' t' := by
  have hb : { t.batcher with now := t.now } = { s.batcher with now := s.now } := by
    rw [hR.batcher, hR.now]
  cases h with
  | arrive text =>
    refine ⟨_, .arrive text, hR.batcher, ?_, hR.writes, hR.strays, hR.now⟩
    simp [hR.requests, hR.now, Request.forget, RequestPhase.forget]
  | lookup i text start reply hi =>
    refine ⟨_, .lookup i text start (withoutFalsy lib reply) (hR.getElem? hi), hR.batcher, ?_,
      hR.writes, hR.strays, hR.now⟩
    have hphase := hR.setPhase i (.looked (Cache.get lib s.metrics reply).2)
    rw [forget_get s.metrics t.metrics] at hphase
    exact hphase
  | hit i text start cached hi hc =>
    have hi' := hR.getElem? hi
    simp only [Request.forget, RequestPhase.forget, hc, if_true] at hi'
    refine ⟨_, .hit i text start cached hi' hc, hR.batcher, ?_, hR.writes, hR.strays, hR.now⟩
    rw [hR.now]
    exact hR.setPhase i (.answered _)
  | reject i text start cached b e hi hc hp =>
    have hi' := hR.getElem? hi
    simp only [Request.forget, RequestPhase.forget, hc, Bool.false_eq_true, if_false] at hi'
    rw [← hb] at hp
    exact ⟨_, .reject i text start .null b e hi' rfl hp, rfl, hR.setPhase i (.answered _),
      hR.writes, hR.strays, hR.now⟩
  | accept i text start cached b f hi hc hp =>
    have hi' := hR.getElem? hi
    simp only [Request.forget, RequestPhase.forget, hc, Bool.false_eq_true, if_false] at hi'
    rw [← hb] at hp
    exact ⟨_, .accept i text start .null b f hi' rfl hp, rfl, hR.setPhase i (.awaiting f),
      hR.writes, hR.strays, hR.now⟩
  | result i text start f row hi hf =>
    rw [← hR.batcher] at hf
    refine ⟨_, .result i text start f row (hR.getElem? hi) hf, hR.batcher, ?_, ?_, hR.strays,
      hR.now⟩
    · rw [hR.now]
      exact hR.setPhase i (.answered _)
    · simp only [hR.writes]
  | failed i text start f e hi hf =>
    rw [← hR.batcher] at hf
    exact ⟨_, .failed i text start f e (hR.getElem? hi) hf, hR.batcher, hR.setPhase i (.answered _),
      hR.writes, hR.strays, hR.now⟩
  | abortWaiting i text start f hi =>
    refine ⟨_, .abortWaiting i text start f (hR.getElem? hi), ?_, hR.setPhase i .aborted,
      hR.writes, hR.strays, hR.now⟩
    simp only [hb]
  | abort i req hi hp =>
    refine ⟨_, .abort i req.forget (hR.getElem? hi) ?_, hR.batcher, hR.setPhase i .aborted,
      hR.writes, hR.strays, hR.now⟩
    obtain ⟨text, start, phase⟩ := req
    rcases hp with rfl | ⟨cached, rfl⟩
    · exact .inl rfl
    · exact .inr ⟨_, rfl⟩
  | detach i text start hi =>
    refine ⟨_, .detach i text start (hR.getElem? hi), hR.batcher, hR.setPhase i .aborted, hR.writes,
      ?_, hR.now⟩
    simp only [hR.strays]
  | stray j reply hj =>
    rw [← hR.strays] at hj
    refine ⟨_, .stray j reply hj, hR.batcher, hR.requests, hR.writes, ?_, hR.now⟩
    simp only [hR.strays]
  | write j w cmd hj hc =>
    rw [← hR.writes] at hj
    refine ⟨_, .drop j w false hj (.inl rfl), hR.batcher, hR.requests, ?_, hR.strays, hR.now⟩
    simp only [hR.writes]
  | drop j w effective hj hd =>
    rw [← hR.writes] at hj
    refine ⟨_, .drop j w false hj (.inl rfl), hR.batcher, hR.requests, ?_, hR.strays, hR.now⟩
    simp only [hR.writes]
  | batcher a b ha hb' =>
    rw [← hR.batcher, ← hR.now] at hb'
    exact ⟨_, .batcher a b ha hb', rfl, hR.requests, hR.writes, hR.strays, hR.now⟩

/-- **A run without the cache has the same batcher and the same responses**, whatever Redis replied
and whether the writes took effect.

**Proof sketch.** The simulation rule: every action has its counterpart (`Effect.withoutCache`). -/
theorem exec_withoutCache {t₀ : ℚ} {es : List (ℚ × ServerAction)}
    (hrun : Machine.exec (step lib) (new args t₀) es = some s) :
    ∃ t, Machine.exec (step lib) (new args t₀) (es.map (withoutCache lib)) = some t ∧
      SameButCache s t := by
  refine Machine.exec_simulates (f := withoutCache lib) (R := SameButCache) ?_
    ⟨rfl, rfl, rfl, rfl, rfl⟩ hrun
  intro s e s' t hR hstep
  obtain ⟨hle, heff⟩ := step_effect hstep
  have hnow : SameButCache { s with now := e.1 } { t with now := e.1 } :=
    ⟨hR.batcher, hR.requests, hR.writes, hR.strays, rfl⟩
  obtain ⟨t', ht', hR'⟩ := heff.withoutCache hnow
  refine ⟨t', ?_, hR'⟩
  have htime : (withoutCache lib e).1 = e.1 := by
    unfold withoutCache
    split <;> rfl
  rw [step, htime, hR.now, if_pos hle]
  exact act_of_effect ht'

/-- A step that continues a request fails open. -/
def StepFailsOpen (lib : Library) (s : Server args) (e : ℚ × ServerAction) : Prop :=
  ∀ i, e.2 = .resume i → FailsOpen lib { s with now := e.1 } i

/-- **The cache fails open.** In every run, every request that goes on after its lookup is answered
with a prediction read from the cache, or goes on as with no cache at all, exactly when the reply to
each of these requests can be served; and in any case the run with nothing found in the cache,
unless it counts as true, and nothing stored there has the same batcher and the same responses.

**Proof sketch.** Induction on the run: the last step adds one condition on either side
(`Seen.allUsable_snoc`). The second part is `exec_withoutCache`. -/
theorem cache_fails_open (lib : Library) (args : BatcherArgs) (t₀ : ℚ)
    (es : List (ℚ × ServerAction)) (s : Server args)
    (hrun : Machine.exec (step lib) (new args t₀) es = some s) :
    (Machine.StepsSatisfy (step lib) (StepFailsOpen lib) (new args t₀) es ↔
      ∀ i reply, .lookup i reply ∈ es.map Prod.snd → .resume i ∈ es.map Prod.snd →
        Usable lib reply) ∧
    ∃ t, Machine.exec (step lib) (new args t₀) (es.map (withoutCache lib)) = some t ∧
      t.batcher = s.batcher ∧
      t.requests.map Request.response = s.requests.map Request.response := by
  constructor
  · refine Machine.exec_induction (P := fun es (_ : Server args) =>
      Machine.StepsSatisfy (step lib) (StepFailsOpen lib) (new args t₀) es ↔
        AllUsable lib (es.map Prod.snd)) ?_ ?_ es s hrun
    · simp [Machine.stepsSatisfy_nil, AllUsable]
    · intro es e s s' hs ih hstep
      have hseen := seen_exec hs
      unfold step at hstep
      split_ifs at hstep with hle
      have hnow : Seen lib { s with now := e.1 } (es.map Prod.snd) := hseen
      rw [Machine.stepsSatisfy_snoc hs, List.map_append, List.map_singleton,
        hnow.allUsable_snoc hstep, ih]
      rfl
  · obtain ⟨t, ht, hsame⟩ := exec_withoutCache hrun
    refine ⟨t, ht, hsame.batcher, ?_⟩
    rw [hsame.requests, List.map_map]
    congr 1
    funext req
    exact req.response_forget

/-- One lookup that finds a row: the request is answered from it. -/
theorem cache_fails_open_hit :
    Machine.StepsSatisfy (step smallLibrary) (StepFailsOpen smallLibrary)
      (new ⟨1, 0, 1, ⟨1, 1⟩⟩ 0) (lookupRun (.ok (some rowText))) := by
  obtain ⟨s, hs⟩ : ∃ s, Machine.exec (step smallLibrary) (new ⟨1, 0, 1, ⟨1, 1⟩⟩ 0)
      (lookupRun (.ok (some rowText))) = some s := ⟨_, rfl⟩
  refine ((cache_fails_open smallLibrary _ 0 _ s hs).1.mpr ?_)
  intro i reply hl hr raw v hreply hraw hv ht
  simp only [lookupRun, List.map_cons, List.map_nil, List.mem_cons, reduceCtorEq, false_or,
    List.not_mem_nil, or_false, ServerAction.lookup.injEq] at hl
  obtain ⟨-, rfl⟩ := hl
  obtain rfl := Option.some.inj (Except.ok.inj hreply)
  have hrow : smallLibrary.loads rowText =
      some (.obj [("label", .str "POSITIVE"), ("score", .float (.finite 1))]) := by
    simp [smallLibrary, Library.plain, smallLoads]
  obtain rfl := Option.some.inj (hrow.symm.trans hv)
  decide +kernel

/-- A library that decodes every string to an array with one number. -/
def arrayLibrary : Library := { smallLibrary with loads := fun _ => some (.arr [.int 1]) }

/-- **The cache does not fail open** for a stored array: the request is answered with 500 without a
call of the batcher, which it would wait for with no value stored. -/
theorem cache_fails_open_array :
    (∃ s, Machine.exec (step arrayLibrary) (new ⟨1, 0, 1, ⟨1, 1⟩⟩ 0)
        (lookupRun (.ok (some "[1]"))) = some s ∧
      s.requests.map Request.response = [some internalError] ∧ s.batcher.calls.length = 0) ∧
    (∃ s, Machine.exec (step arrayLibrary) (new ⟨1, 0, 1, ⟨1, 1⟩⟩ 0)
        (lookupRun (.ok none)) = some s ∧
      s.requests.map Request.response = [none] ∧ s.batcher.calls.length = 1) ∧
    ¬ Machine.StepsSatisfy (step arrayLibrary) (StepFailsOpen arrayLibrary)
      (new ⟨1, 0, 1, ⟨1, 1⟩⟩ 0) (lookupRun (.ok (some "[1]"))) := by
  refine ⟨by decide +kernel, by decide +kernel, fun h => ?_⟩
  have hopen := h [(0, .arrive "good"), (0, .lookup 0 (.ok (some "[1]")))] (0, .resume 0) _
    (List.prefix_refl _) rfl 0 rfl
  rw [failsOpen_iff (i := 0) rfl] at hopen
  obtain ⟨fields, label, score, hv, -, -⟩ := hopen rfl
  cases hv

end Server

end InferenceServer
