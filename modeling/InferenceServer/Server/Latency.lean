import InferenceServer.Batcher.Latency
import InferenceServer.Server.Liveness

set_option relaxedAutoImplicit false
set_option autoImplicit false

/-!
# How long a request to `/predict` takes

The server is as punctual as its batcher if the event loop is, a cache lookup takes no longer than
`R`, and a call of `predict_fn` no longer than `D`, with the wait for a worker thread in both. Then
a request is answered by a deadline, and the `latency_ms` in its response says so.

## Main definitions

* `TimedServer` — the server with the `t_start` of each task, and `TimedServer.Punctual`, the
  condition on the steps of a run.
* `TimedServer.Behind` — how many requests were before request `i` when it entered the queue.
* `Server.Within` — request `i` has been answered in time, or will be.

## Main results

* `Server.Within.tick`, `Server.Effect.within` — it is so while time passes, and while something
  happens.
* `TimedServer.exhausting` — a punctual run can go on until everything is served.
* `TimedServer.answered_within` — the deadline of a request.

## Design

The clock of the server runs on while its batcher does nothing: so what is said about deadlines is
said about the batcher with the clock of the server (`Server.clocked`).
-/

namespace InferenceServer

open InferenceBatcher

/-- The time from the arrival of a request to its answer, with `n` requests before it in the queue:
the lookup, the wait until it is dispatched, and a call of `predict_fn`. -/
def BatcherArgs.answerTime (args : BatcherArgs) (R D : ℚ) (n : ℕ) : ℚ :=
  R + args.queueTime D n + D + D

/-- The lookup is a part of it. -/
lemma BatcherArgs.le_answerTime (args : BatcherArgs) {R D : ℚ} {n : ℕ} (hτ : 0 ≤ args.timeoutS)
    (hD : 0 ≤ D) : R ≤ args.answerTime R D n := by
  have hle := le_queueTime args (i := n) hD
  unfold answerTime
  linarith

/-- A request that stands there has nothing to do on the event loop. -/
def RequestPhase.isBlocked (futures : List (Future Json)) : RequestPhase → Bool
  | .looked _ => false
  | .awaiting f => (futures[f]?).any fun v => !v.done
  | _ => true

/-- The response gives a `latency_ms` of `B` at most. -/
def PredictResponse.LatencyLe (body : PredictResponse) (B : ℚ) : Prop :=
  ∃ ms, body.latencyMs = .finite ms ∧ ms ≤ B

/-- The request is with the cache. -/
def RequestPhase.isLookup : RequestPhase → Bool
  | .lookup => true
  | _ => false

/-- The action is `shutdown()`. -/
def ServerAction.isStop : ServerAction → Bool
  | .batcher .stop => true
  | _ => false

namespace Server

variable {args : BatcherArgs} {lib : Library} {s s' : Server args} {a : ServerAction}
  {R D B u : ℚ} {ts : ℕ → ℚ} {i N : ℕ} {req : Request}

/-- The batcher, with the clock of the server. -/
def clocked (s : Server args) : InferenceBatcher args Json := { s.batcher with now := s.now }

/-- The event loop has nothing to do before `u`. -/
def Still (s : Server args) (u : ℚ) : Prop :=
  s.batcher.Waits u ∧ ∀ req ∈ s.requests, req.phase.isBlocked s.batcher.futures = true

instance (s : Server args) (u : ℚ) : Decidable (s.Still u) :=
  inferInstanceAs (Decidable (_ ∧ _))

/-- A request that is over has nothing to do. -/
lemma Over.isBlocked (h : Over req) (futures : List (Future Json)) :
    req.phase.isBlocked futures = true := by
  rcases h with ⟨response, hr⟩ | hab
  · rw [Request.response_eq_some_iff.mp hr]
    rfl
  · rw [hab]
    rfl

/-- A request that is with the cache is not over. -/
lemma Over.not_lookup (h : Over req) : req.phase.isLookup = false := by
  rcases h with ⟨response, hr⟩ | hab
  · rw [Request.response_eq_some_iff.mp hr]
    rfl
  · rw [hab]
    rfl

/-- The `t_start` of each task after an action at time `now`. -/
def startTimes (now : ℚ) (ts : ℕ → ℚ) : ServerAction → ℕ → ℚ
  | .batcher a => InferenceBatcher.startTimes now ts a
  | _ => ts

/-- A batcher with the clock of the server is as it is. -/
lemma clocked_eq (h : s.batcher.now = s.now) : s.clocked = s.batcher := by
  unfold clocked
  rw [← h]

/-- A call of `predict` is a step of the batcher. -/
lemma predict_effect {text : String} {b : InferenceBatcher args Json}
    {r : Except PyException ℕ} (hp : s.clocked.predict text = (b, r)) :
    InferenceBatcher.Effect s.clocked (.predict text) b :=
  InferenceBatcher.act_effect (by simp [InferenceBatcher.act, hp])

/-- What an action of the server is for the batcher: nothing, or an action of its own. -/
lemma Effect.clocked (h : Effect lib s a s') (ts : ℕ → ℚ) (hstop : a.isStop = false) :
    s'.clocked = s.clocked ∧ startTimes s.now ts a = ts ∨
      ∃ b, b ≠ .stop ∧ InferenceBatcher.Effect s.clocked b s'.clocked ∧
        InferenceBatcher.startTimes s.now ts b = startTimes s.now ts a := by
  -- a call of `predict` leads to the batcher `b`
  have hpredict : ∀ (text : String) (b : InferenceBatcher args Json) (r : Except PyException ℕ)
      (requests : List Request), s.clocked.predict text = (b, r) →
        InferenceBatcher.Effect s.clocked (.predict text)
          (Server.clocked { s with requests := requests, batcher := b }) := by
    intro text b r requests hp
    have heff := predict_effect hp
    rwa [clocked_eq (s := { s with requests := requests, batcher := b }) heff.now_eq]
  cases h with
  | reject i text start cached b e hi hc hp =>
    exact .inr ⟨.predict text, by simp, hpredict text b _ _ hp, rfl⟩
  | accept i text start cached b f hi hc hp =>
    exact .inr ⟨.predict text, by simp, hpredict text b _ _ hp, rfl⟩
  | abortWaiting i text start f hi =>
    exact .inr ⟨.cancel f, by simp, InferenceBatcher.act_effect rfl, rfl⟩
  | batcher a b ha hb =>
    obtain ⟨-, heff⟩ := InferenceBatcher.step_effect hb
    refine .inr ⟨a, ?_, ?_, rfl⟩
    · rintro rfl
      cases hstop
    · rwa [clocked_eq (s := { s with batcher := b }) heff.now_eq]
  | _ => exact .inl ⟨rfl, rfl⟩

/-! ## A request and its deadline -/

/-- The request has been answered within `B`, or will be: its lookup takes no longer than `R`, and
what it waits for is due. -/
def Within (R D B : ℚ) (ts : ℕ → ℚ) (s : Server args) (req : Request) : Prop :=
  match req.phase with
  | .lookup => True
  | .looked _ => s.now ≤ req.start + R
  | .awaiting f => s.now ≤ req.start + B ∧ ∃ w, w ≤ req.start + B ∧ DueBy D ts s.clocked f w
  | .answered response => ∀ body, response = .ok body → body.LatencyLe (1000 * B + 1 / 200)
  | .aborted => True

/-- The `latency_ms` of a response is the time since its request came, rounded. -/
lemma respond_latency {start now : ℚ} {row : Json} {body : PredictResponse}
    (h : respond lib start now row = .ok body) (hle : now ≤ start + B) :
    body.LatencyLe (1000 * B + 1 / 200) := by
  obtain ⟨fields, -, -, -, hround⟩ := respond_eq_ok_iff.mp h
  have habs := (abs_le.mp (abs_pyRound_sub_le ((now - start) * 1000) 2)).2
  refine ⟨_, hround, ?_⟩
  linarith

/-- A request that is not over is within its time now. -/
lemma Within.le (h : Within R D B ts s req) (hRB : R ≤ B)
    (hlookup : req.phase.isLookup = true → s.now ≤ req.start + R) (hover : ¬ Over req) :
    s.now ≤ req.start + B := by
  unfold Within at h
  cases hphase : req.phase with
  | lookup => linarith [hlookup (by rw [hphase]; rfl)]
  | looked cached =>
    rw [hphase] at h
    linarith
  | awaiting f =>
    rw [hphase] at h
    exact h.1
  | answered response =>
    exact absurd (.inl ⟨response, Request.response_eq_some_iff.mpr hphase⟩) hover
  | aborted => exact absurd (.inr hphase) hover

/-- **A request stays within its time while time passes.**

**Proof sketch.** Time passes only while the loop has nothing to do: then a request that waits in
the batcher waits for a future that is pending, and has its deadline before it (`DueBy.le`). -/
lemma Within.tick {t₀ : ℚ} {bs : List (ℚ × Action Json)} (h : Within R D B ts s req)
    (hrun : Machine.exec InferenceBatcher.step (.new args Json t₀) bs = some s.batcher)
    (hreq : req ∈ s.requests) (hstill : s.Still u) (hle : s.now ≤ u)
    (ht : Timely D ts s.clocked) (hcalls : ∀ k ∈ s.batcher.running, u ≤ ts k + D)
    (hτ : 0 ≤ args.timeoutS) (hD : 0 ≤ D) : Within R D B ts { s with now := u } req := by
  have hblocked := hstill.2 req hreq
  unfold Within at h ⊢
  cases hphase : req.phase with
  | looked cached =>
    rw [hphase] at hblocked
    cases hblocked
  | awaiting f =>
    rw [hphase] at h hblocked
    obtain ⟨-, w, hw, hdue⟩ := h
    obtain ⟨v, hv, hopen⟩ := (Option.any_eq_true _ _).mp hblocked
    obtain rfl := Future.eq_pending (ρ := Json) (v := v) (by simpa using hopen)
    have hbooks := accounted_exec hrun
    have hdue' := hdue.tick hstill.1 hle (flowInv_exec hrun).worker hcalls
    have hbefore : u ≤ w := hdue'.le ⟨hbooks.inflight, hbooks.settled, hbooks.source⟩
      (ht.tick hle hcalls) hτ hD hv
    exact ⟨hbefore.trans hw, w, hw, hdue'⟩
  | lookup => trivial
  | answered response =>
    rw [hphase] at h
    exact h
  | aborted => trivial

/-- A request that does not go on stays within its time when something happens. -/
lemma Within.keep {t₀ : ℚ} {bs : List (ℚ × Action Json)} (h : Within R D B ts s req)
    (hrun : Machine.exec InferenceBatcher.step (.new args Json t₀) bs = some s.batcher)
    (heff : Effect lib s a s') (hstop : a.isStop = false) (ht : Timely D ts s.clocked)
    (hmax : 1 ≤ args.maxConcurrentBatches) (hτ : 0 < args.timeoutS) (hD : 0 ≤ D) :
    Within R D B (startTimes s.now ts a) s' req := by
  unfold Within at h ⊢
  cases hphase : req.phase with
  | looked cached =>
    rw [hphase] at h
    exact heff.now_eq.trans_le h
  | awaiting f =>
    rw [hphase] at h
    obtain ⟨hnow, w, hw, hdue⟩ := h
    refine ⟨heff.now_eq.trans_le hnow, w, hw, ?_⟩
    obtain ⟨hsame, hts⟩ | ⟨b, hb, hmove, hts⟩ := heff.clocked ts hstop
    · rw [hsame, hts]
      exact hdue
    · have hpermits : PermitInv s.batcher := permits_exec hrun
      rw [← hts]
      exact hdue.effect hmove hb (flowInv_exec hrun).worker hpermits hmax ht hτ hD
  | lookup => trivial
  | answered response =>
    rw [hphase] at h
    exact h
  | aborted => trivial

/-- A request that enters the queue now is due. -/
lemma dueBy_accept {b : InferenceBatcher args Json} {text : String} {f : ℕ}
    (hp : s.clocked.predict text = (b, .ok f)) (ht : Timely D ts b) (hperm : PermitInv b)
    (hmax : 1 ≤ args.maxConcurrentBatches) (hτ : 0 ≤ args.timeoutS) (hD : 0 ≤ D)
    (hstart : b.worker ≠ .notStarted) (halive : ∀ batch, b.worker ≠ .cancelled batch) :
    DueBy D ts b f
      (s.now + args.queueTime D (s.batcher.worker.held ++ s.batcher.queue).length + D + D) := by
  have heff := predict_effect hp
  obtain ⟨probe, hcalls⟩ : ∃ probe, b.calls = s.clocked.calls ++ [.admitted text probe f] := by
    unfold InferenceBatcher.predict at hp
    split at hp
    · cases hp
    · obtain ⟨rfl, hf⟩ := Prod.mk.inj hp
      obtain rfl := Except.ok.inj hf
      exact ⟨_, rfl⟩
  have hdue := dueBy_new heff hcalls ht hperm hmax hτ hD hstart halive
  rwa [heff.now_eq] at hdue

/-- **Request `i` stays within its time when something happens**, also when it goes on.

**Proof sketch.** One case for each rule. A request that has looked has not been longer than `R`,
and enters the queue behind at most `N` others; one whose future is done has not been longer than
`B`, and neither has one that is answered from the cache. -/
theorem Effect.within {t₀ : ℚ} {bs : List (ℚ × Action Json)} (heff : Effect lib s a s')
    (hstop : a.isStop = false)
    (hrun : Machine.exec InferenceBatcher.step (.new args Json t₀) bs = some s.batcher)
    (ht : Timely D ts s.clocked) (ht' : Timely D (startTimes s.now ts a) s'.clocked)
    (hperm' : PermitInv s'.batcher) (hstart' : s'.batcher.worker ≠ .notStarted)
    (halive' : ∀ batch, s'.batcher.worker ≠ .cancelled batch)
    (hmax : 1 ≤ args.maxConcurrentBatches) (hτ : 0 < args.timeoutS) (hD : 0 ≤ D)
    (hlookup : ∀ req ∈ s.requests, req.phase.isLookup = true → s.now ≤ req.start + R)
    (hbehind : a = .resume i → (s.batcher.worker.held ++ s.batcher.queue).length ≤ N)
    (h : ∀ req, s.requests[i]? = some req → Within R D (args.answerTime R D N) ts s req)
    (req : Request) (hreq : s'.requests[i]? = some req) :
    Within R D (args.answerTime R D N) (startTimes s.now ts a) s' req := by
  have hRB : R ≤ args.answerTime R D N := BatcherArgs.le_answerTime args hτ.le hD
  have hkeep : ∀ req, s.requests[i]? = some req →
      Within R D (args.answerTime R D N) (startTimes s.now ts a) s' req := fun req hi =>
    (h req hi).keep hrun heff hstop ht hmax hτ hD
  -- request `j` goes on to `phase`, as it may if it is request `i`
  have hmove : ∀ (j : ℕ) (old : Request) (phase : RequestPhase), s.requests[j]? = some old →
      (s.setPhase j phase).requests[i]? = some req →
      (j = i → Within R D (args.answerTime R D N) (startTimes s.now ts a) s'
        { old with phase := phase }) →
      Within R D (args.answerTime R D N) (startTimes s.now ts a) s' req := by
    intro j old phase hj hi hnew
    rcases setPhase_cases hj hi with ⟨hji, rfl⟩ | ⟨-, hold⟩
    · exact hnew hji
    · exact hkeep req hold
  cases heff with
  | arrive text =>
    rw [List.getElem?_append] at hreq
    split_ifs at hreq
    · exact hkeep req hreq
    · obtain rfl := List.mem_singleton.mp (List.mem_of_getElem? hreq)
      trivial
  | lookup j text start reply hj =>
    have hnow : s.now ≤ start + R := hlookup _ (List.mem_of_getElem? hj) rfl
    exact hmove j _ _ hj hreq fun _ => hnow
  | hit j text start cached hj hc =>
    refine hmove j _ _ hj hreq ?_
    rintro rfl body hbody
    have hnow : s.now ≤ start + R := h _ hj
    exact respond_latency hbody (by linarith)
  | reject j text start cached b e hj hc hp =>
    exact hmove j _ _ hj hreq fun _ body hbody => absurd hbody (failure_ne_ok e body)
  | accept j text start cached b f hj hc hp =>
    refine hmove j _ _ hj hreq ?_
    rintro rfl
    have hnow : s.now ≤ start + R := h _ hj
    have hmoved := predict_effect hp
    have hsame : Server.clocked { s.setPhase j (.awaiting f) with batcher := b } = b :=
      clocked_eq (s := { s.setPhase j (.awaiting f) with batcher := b }) hmoved.now_eq
    rw [hsame] at ht'
    have hdue := dueBy_accept hp ht' hperm' hmax hτ.le hD hstart' halive'
    have hplace := BatcherArgs.queueTime_mono args hD (hbehind rfl)
    have hnonneg := BatcherArgs.le_queueTime args (i := N) hD
    have hanswer : args.answerTime R D N = R + args.queueTime D N + D + D := rfl
    refine ⟨?_, _, ?_, hsame.symm ▸ hdue⟩
    · show s.now ≤ start + args.answerTime R D N
      linarith
    · show _ ≤ start + args.answerTime R D N
      linarith
  | result j text start f row hj hf =>
    refine hmove j _ _ hj hreq ?_
    rintro rfl body hbody
    obtain ⟨hnow, -⟩ := h _ hj
    exact respond_latency hbody hnow
  | failed j text start f e hj hf =>
    exact hmove j _ _ hj hreq fun _ body hbody => absurd hbody (failure_ne_ok e body)
  | abortWaiting j text start f hj => exact hmove j _ _ hj hreq fun _ => trivial
  | abort j old hj hp => exact hmove j _ _ hj hreq fun _ => trivial
  | detach j text start hj => exact hmove j _ _ hj hreq fun _ => trivial
  | _ => exact hkeep req hreq

/-- After an action a request is with the cache since before, or arrives now. -/
lemma Effect.lookup_cases (h : Effect lib s a s') (hreq : req ∈ s'.requests)
    (hp : req.phase.isLookup = true) : req ∈ s.requests ∨ req.start = s.now := by
  -- a request that goes on is not with the cache any more
  have hmove : ∀ (j : ℕ) (phase : RequestPhase), phase.isLookup = false →
      req ∈ (s.setPhase j phase).requests → req ∈ s.requests ∨ req.start = s.now := by
    intro j phase hn hmem
    rcases mem_setPhase hmem with hold | ⟨old, -, rfl⟩
    · exact .inl hold
    · exact absurd (hp.symm.trans hn) (by simp)
  cases h with
  | arrive text =>
    rcases List.mem_append.mp hreq with hold | hnew
    · exact .inl hold
    · rw [List.mem_singleton.mp hnew]
      exact .inr rfl
  | lookup j text start reply hj => exact hmove j _ rfl hreq
  | hit j text start cached hj hc => exact hmove j _ rfl hreq
  | reject j text start cached b e hj hc hp' => exact hmove j _ rfl hreq
  | accept j text start cached b f hj hc hp' => exact hmove j _ rfl hreq
  | result j text start f row hj hf => exact hmove j _ rfl hreq
  | failed j text start f e hj hf => exact hmove j _ rfl hreq
  | abortWaiting j text start f hj => exact hmove j _ rfl hreq
  | abort j old hj hp' => exact hmove j _ rfl hreq
  | detach j text start hj => exact hmove j _ rfl hreq
  | _ => exact .inl hreq

end Server

/-! ## Punctual runs -/

/-- A server, and the local variable `t_start` of each task of its batcher. -/
structure TimedServer (args : BatcherArgs) where
  server : Server args
  tStart : ℕ → ℚ

namespace TimedServer

variable {args : BatcherArgs} {lib : Library} {x x' : TimedServer args} {a : ServerAction}
  {e : ℚ × ServerAction} {R D : ℚ} {i N : ℕ}

/-- The server after its start. -/
def new (args : BatcherArgs) (t₀ : ℚ) : TimedServer args where
  server := .new args t₀
  tStart := fun _ => 0

/-- A step of the server. -/
def step (lib : Library) (x : TimedServer args) (e : ℚ × ServerAction) :
    Option (TimedServer args) :=
  (x.server.step lib e).map fun s => ⟨s, Server.startTimes e.1 x.tStart e.2⟩

/-- Nobody shuts the server down; time passes only while the event loop has nothing to do; no
lookup takes longer than `R`, from the arrival of its request; and no call of `predict_fn` takes
longer than `D`, from `t_start` until it is back: the wait for a worker thread is in both. -/
structure Punctual (R D : ℚ) (x : TimedServer args) (e : ℚ × ServerAction) : Prop where
  notStop : e.2.isStop = false
  still : x.server.now < e.1 → x.server.Still e.1
  lookups : ∀ req ∈ x.server.requests, req.phase.isLookup = true → e.1 ≤ req.start + R
  calls : ∀ k ∈ x.server.batcher.running, e.1 ≤ x.tStart k + D

instance (R D : ℚ) (x : TimedServer args) (e : ℚ × ServerAction) : Decidable (Punctual R D x e) :=
  decidable_of_iff (_ ∧ _ ∧ _ ∧ _)
    ⟨fun h => ⟨h.1, h.2.1, h.2.2.1, h.2.2.2⟩, fun h => ⟨h.1, h.2, h.3, h.4⟩⟩

/-- If request `i` goes on to the queue, then at most `N` requests have not been dispatched. -/
def Behind (i N : ℕ) (x : TimedServer args) (e : ℚ × ServerAction) : Prop :=
  match e.2 with
  | .resume j => j = i → (x.server.batcher.worker.held ++ x.server.batcher.queue).length ≤ N
  | _ => True

instance (i N : ℕ) (x : TimedServer args) : (e : ℚ × ServerAction) → Decidable (Behind i N x e)
  | (_, .resume j) => inferInstanceAs (Decidable (j = i → _))
  | (_, .arrive _) => isTrue trivial
  | (_, .lookup _ _) => isTrue trivial
  | (_, .complete _) => isTrue trivial
  | (_, .abort _) => isTrue trivial
  | (_, .detach _) => isTrue trivial
  | (_, .stray _ _) => isTrue trivial
  | (_, .write _ _) => isTrue trivial
  | (_, .batcher _) => isTrue trivial

/-- A step is one of the server. -/
lemma step_eq_some : step lib x e = some x' ↔
    ∃ s, x.server.step lib e = some s ∧ x' = ⟨s, Server.startTimes e.1 x.tStart e.2⟩ := by
  unfold step
  rw [Option.map_eq_some_iff]
  exact exists_congr fun s => and_congr_right fun _ => eq_comm

/-- The server has been through a run, its batcher has been started and has not been stopped, and
everything in it is on time. -/
structure OnTime (lib : Library) (R D : ℚ) (x : TimedServer args) : Prop where
  run : ∃ t₀ es, Machine.exec (Server.step lib) (.new args t₀) es = some x.server
  started : x.server.batcher.worker ≠ .notStarted
  notStopped : x.server.batcher.stopping = .notCalled
  timely : Timely D x.tStart x.server.clocked
  lookups : ∀ req ∈ x.server.requests, req.phase.isLookup = true → x.server.now ≤ req.start + R

/-- A punctual step leaves everything on time. -/
lemma OnTime.keep (h : OnTime lib R D x) (hR : 0 ≤ R) (hD : 0 ≤ D) (hp : Punctual R D x e)
    (hstep : step lib x e = some x') : OnTime lib R D x' := by
  obtain ⟨s, hs, rfl⟩ := step_eq_some.mp hstep
  obtain ⟨hle, heff⟩ := Server.step_effect hs
  obtain ⟨t₀, es, hrun⟩ := h.run
  have htimely : Timely D x.tStart { x.server.clocked with now := e.1 } :=
    h.timely.tick hle hp.calls
  have hbatcher : s.clocked.worker ≠ .notStarted ∧ s.clocked.stopping = .notCalled ∧
      Timely D (Server.startTimes e.1 x.tStart e.2) s.clocked := by
    obtain ⟨hsame, hts⟩ | ⟨b, hb, hmove, hts⟩ := heff.clocked x.tStart hp.notStop
    · rw [hsame]
      exact ⟨h.started, h.notStopped, hts.symm ▸ htimely⟩
    · exact ⟨hmove.started h.started, hmove.notStopped hb h.notStopped,
        hts ▸ htimely.effect hmove hD⟩
  refine ⟨⟨t₀, es ++ [e], Machine.exec_snoc_eq_some.mpr ⟨_, hrun, hs⟩⟩, hbatcher.1, hbatcher.2.1,
    hbatcher.2.2, fun req hreq hphase => ?_⟩
  rw [heff.now_eq]
  rcases heff.lookup_cases hreq hphase with hold | hnew
  · exact hp.lookups req hold hphase
  · rw [hnew]
    exact le_add_of_nonneg_right hR

/-- A request is within its time at the time of a punctual step. -/
lemma OnTime.within_tick {B : ℚ} {req : Request} (h : OnTime lib R D x) (hτ : 0 ≤ args.timeoutS)
    (hD : 0 ≤ D) (hp : Punctual R D x e) (hle : x.server.now ≤ e.1) (hreq : req ∈ x.server.requests)
    (hw : Server.Within R D B x.tStart x.server req) :
    Server.Within R D B x.tStart { x.server with now := e.1 } req := by
  obtain ⟨t₀, es, hrun⟩ := h.run
  obtain ⟨-, bs, hbs⟩ := Server.batcher_run hrun
  rcases hle.eq_or_lt with he | hlt
  · rw [← he]
    exact hw
  · exact hw.tick hbs hreq (hp.still hlt) hle h.timely hp.calls hτ hD

/-- Request `i` is within its time after a punctual step. -/
lemma OnTime.within_step (h : OnTime lib R D x) (hmax : 1 ≤ args.maxConcurrentBatches)
    (hτ : 0 < args.timeoutS) (hR : 0 ≤ R) (hD : 0 ≤ D) (hp : Punctual R D x e)
    (hbehind : Behind i N x e) (hstep : step lib x e = some x')
    (hw : ∀ req, x.server.requests[i]? = some req →
      Server.Within R D (args.answerTime R D N) x.tStart x.server req) (req : Request)
    (hreq : x'.server.requests[i]? = some req) :
    Server.Within R D (args.answerTime R D N) x'.tStart x'.server req := by
  have h' : OnTime lib R D x' := h.keep hR hD hp hstep
  obtain ⟨t₀, es, hrun⟩ := h.run
  obtain ⟨-, bs, hbs⟩ := Server.batcher_run hrun
  obtain ⟨t₀', es', hrun'⟩ := h'.run
  obtain ⟨-, bs', hbs'⟩ := Server.batcher_run hrun'
  obtain ⟨s, hs, rfl⟩ := step_eq_some.mp hstep
  obtain ⟨hle, heff⟩ := Server.step_effect hs
  have halive := workerAlive_exec hbs' h'.notStopped
  refine heff.within hp.notStop hbs (h.timely.tick hle hp.calls) h'.timely (permits_exec hbs')
    h'.started halive hmax hτ hD hp.lookups ?_ ?_ req hreq
  · intro he
    unfold Behind at hbehind
    rw [he] at hbehind
    exact hbehind rfl
  · intro old hold
    exact h.within_tick hτ.le hD hp hle (List.mem_of_getElem? hold) (hw old hold)

/-! ## There is a punctual run -/

/-- What the server does by itself is punctual now. -/
lemma OnTime.punctual (h : OnTime lib R D x) (ha : a.isProgress = true) :
    Punctual R D x (x.server.now, a) := by
  refine ⟨?_, fun hlt => absurd hlt (lt_irrefl _), h.lookups, fun k hk => ?_⟩
  · cases a with
    | batcher b => cases b <;> first | rfl | cases ha
    | _ => rfl
  · obtain ⟨batch, hk⟩ := mem_running.mp hk
    exact (h.timely.started k batch hk).2

/-- What can be done now is done punctually. -/
lemma OnTime.punctual_now (h : OnTime lib R D x) (ha : a.isProgress = true)
    (hact : (x.server.act lib a).isSome = true) :
    ∃ e x', (Punctual R D x e ∧ e.2.isProgress = true) ∧ step lib x e = some x' := by
  obtain ⟨s, hs⟩ := Option.isSome_iff_exists.mp hact
  have hstep : x.server.step lib (x.server.now, a) = some s := by
    rw [Server.step, if_pos le_rfl]
    exact hs
  exact ⟨(x.server.now, a), _, ⟨h.punctual ha, ha⟩, step_eq_some.mpr ⟨s, hstep, rfl⟩⟩

/-- What the batcher can do at time `t` is done punctually, if it is punctual. -/
lemma OnTime.punctual_batcher (h : OnTime lib R D x) {t : ℚ} {b : Action Json}
    {s : InferenceBatcher args Json} (ha : b.isProgress = true) (ht : x.server.now ≤ t)
    (hb : act { x.server.batcher with now := t } b = some s)
    (hp : Punctual R D x (t, .batcher b)) :
    ∃ e x', (Punctual R D x e ∧ e.2.isProgress = true) ∧ step lib x e = some x' := by
  obtain ⟨t₀, es, hrun⟩ := h.run
  obtain ⟨hnow, -⟩ := Server.batcher_run hrun
  have hstep := Server.step_batcher lib hnow ht (Action.isInternal_of_isProgress ha) hb
  exact ⟨(t, .batcher b), _, ⟨hp, ha⟩, step_eq_some.mpr ⟨_, hstep, rfl⟩⟩

/-- While all requests wait for pending futures, the batcher lets the server go on, unless it is
idle.

**Proof sketch.** It has something to do now, or nothing until the end of the window
(`exists_move`), and then no lookup and no call of `predict_fn` is under way. -/
lemma OnTime.batcher_progress (h : OnTime lib R D x) (hmax : 1 ≤ args.maxConcurrentBatches)
    (hwaiting : ∀ req ∈ x.server.requests, ¬ Server.Over req →
      ∃ f, req.phase = .awaiting f ∧ x.server.batcher.futures[f]? = some .pending)
    (hn : ¬ Idle x.server.batcher) :
    ∃ e x', (Punctual R D x e ∧ e.2.isProgress = true) ∧ step lib x e = some x' := by
  obtain ⟨t₀, es, hrun⟩ := h.run
  obtain ⟨-, bs, hbs⟩ := Server.batcher_run hrun
  have hpermits : PermitInv x.server.batcher := permits_exec hbs
  have halive : ∀ batch, x.server.batcher.worker ≠ .cancelled batch :=
    workerAlive_exec hbs h.notStopped
  obtain ⟨a, ha, hact⟩ | ⟨batch, deadline, hw, hq, hnone, hlt⟩ :=
    exists_move (s := x.server.clocked) hpermits hmax h.started halive
      fun hi => hn ⟨hi.queue, hi.worker, hi.permits⟩
  · obtain ⟨b, hb⟩ := Option.isSome_iff_exists.mp hact
    exact h.punctual_batcher ha le_rfl hb (h.punctual ha)
  · have hclose : InferenceBatcher.Effect { x.server.batcher with now := deadline } .collectTimeout
        { x.server.batcher with now := deadline, worker := .acquire batch } :=
      .collectTimeout batch deadline hw le_rfl
    refine h.punctual_batcher rfl hlt.le (InferenceBatcher.act_of_effect hclose)
      ⟨rfl, fun _ => ⟨⟨?_, ?_⟩, ?_⟩, ?_, ?_⟩
    · exact fun t ht hp => absurd hp (hnone t ht)
    · rw [show x.server.batcher.worker = _ from hw]
      exact ⟨hq, le_rfl⟩
    · intro req hreq
      by_cases hover : Server.Over req
      · exact hover.isBlocked _
      · obtain ⟨f, hf, hp⟩ := hwaiting req hreq hover
        simp [hf, RequestPhase.isBlocked, hp, Future.done]
    · intro req hreq hlookup
      by_cases hover : Server.Over req
      · exact absurd (hlookup.symm.trans hover.not_lookup) (by simp)
      · obtain ⟨f, hf, -⟩ := hwaiting req hreq hover
        rw [hf] at hlookup
        cases hlookup
    · intro k hk
      obtain ⟨batch', hk⟩ := mem_running.mp hk
      exact absurd rfl (hnone _ (List.mem_of_getElem? hk))

/-- **A server that is on time can go on punctually, unless everything is served.**

**Proof sketch.** A request that is not over goes on now, unless it waits for a pending future
(`Server.exists_act`). If all of them do, the batcher goes on; and an idle batcher has no pending
future. -/
theorem OnTime.progress (h : OnTime lib R D x) (hmax : 1 ≤ args.maxConcurrentBatches)
    (hn : ¬ Server.Served x.server) :
    ∃ e x', (Punctual R D x e ∧ e.2.isProgress = true) ∧ step lib x e = some x' := by
  obtain ⟨t₀, es, hrun⟩ := h.run
  obtain ⟨-, bs, hbs⟩ := Server.batcher_run hrun
  have hwaits := Server.waits_exec hrun
  by_cases hreq : ∃ req ∈ x.server.requests, ¬ Server.Over req ∧ ∀ f, req.phase = .awaiting f →
      ∃ v, x.server.batcher.futures[f]? = some v ∧ v.answered = true
  · obtain ⟨req, hmem, hover, hf⟩ := hreq
    obtain ⟨a, ha, hact⟩ := Server.exists_act lib hmem hover hf
    exact h.punctual_now ha hact
  · have hwaiting : ∀ req ∈ x.server.requests, ¬ Server.Over req →
        ∃ f, req.phase = .awaiting f ∧ x.server.batcher.futures[f]? = some .pending := by
      intro req hmem hover
      obtain ⟨i, hi⟩ := List.mem_iff_getElem?.mp hmem
      by_contra hno
      refine hreq ⟨req, hmem, hover, fun f hf => ?_⟩
      exact (hwaits.future (flowInv_exec hbs) hi hf).resolve_left fun hp => hno ⟨f, hf, hp⟩
    by_cases hidle : Idle x.server.batcher
    · have hover : ∀ req ∈ x.server.requests, Server.Over req := by
        intro req hmem
        by_contra hover
        obtain ⟨f, hf, hp⟩ := hwaiting req hmem hover
        obtain ⟨i, hi⟩ := List.mem_iff_getElem?.mp hmem
        obtain ⟨v, hv, hd⟩ := hidle.done (flowInv_exec hbs) (accounted_exec hbs)
          (permits_exec hbs) (hwaits.mem i req f hi hf)
        obtain rfl : v = .pending := Option.some.inj (hv.symm.trans hp)
        cases hd
      obtain ⟨a, ha, hact⟩ :=
        Server.exists_act_of_detached lib fun hd => hn ⟨hover, hd.1, hd.2, hidle⟩
      exact h.punctual_now ha hact
    · exact h.batcher_progress hmax hwaiting hidle

/-- **Punctual steps of the server come to an end, and they end where everything is served.** -/
theorem exhausting (hmax : 1 ≤ args.maxConcurrentBatches) (hR : 0 ≤ R) (hD : 0 ≤ D) :
    Machine.Exhausting (step lib)
      (fun (x : TimedServer args) e => Punctual R D x e ∧ e.2.isProgress = true) (OnTime lib R D)
      (fun x => Server.Served x.server) (fun x => x.server.work) where
  keep x e x' h he hstep := h.keep hR hD he.1 hstep
  lower x e x' _ he hstep := by
    obtain ⟨s, hs, rfl⟩ := step_eq_some.mp hstep
    exact (Server.step_effect hs).2.work_lt he.2
  progress x h hn := h.progress hmax hn

/-! ## The deadline of a request -/

/-- The server is on time when its batcher has been started, and nobody has come yet. -/
lemma onTime_start {t₀ t₁ : ℚ} (hstep : step lib (new args t₀) (t₁, .batcher .start) = some x) :
    OnTime lib R D x ∧ x.server.requests = [] := by
  obtain ⟨s, hs, rfl⟩ := step_eq_some.mp hstep
  have hrun : Machine.exec (Server.step lib) (.new args t₀) ([] ++ [(t₁, .batcher .start)]) =
      some s := Machine.exec_snoc_eq_some.mpr ⟨_, rfl, hs⟩
  obtain ⟨-, heff⟩ := Server.step_effect hs
  cases heff with
  | batcher a b ha hb =>
    obtain ⟨-, hstart⟩ := InferenceBatcher.step_effect hb
    cases hstart with
    | start hw hstop =>
      refine ⟨⟨⟨t₀, _, hrun⟩, by simp, hstop, ⟨?_, ?_⟩, ?_⟩, rfl⟩
      · simp [Server.clocked, new, Server.new, InferenceBatcher.new]
      · simp [Server.clocked]
      · simp [new, Server.new]

/-- **A request is answered by a deadline, and its response says so.** In a punctual run that begins
with `start()`, let request `i` find at most `N` requests that have not been dispatched when it
enters the queue. As long as it is not over, nothing happens later than `R`, `timeout_s` and
`N / max 1 batch_size + 3` times `D` after it came; if it has been answered with 200 then the
`latency_ms` of the response is no more than that; and the run can go on punctually until all
requests are over.

**Proof sketch.** The request is within its time all the way (`OnTime.within_step`). -/
theorem answered_within (lib : Library) (args : BatcherArgs) (R D : ℚ) (hR : 0 ≤ R) (hD : 0 ≤ D)
    (hτ : 0 < args.timeoutMs) (hmax : 1 ≤ args.maxConcurrentBatches) (t₀ t₁ : ℚ)
    (es : List (ℚ × ServerAction)) (x : TimedServer args) (i N : ℕ)
    (hpunctual : Machine.StepsSatisfy (step lib) (Punctual R D) (new args t₀)
      ((t₁, .batcher .start) :: es))
    (hbehind : Machine.StepsSatisfy (step lib) (Behind i N) (new args t₀)
      ((t₁, .batcher .start) :: es))
    (hrun : Machine.exec (step lib) (new args t₀) ((t₁, .batcher .start) :: es) = some x) :
    (∀ req, x.server.requests[i]? = some req →
      (¬ Server.Over req → ∀ e x', Punctual R D x e → step lib x e = some x' →
        e.1 ≤ req.start + (R + args.timeoutS + ((N / args.width : ℕ) + 3) * D)) ∧
      ∀ body, req.response = some (.ok body) →
        body.LatencyLe
          (1000 * (R + args.timeoutS + ((N / args.width : ℕ) + 3) * D) + 1 / 200)) ∧
    ∃ fs x', Machine.StepsSatisfy (step lib) (Punctual R D) x fs ∧
      Machine.exec (step lib) x fs = some x' ∧ ∀ req ∈ x'.server.requests, Server.Over req := by
  have hτ' : 0 < args.timeoutS := div_pos hτ (by norm_num)
  have htime : R + args.timeoutS + ((N / args.width : ℕ) + 3) * D = args.answerTime R D N := by
    unfold BatcherArgs.answerTime BatcherArgs.queueTime
    ring
  rw [htime]
  rw [Machine.exec_cons] at hrun
  obtain ⟨x₁, hstart, hrest⟩ := Option.bind_eq_some_iff.mp hrun
  obtain ⟨hontime₁, hnone⟩ := onTime_start (R := R) (D := D) hstart
  have hsteps : Machine.StepsSatisfy (step lib) (fun x e => Punctual R D x e ∧ Behind i N x e) x₁
      es := fun pre e y hpre hy =>
    ⟨(Machine.stepsSatisfy_cons.mp hpunctual).2 x₁ hstart pre e y hpre hy,
      (Machine.stepsSatisfy_cons.mp hbehind).2 x₁ hstart pre e y hpre hy⟩
  obtain ⟨hontime, hwithin⟩ := Machine.exec_invariant_of_steps
    (I := fun x => OnTime lib R D x ∧ ∀ req, x.server.requests[i]? = some req →
      Server.Within R D (args.answerTime R D N) x.tStart x.server req)
    (fun x e x' h he hs => ⟨h.1.keep hR hD he.1 hs,
      h.1.within_step hmax hτ' hR hD he.1 he.2 hs h.2⟩)
    ⟨hontime₁, by simp [hnone]⟩ hsteps hrest
  refine ⟨fun req hi => ⟨fun hover e x' hp hstep => ?_, fun body hbody => ?_⟩, ?_⟩
  · obtain ⟨s, hs, -⟩ := step_eq_some.mp hstep
    have hle := (Server.step_effect hs).1
    have hmem := List.mem_of_getElem? hi
    have htick := hontime.within_tick hτ'.le hD hp hle hmem (hwithin req hi)
    exact htick.le (BatcherArgs.le_answerTime args hτ'.le hD) (hp.lookups req hmem) hover
  · have hanswer := hwithin req hi
    unfold Server.Within at hanswer
    rw [Request.response_eq_some_iff.mp hbody] at hanswer
    exact hanswer body rfl
  · obtain ⟨fs, x', hfs, hexec, hserved⟩ := (exhausting hmax hR hD).exists_run hontime
    exact ⟨fs, x', fun es e y hes hy => (hfs es e y hes hy).1, hexec, hserved.requests⟩

/-- A request whose lookup takes a second, and whose batch takes two; and a second request, which is
with the cache. -/
def slowRequest : List (ℚ × ServerAction) :=
  [(0, .batcher .start), (0, .arrive "a"), (1, .lookup 0 (.ok none)), (1, .resume 0),
    (1, .batcher .collectFirst), (1, .batcher .loopTest), (1, .batcher .acquire),
    (1, .batcher .dispatch), (1, .batcher (.callPredictFn 0)),
    (3, .batcher (.finish 0 (.returned [Server.goodRow]))), (3, .complete 0), (3, .arrive "b")]

/-- The first response says three seconds, which is within the second, the window and three times
the two; and the second request has as much time. -/
theorem answered_within_slow :
    ∃ x, Machine.exec (step noLibrary) (new ⟨1, 20, 1, ⟨5, 30⟩⟩ 0) slowRequest = some x ∧
      (∃ req body, x.server.requests[0]? = some req ∧ req.response = some (.ok body) ∧
        body.latencyMs = .finite 3000 ∧ body.LatencyLe (1000 * (1 + 20 / 1000 + 3 * 2) + 1 / 200)) ∧
      (∀ e x', Punctual 1 2 x e → step noLibrary x e = some x' →
        e.1 ≤ 3 + (1 + 20 / 1000 + 3 * 2)) ∧
      ∃ fs x', Machine.exec (step noLibrary) x fs = some x' ∧
        ∀ req ∈ x'.server.requests, Server.Over req := by
  obtain ⟨x, hx, ⟨req₀, hreq₀, hresponse⟩, req₁, hreq₁, hstart, hlookup⟩ :
      ∃ x ∈ Machine.exec (step noLibrary) (new ⟨1, 20, 1, ⟨5, 30⟩⟩ 0) slowRequest,
        (∃ req ∈ x.server.requests[0]?,
          req.response = some (.ok (Server.goodBody 3000))) ∧
        ∃ req ∈ x.server.requests[1]?, req.start = 3 ∧ req.phase.isLookup = true := by
    decide +kernel
  have hover : ¬ Server.Over req₁ := fun h => absurd (hlookup.symm.trans h.not_lookup) (by simp)
  have hwithin := fun i hbehind => answered_within noLibrary ⟨1, 20, 1, ⟨5, 30⟩⟩ 1 2
    (by norm_num) (by norm_num) (by norm_num) (by decide) 0 0 _ x i 0 (by decide +kernel) hbehind hx
  obtain ⟨hfirst, hrun⟩ := hwithin 0 (by decide +kernel)
  obtain ⟨hsecond, -⟩ := hwithin 1 (by decide +kernel)
  obtain ⟨ms, hms, hlatency⟩ := (hfirst req₀ hreq₀).2 _ hresponse
  have hdeadline := (hsecond req₁ hreq₁).1 hover
  norm_num [BatcherArgs.timeoutS, hstart] at hdeadline
  refine ⟨x, hx, ⟨req₀, _, hreq₀, hresponse, rfl, ms, hms, hlatency.trans ?_⟩,
    fun e x' hp hstep => ?_, ?_⟩
  · norm_num [BatcherArgs.timeoutS]
  · have hle := hdeadline e.1 e.2 x' hp hstep
    linarith
  · obtain ⟨fs, x', -, hexec, hserved⟩ := hrun
    exact ⟨fs, x', hexec, hserved⟩

end TimedServer

end InferenceServer
