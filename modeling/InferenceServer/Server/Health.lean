import InferenceServer.CircuitBreaker.Polling
import InferenceServer.Machine.Stuttering
import InferenceServer.Server.Steps

set_option relaxedAutoImplicit false
set_option autoImplicit false

/-!
# The endpoint `/health` (`app/main.py`)

A poll of `/health` that runs as one step, as on the event loop, makes the breaker apply the
transition that its clock has earned, and nothing else. So such polls may be taken out of a run of
the server, and put into it: the requests are answered the same, and the next poll reports the same.

## Main definitions

* `Health`, `health` — the report and the endpoint.
* `InferenceBatcher.Alike`, `Server.Alike` — states that differ in a poll.
* `Server.isPoll`, `Server.unpolled` — the polls of a run, and the run without them.

## Main results

* `Server.health_step` — a poll is the step `poll` of the batcher.
* `InferenceBatcher.Alike.step`, `Server.Alike.act` — the same steps are possible and lead to states
  that differ in a poll.
* `Server.polls_invisible` — runs with and without polls.

## Design

The endpoint is a plain function, which FastAPI calls on a worker thread. A poll is one step here:
no step of the event loop falls between the test and the write of `_refresh`. Where one does, the
poll can be seen: `CircuitBreaker/StatusRace.lean` is about that.
-/

namespace InferenceServer

/-! ## The endpoint -/

/-- What `/health` answers; there is no breaker before `startup` has made the batcher. -/
structure Health where
  status : String
  version : String
  backend : String
  onnxAvailable : Bool
  cache : Cache.Stats
  circuitBreaker : Option Status
  deriving DecidableEq, Repr

/-- `health`: the batcher afterwards, and the report. -/
def health {args : BatcherArgs} {ρ : Type} (onnxAvailable : Bool) (batcherBackend : String)
    (batcher : Option (InferenceBatcher args ρ)) (info : Except PyException Cache.RedisInfo)
    (now : ℚ) : Option (InferenceBatcher args ρ) × Health :=
  (batcher.map fun b => { b with circuitBreaker := (b.circuitBreaker.status now).1 },
    { status := "ok"
      version := "0.7.0"
      backend := batcherBackend ++ " (batcher)"
      onnxAvailable := onnxAvailable
      cache := Cache.stats info
      circuitBreaker := batcher.map fun b => (b.circuitBreaker.status now).2 })

/-! ## The batcher -/

namespace InferenceBatcher

variable {args : BatcherArgs} {ρ : Type} {b b' c s s' : InferenceBatcher args ρ} {now later : ℚ}
  {a : Action ρ}

/-- The batcher without its breaker and its clock. -/
def bare (b : InferenceBatcher args ρ) : InferenceBatcher args ρ :=
  { b with circuitBreaker := .new args.breaker, now := 0 }

/-- At time `now` the two batchers are the same, but for a breaker that has been polled. -/
structure Alike (now : ℚ) (b b' : InferenceBatcher args ρ) : Prop where
  bare : b.bare = b'.bare
  breaker : b.circuitBreaker.Alike now b'.circuitBreaker
  clock : b.now ≤ now
  clock' : b'.now ≤ now

/-- The polled breaker holds the same token. -/
lemma probeInFlight_eq {cb cb' : CircuitBreaker args.breaker} (h : cb.Alike now cb') :
    cb.probeInFlight = cb'.probeInFlight := by
  rw [← cb.refresh_probeInFlight now, ← cb'.refresh_probeInFlight now, h now le_rfl]

/-- Another breaker makes no difference to what is possible, if it cannot be told apart; and
afterwards it cannot be told apart.

**Proof sketch.** One case for each rule. `check` does the same; an outcome is recorded alike; a
poll refreshes both; and the other rules do not look at the breaker. -/
lemma Effect.alike (h : Effect s a s') (cb : CircuitBreaker args.breaker)
    (hcb : s.circuitBreaker.Alike s.now cb) :
    ∃ cb', Effect { s with circuitBreaker := cb } a { s' with circuitBreaker := cb' } ∧
      s'.circuitBreaker.Alike s.now cb' := by
  cases h with
  | start hw hs => exact ⟨cb, .start hw hs, hcb⟩
  | reject text cb₁ e hc =>
    rw [hcb.check] at hc
    exact ⟨cb₁, .reject text cb₁ e hc, .refl _ _⟩
  | accept text cb₁ hc =>
    rw [hcb.check] at hc
    refine ⟨cb₁, ?_, .refl _ _⟩
    rw [probeInFlight_eq hcb]
    exact .accept text cb₁ hc
  | cancel f => exact ⟨cb, .cancel f, hcb⟩
  | poll => exact ⟨cb.refresh s.now, .poll, by rw [hcb s.now le_rfl]; exact .refl _ _⟩
  | collectFirst item queue hw hq => exact ⟨cb, .collectFirst item queue hw hq, hcb⟩
  | wait batch deadline hw hlen hd => exact ⟨cb, .wait batch deadline hw hlen hd, hcb⟩
  | full batch deadline hw hd => exact ⟨cb, .full batch deadline hw hd, hcb⟩
  | collectNext batch deadline item queue hw hq =>
    exact ⟨cb, .collectNext batch deadline item queue hw hq, hcb⟩
  | collectTimeout batch deadline hw hd => exact ⟨cb, .collectTimeout batch deadline hw hd, hcb⟩
  | acquire batch hw hp => exact ⟨cb, .acquire batch hw hp, hcb⟩
  | dispatch batch hw => exact ⟨cb, .dispatch batch hw, hcb⟩
  | callPredictFn k batch hk => exact ⟨cb, .callPredictFn k batch hk, hcb⟩
  | finish k b batch hk hb =>
    refine ⟨record cb s.now (outcome batch.length b), .finish k b batch hk hb, ?_⟩
    cases outcome batch.length b with
    | none => exact hcb
    | some o =>
      cases o with
      | ok results =>
        simp only [record, hcb.recordSuccess]
        exact .refl _ _
      | error e => exact hcb.recordFailure
  | batchDone k batch b hk => exact ⟨cb, .batchDone k batch b hk, hcb⟩
  | stop permits hs hp => exact ⟨cb, .stop permits hs hp, hcb⟩
  | stopReturn ks hs hk => exact ⟨cb, .stopReturn ks hs hk, hcb⟩

/-- A call of `predict` does not move the clock. -/
lemma predict_now {text : String} {r : Except PyException ℕ} (h : s.predict text = (c, r)) :
    c.now = s.now := by
  have hact : act s (.predict text) = some c := by rw [act, h]
  exact (act_effect hact).now_eq

namespace Alike

/-- A batcher is the same as itself. -/
lemma refl (h : b.now ≤ now) : Alike now b b := ⟨rfl, .refl now _, h, h⟩

/-- The two batchers change places. -/
lemma symm (h : Alike now b b') : Alike now b' b :=
  ⟨h.bare.symm, h.breaker.symm, h.clock', h.clock⟩

/-- Nothing changes while nothing happens. -/
lemma mono (h : Alike now b b') (hle : now ≤ later) : Alike later b b' :=
  ⟨h.bare, h.breaker.mono hle, h.clock.trans hle, h.clock'.trans hle⟩

/-- The other batcher is the same one with another breaker, once the clocks are set. -/
lemma eq (h : Alike now b b') : { b' with now := now } =
    { { b with now := now } with circuitBreaker := b'.circuitBreaker } := by
  calc { b' with now := now }
      = { b'.bare with circuitBreaker := b'.circuitBreaker, now := now } := rfl
    _ = { b.bare with circuitBreaker := b'.circuitBreaker, now := now } := by rw [h.bare]
    _ = { { b with now := now } with circuitBreaker := b'.circuitBreaker } := rfl

/-- The futures are the same. -/
lemma futures_eq (h : Alike now b b') : b.futures = b'.futures := by
  calc b.futures = b.bare.futures := rfl
    _ = b'.bare.futures := by rw [h.bare]
    _ = b'.futures := rfl

/-- **The same steps are possible**, and lead to batchers that differ in a poll. -/
theorem step (h : Alike now b b') (hstep : b.step (now, a) = some c) :
    ∃ c', b'.step (now, a) = some c' ∧ Alike now c c' := by
  obtain ⟨-, heff⟩ := step_effect hstep
  obtain ⟨cb', heff', hcb'⟩ := heff.alike b'.circuitBreaker h.breaker
  refine ⟨{ c with circuitBreaker := cb' }, step_eq_some.mpr ⟨h.clock', ?_⟩, ⟨rfl, hcb', ?_, ?_⟩⟩
  · rw [h.eq]
    exact act_of_effect heff'
  · exact heff.now_eq.le
  · exact heff.now_eq.le

/-- A call of `predict` does the same. -/
lemma predict_eq (h : Alike now b b') (text : String) :
    { b with now := now }.predict text = { b' with now := now }.predict text := by
  rw [h.eq]
  simp only [predict, h.breaker.check, probeInFlight_eq h.breaker]

end Alike

end InferenceBatcher

/-! ## The server -/

namespace Server

variable {args : BatcherArgs} {lib : Library} {s s' t : Server args} {now later : ℚ}
  {a : ServerAction} {e : ℚ × ServerAction} {es : List (ℚ × ServerAction)}

/-- A poll of the breaker, in one step. -/
def isPoll : ℚ × ServerAction → Bool
  | (_, .batcher .poll) => true
  | _ => false

/-- The run without its polls. -/
def unpolled (es : List (ℚ × ServerAction)) : List (ℚ × ServerAction) := Machine.visible isPoll es

/-- What a poll leaves. -/
lemma poll_step (hnow : s.now ≤ now) (hb : s.batcher.now ≤ now) :
    step lib s (now, .batcher .poll) =
      some
        { s with
          batcher :=
            { s.batcher with
              circuitBreaker := s.batcher.circuitBreaker.refresh now
              now := now }
          now := now } := by
  have hstep : s.batcher.step (now, .poll) =
      some { s.batcher with circuitBreaker := s.batcher.circuitBreaker.refresh now, now := now } :=
    InferenceBatcher.step_eq_some.mpr ⟨hb, rfl⟩
  rw [step, if_pos hnow]
  simp only [act, Action.isInternal, if_true, hstep, Option.map_some]

/-- **A poll of `/health` is a step of the server**: it leaves the batcher that `health` leaves. -/
theorem health_step (onnxAvailable : Bool) (batcherBackend : String)
    (info : Except PyException Cache.RedisInfo) (hnow : s.now ≤ now) (hb : s.batcher.now ≤ now) :
    step lib s (now, .batcher .poll) =
      (health onnxAvailable batcherBackend (some { s.batcher with now := now }) info now).1.map
        fun b => { s with batcher := b, now := now } :=
  poll_step hnow hb

/-- At time `now` the two servers are the same, but for a breaker that has been polled. -/
structure Alike (now : ℚ) (s t : Server args) : Prop where
  requests : s.requests = t.requests
  writes : s.writes = t.writes
  strays : s.strays = t.strays
  stored : s.stored = t.stored
  metrics : s.metrics = t.metrics
  batcher : s.batcher.Alike now t.batcher

namespace Alike

/-- The two servers change places. -/
lemma symm (h : Alike now s t) : Alike now t s :=
  ⟨h.requests.symm, h.writes.symm, h.strays.symm, h.stored.symm, h.metrics.symm, h.batcher.symm⟩

/-- Nothing changes while nothing happens. -/
lemma mono (h : Alike now s t) (hle : now ≤ later) : Alike later s t :=
  ⟨h.requests, h.writes, h.strays, h.stored, h.metrics, h.batcher.mono hle⟩

/-- The other server is the same one with another batcher, once the clocks are set. -/
lemma eq (h : Alike now s t) :
    { t with now := now } = { { s with now := now } with batcher := t.batcher } := by
  rw [← h.requests, ← h.writes, ← h.strays, ← h.stored, ← h.metrics]

/-- A rule of the server applies to the other server, too, and leaves a server that differs in a
poll.

**Proof sketch.** One case for each rule: those that call the batcher find that it does the same
(`predict_eq`, `step`), and the others do not look at it, but for its futures. -/
lemma effect (h : Alike s.now s t) (hnow : t.now = s.now) (heff : Effect lib s a s') :
    ∃ t', Effect lib t a t' ∧ Alike s.now s' t' := by
  have ht : t = { s with batcher := t.batcher } := by
    calc t = { t with now := s.now } := by rw [← hnow]
      _ = _ := h.eq
  have hb := h.batcher
  rw [ht]
  generalize t.batcher = b at hb
  cases heff with
  | arrive text => exact ⟨_, .arrive text, rfl, rfl, rfl, rfl, rfl, hb⟩
  | lookup i text start reply hi =>
    exact ⟨_, .lookup i text start reply hi, rfl, rfl, rfl, rfl, rfl, hb⟩
  | hit i text start cached hi hc =>
    exact ⟨_, .hit i text start cached hi hc, rfl, rfl, rfl, rfl, rfl, hb⟩
  | reject i text start cached b₁ e hi hc hp =>
    rw [hb.predict_eq text] at hp
    have hb₁ : b₁.now ≤ s.now := (InferenceBatcher.predict_now hp).le
    exact ⟨_, .reject i text start cached b₁ e hi hc hp, rfl, rfl, rfl, rfl, rfl, .refl hb₁⟩
  | accept i text start cached b₁ f hi hc hp =>
    rw [hb.predict_eq text] at hp
    have hb₁ : b₁.now ≤ s.now := (InferenceBatcher.predict_now hp).le
    exact ⟨_, .accept i text start cached b₁ f hi hc hp, rfl, rfl, rfl, rfl, rfl, .refl hb₁⟩
  | result i text start f row hi hf =>
    rw [hb.futures_eq] at hf
    exact ⟨_, .result i text start f row hi hf, rfl, rfl, rfl, rfl, rfl, hb⟩
  | failed i text start f e hi hf =>
    rw [hb.futures_eq] at hf
    exact ⟨_, .failed i text start f e hi hf, rfl, rfl, rfl, rfl, rfl, hb⟩
  | abortWaiting i text start f hi =>
    obtain ⟨c', hstep', hc⟩ :=
      hb.step (a := .cancel f) (InferenceBatcher.step_eq_some.mpr ⟨hb.clock, rfl⟩)
    obtain rfl := Option.some.inj (InferenceBatcher.step_eq_some.mp hstep').2
    exact ⟨_, .abortWaiting i text start f hi, rfl, rfl, rfl, rfl, rfl, hc⟩
  | abort i req hi hp => exact ⟨_, .abort i req hi hp, rfl, rfl, rfl, rfl, rfl, hb⟩
  | detach i text start hi => exact ⟨_, .detach i text start hi, rfl, rfl, rfl, rfl, rfl, hb⟩
  | stray j reply hj => exact ⟨_, .stray j reply hj, rfl, rfl, rfl, rfl, rfl, hb⟩
  | write j w cmd hj hc => exact ⟨_, .write j w cmd hj hc, rfl, rfl, rfl, rfl, rfl, hb⟩
  | drop j w effective hj hd => exact ⟨_, .drop j w effective hj hd, rfl, rfl, rfl, rfl, rfl, hb⟩
  | batcher a c ha hstep =>
    obtain ⟨c', hstep', hc⟩ := hb.step hstep
    exact ⟨_, .batcher a c' ha hstep', rfl, rfl, rfl, rfl, rfl, hc⟩

/-- What happens to one server happens to the other. -/
lemma act (h : Alike now s t) (hact : Server.act lib { s with now := now } a = some s') :
    ∃ t', Server.act lib { t with now := now } a = some t' ∧ Alike now s' t' := by
  have h' : Alike { s with now := now }.now { s with now := now } { t with now := now } :=
    ⟨h.requests, h.writes, h.strays, h.stored, h.metrics, h.batcher⟩
  obtain ⟨t', ht', halike⟩ := effect h' rfl (act_effect hact)
  exact ⟨t', act_of_effect ht', halike⟩

end Alike

/-- A server with polls against one without, at the time of the first, which is not before that of
the other. -/
structure Polled (s t : Server args) : Prop where
  alike : s.Alike s.now t
  now_le : t.now ≤ s.now

/-- A new server and itself. -/
lemma polled_new (args : BatcherArgs) (t₀ : ℚ) : Polled (new args t₀) (new args t₀) :=
  ⟨⟨rfl, rfl, rfl, rfl, rfl, .refl le_rfl⟩, le_rfl⟩

/-- A step sets the clock. -/
lemma step_clock (h : step lib s e = some s') : s.now ≤ e.1 ∧ s'.now = e.1 := by
  obtain ⟨hle, heff⟩ := step_effect h
  exact ⟨hle, heff.now_eq⟩

/-- A poll leaves the server as it is, but for the breaker.

**Proof sketch.** The batcher refreshes its breaker, which then agrees with itself
(`alike_refresh`). -/
lemma Polled.hide (h : Polled s t) (he : isPoll e = true) (hle : s.now ≤ e.1) :
    ∃ s', step lib s e = some s' ∧ Polled s' t := by
  obtain ⟨time, a⟩ := e
  cases a with
  | batcher a =>
    cases a with
    | poll =>
      have hb := h.alike.batcher.mono hle
      have hbreaker := (CircuitBreaker.alike_refresh time _).trans hb.breaker
      refine ⟨_, poll_step hle hb.clock, ⟨?_, h.now_le.trans hle⟩⟩
      exact ⟨h.alike.requests, h.alike.writes, h.alike.strays, h.alike.stored, h.alike.metrics,
        hb.bare, hbreaker, le_rfl, hb.clock'⟩
    | _ => cases he
  | _ => cases he

/-- Any other event happens to both servers or to none.

**Proof sketch.** The two servers are alike, whichever is looked at first (`Alike.act`). -/
lemma Polled.keep (h : Polled s t) (hle : s.now ≤ e.1) :
    Option.Rel Polled (step lib s e) (step lib t e) := by
  have halike : Alike e.1 s t := h.alike.mono hle
  rw [step, step, if_pos hle, if_pos (h.now_le.trans hle)]
  cases hs : Server.act lib { s with now := e.1 } e.2 with
  | none =>
    cases ht : Server.act lib { t with now := e.1 } e.2 with
    | none => exact .none
    | some t' =>
      obtain ⟨s', hs', -⟩ := halike.symm.act ht
      cases hs.symm.trans hs'
  | some s' =>
    obtain ⟨t', ht', halike'⟩ := halike.act hs
    have hs'now : s'.now = e.1 := (act_effect hs).now_eq
    have ht'now : t'.now = e.1 := (act_effect ht').now_eq
    rw [ht']
    refine .some ⟨?_, ?_⟩
    · rw [hs'now]
      exact halike'
    · rw [hs'now, ht'now]

/-- Nobody sees the polls. -/
lemma invisible (lib : Library) (args : BatcherArgs) :
    Machine.Invisible (step lib) Server.now Prod.fst isPoll (Polled : Server args → _ → Prop) where
  clock := step_clock
  hide := Polled.hide
  keep h _ hle := h.keep hle

/-- **Polling on the event loop changes nothing.** Let each poll run as one step. Events with polls
are a run of the server exactly if their clock readings are in order and the events without the
polls are a run; and the two runs lead to the same requests with the same responses, the same writes
to the cache, and the same batcher but for a transition of its breaker that is due by the clock:
from then on `/health` reports the same about both, and the next request is admitted or rejected
alike.

**Proof sketch.** A poll leads to a server that cannot be told from the one before (`Polled.hide`),
and the other events happen to both (`Polled.keep`): this is `Machine.Invisible.exec_iff`. -/
theorem polls_invisible (lib : Library) (args : BatcherArgs) (t₀ : ℚ)
    (es : List (ℚ × ServerAction)) :
    ((∃ s, Machine.exec (step lib) (new args t₀) es = some s) ↔
      Machine.InOrder Prod.fst t₀ es ∧
        ∃ t, Machine.exec (step lib) (new args t₀) (unpolled es) = some t) ∧
    ∀ s t, Machine.exec (step lib) (new args t₀) es = some s →
      Machine.exec (step lib) (new args t₀) (unpolled es) = some t →
      s.requests = t.requests ∧ s.writes = t.writes ∧ s.strays = t.strays ∧ s.stored = t.stored ∧
      s.metrics = t.metrics ∧ s.batcher.bare = t.batcher.bare ∧
      ∀ now, s.now ≤ now →
        s.batcher.circuitBreaker.check now = t.batcher.circuitBreaker.check now ∧
        ∀ onnxAvailable batcherBackend info,
          (health onnxAvailable batcherBackend (some s.batcher) info now).2 =
            (health onnxAvailable batcherBackend (some t.batcher) info now).2 := by
  obtain ⟨hiff, hrel⟩ := (invisible lib args).exec_iff (polled_new args t₀) es
  refine ⟨hiff, fun s t hs ht => ?_⟩
  obtain ⟨h, -⟩ := hrel s t hs ht
  refine ⟨h.requests, h.writes, h.strays, h.stored, h.metrics, h.batcher.bare, fun now hle => ?_⟩
  have hbreaker := h.batcher.breaker.mono hle
  refine ⟨hbreaker.check, fun onnxAvailable batcherBackend info => ?_⟩
  simp only [health, Option.map_some, hbreaker.status]

/-- A batch fails and opens the breaker. After the cooldown `/health` is polled twice, and then a
request comes. -/
def pollRun : List (ℚ × ServerAction) :=
  [(0, .batcher .start), (0, .arrive "a"), (0, .lookup 0 (.ok none)), (0, .resume 0),
    (0, .batcher .collectFirst), (0, .batcher .loopTest), (0, .batcher .acquire),
    (0, .batcher .dispatch), (0, .batcher (.callPredictFn 0)),
    (0, .batcher (.finish 0 (.raised ⟨.other, "no model"⟩))), (1, .batcher .poll),
    (1, .batcher .poll), (1, .arrive "b"), (1, .lookup 1 (.ok none)), (1, .resume 1)]

/-- The request is the probe, with the polls and without them. -/
theorem polls_invisible_probe :
    ∃ s t, Machine.exec (step noLibrary)
        (new ⟨1, 20, 1, ⟨1, 1⟩⟩ 0) pollRun = some s ∧
      Machine.exec (step noLibrary)
        (new ⟨1, 20, 1, ⟨1, 1⟩⟩ 0) (unpolled pollRun) = some t ∧
      s.batcher.circuitBreaker.probeInFlight = true ∧ s.requests = t.requests ∧
      (unpolled pollRun).length + 2 = pollRun.length := by
  obtain ⟨hiff, hall⟩ := polls_invisible noLibrary
    ⟨1, 20, 1, ⟨1, 1⟩⟩ 0 pollRun
  obtain ⟨s, hs, hprobe⟩ :
      ∃ s ∈ Machine.exec (step noLibrary)
        (new ⟨1, 20, 1, ⟨1, 1⟩⟩ 0) pollRun, s.batcher.circuitBreaker.probeInFlight = true :=
    by decide +kernel
  obtain ⟨-, t, ht⟩ := hiff.mp ⟨s, hs⟩
  exact ⟨s, t, hs, ht, hprobe, (hall s t hs ht).1, rfl⟩

end Server

end InferenceServer
