import InferenceServer.Machine.LastStep
import InferenceServer.Batcher.Gate

set_option relaxedAutoImplicit false
set_option autoImplicit false

/-!
# Stragglers

The breaker is a gate at admission. A batch whose requests were admitted before the breaker opened
is still dispatched, and its outcome still counts: a success closes the breaker, a failure restarts
the cooldown. What an open breaker does promise is relative to its last opening: nothing admitted
since then reaches the backend, except one probe after the cooldown.

## Main definitions

* `InferenceBatcher.Opens` — a step that opens the breaker.
* `InferenceBatcher.NoSuccess`, `InferenceBatcher.NoRecovery` — a step that records no success; one
  that admits no probe, either.
* `InferenceBatcher.failureTimes` — the observer of the recorded failures.

## Main results

* `InferenceBatcher.admitted_since_opening` — while the breaker is not closed, whoever was admitted
  since it last opened is the probe.
* `InferenceBatcher.closes_by_probe_or_straggler` — who closes the breaker, and how long it rejects.
* `InferenceBatcher.open_hands_over_stragglers` — what an open breaker lets through to the backend.
* `InferenceBatcher.cooldown_since_last_failure` — when the probe is admitted.
-/

namespace InferenceServer

namespace InferenceBatcher

variable {args : BatcherArgs} {ρ : Type} {s s' s₁ s₂ : InferenceBatcher args ρ} {a : Action ρ}
  {e : ℚ × Action ρ} {cb : CircuitBreaker args.breaker} {calls : List PredictCall}

/-! ## Since the last opening -/

/-- The step from `s` to `s'` opens the breaker. -/
def Opens (s : InferenceBatcher args ρ) (_ : ℚ × Action ρ) (s' : InferenceBatcher args ρ) : Prop :=
  s.circuitBreaker.state ≠ .OPEN ∧ s'.circuitBreaker.state = .OPEN

/-- The requests admitted by the time of `s` are among those admitted by the time of `s₁`, but for
the probe that holds the token. -/
def OnlyProbeSince (s₁ s : InferenceBatcher args ρ) : Prop :=
  ∀ it ∈ items s.calls, it.future < s₁.futures.length ∨
    s.circuitBreaker.state = .HALF_OPEN ∧ s.circuitBreaker.probeInFlight = true ∧
      s.latestProbe = some it.future

/-- The breaker leaves the closed state only by opening, in a step that records a failure. -/
lemma Gate.opens (h : Gate s a cb calls) (hc : s.circuitBreaker.state = .CLOSED)
    (hc' : cb.state ≠ .CLOSED) : cb.state = .OPEN := by
  have hr : s.circuitBreaker.refresh s.now = s.circuitBreaker :=
    s.circuitBreaker.refresh_of_ne_open s.now (by simp [hc])
  cases h with
  | closed text hs => exact absurd hc hc'
  | probe text hs hp => rw [hr, hc] at hs; cases hs
  | rejected text e he hs => rw [hr, hc] at hs; simp at hs
  | success a hv => exact absurd (CircuitBreaker.recordSuccess_state _) hc'
  | failure a hv =>
    rcases s.circuitBreaker.recordFailure_cases s.now with ⟨-, ho, -⟩ | ⟨-, he, -⟩
    · exact ho
    · exact absurd (he.trans hc) hc'
  | poll => rw [hr] at hc'; exact absurd hc hc'
  | other a hv => exact absurd hc hc'

/-- A breaker that opens does so because a failure is recorded, and admits nobody in that step. -/
lemma Gate.opens_failure (h : Gate s a cb calls) (ho : s.circuitBreaker.state ≠ .OPEN)
    (ho' : cb.state = .OPEN) :
    verdict s a = some false ∧ calls = [] ∧ cb = s.circuitBreaker.recordFailure s.now := by
  have hr : (s.circuitBreaker.refresh s.now).state ≠ .OPEN := by
    rw [Ne, CircuitBreaker.refresh_state_eq_open_iff]
    exact fun h => ho h.1
  cases h with
  | closed text hs => exact absurd ho' ho
  | probe text hs hp => exact absurd ho' hr
  | rejected text e he hs => exact absurd ho' hr
  | success a hv => simp at ho'
  | failure a hv => exact ⟨hv, rfl, rfl⟩
  | poll => exact absurd ho' hr
  | other a hv => exact absurd ho' ho

/-- A breaker that closes does so because a success is recorded. -/
lemma Gate.closes_success (h : Gate s a cb calls) (hc : s.circuitBreaker.state ≠ .CLOSED)
    (hc' : cb.state = .CLOSED) : verdict s a = some true := by
  have hr : (s.circuitBreaker.refresh s.now).state ≠ .CLOSED := by
    rwa [Ne, CircuitBreaker.refresh_state_eq_closed_iff]
  cases h with
  | success a hv => exact hv
  | failure a hv =>
    rcases s.circuitBreaker.recordFailure_cases s.now with ⟨-, ho, -⟩ | ⟨-, he, -⟩
    · rw [ho] at hc'; cases hc'
    · exact absurd (he.symm.trans hc') hc
  | closed text hs => exact absurd hc' hc
  | probe text hs hp => exact absurd hc' hr
  | rejected text e he hs => exact absurd hc' hr
  | poll => exact absurd hc' hr
  | other a hv => exact absurd hc' hc

/-- A request admitted before a step that leaves a half-open breaker and its token alone. -/
lemma OnlyProbeSince.keep (hJ : OnlyProbeSince s₁ s) {last : Option ℕ}
    (hstate : s.circuitBreaker.state = .HALF_OPEN → cb.state = .HALF_OPEN)
    (htoken : cb.probeInFlight = s.circuitBreaker.probeInFlight) (hlast : last = s.latestProbe)
    {it : Item} (hit : it ∈ items s.calls) :
    it.future < s₁.futures.length ∨
      cb.state = .HALF_OPEN ∧ cb.probeInFlight = true ∧ last = some it.future := by
  rcases hJ it hit with hlt | ⟨hh, htok, hl⟩
  · exact .inl hlt
  · exact .inr ⟨hstate hh, htoken.trans htok, hlast.trans hl⟩

/-- A step that leaves the breaker not closed, and does not open it, admits nobody but the
probe.

**Proof sketch.** The probe is admitted while the token is free, when nobody was admitted since
the opening. A rejection, a poll and all that does not touch the breaker keep what there is
(`OnlyProbeSince.keep`). A failure recorded while the probe has the token would open the
breaker. -/
lemma Effect.onlyProbeSince (h : Effect s a s') (hc : s.circuitBreaker.state ≠ .CLOSED)
    (hc' : s'.circuitBreaker.state ≠ .CLOSED)
    (ho : s'.circuitBreaker.state = .OPEN → s.circuitBreaker.state = .OPEN)
    (hJ : OnlyProbeSince s₁ s) : OnlyProbeSince s₁ s' := by
  intro it hit
  rw [h.calls_eq, items_append, List.mem_append] at hit
  have hgate := h.gate
  have hsame := h.latestProbe_eq
  have hnew : ∀ text f, newCalls s a = [.admitted text true f] → s'.latestProbe = some f := by
    intro text f
    exact h.latestProbe_of_probe
  generalize s'.circuitBreaker = cb, newCalls s a = cs, s'.latestProbe = last at *
  have hrefresh : s.circuitBreaker.state = .HALF_OPEN →
      (s.circuitBreaker.refresh s.now).state = .HALF_OPEN := by
    intro hs
    rw [s.circuitBreaker.refresh_of_ne_open s.now (by simp [hs]), hs]
  rcases hit with hit | hit
  · cases hgate with
    | closed text hs => exact absurd hs hc
    | probe text hs hp =>
      -- nobody was admitted since the opening, as the token was free
      rcases hJ it hit with hlt | ⟨-, htok, -⟩
      · exact .inl hlt
      · cases htok.symm.trans hp
    | rejected text e he hs =>
      exact hJ.keep hrefresh (s.circuitBreaker.refresh_probeInFlight s.now) (hsame rfl) hit
    | success a hv => exact absurd (CircuitBreaker.recordSuccess_state _) hc'
    | failure a hv =>
      rcases hJ it hit with hlt | ⟨hh, htok, -⟩
      · exact .inl hlt
      · rcases s.circuitBreaker.recordFailure_cases s.now with ⟨-, hop, -⟩ | ⟨⟨hfree, -⟩, -⟩
        · cases hh.symm.trans (ho hop)
        · cases htok.symm.trans hfree
    | poll =>
      exact hJ.keep hrefresh (s.circuitBreaker.refresh_probeInFlight s.now) (hsame rfl) hit
    | other a hv => exact hJ.keep id rfl (hsame rfl) hit
  · cases hgate with
    | closed text hs => exact absurd hs hc
    | probe text hs hp =>
      obtain rfl : it = ⟨text, s.futures.length⟩ := by simpa [items] using hit
      exact .inr ⟨hs, rfl, hnew text _ rfl⟩
    | _ => simp [items] at hit

/-- **Since the last opening.** While the breaker is not closed there was a last step that opened
it, and whoever has been admitted since is the probe that holds the token.

**Proof sketch.** `Machine.exists_lastStep`: the breaker leaves the closed state by opening
(`Gate.opens`); the step that opens it admits nobody, so that right after it everybody was
admitted before (`Gate.opens_failure`); and `Effect.onlyProbeSince` for the steps that follow. -/
theorem admitted_since_opening {t₀ : ℚ} {es : List (ℚ × Action ρ)}
    (hrun : Machine.exec step (new args ρ t₀) es = some s)
    (hc : s.circuitBreaker.state ≠ .CLOSED) :
    ∃ s₁ e s₂ post, Machine.LastStep step Opens (new args ρ t₀) es s₁ e s₂ post ∧
      OnlyProbeSince s₁ s := by
  refine Machine.exists_lastStep (I := FlowInv) (P := fun s => s.circuitBreaker.state ≠ .CLOSED)
    (J := OnlyProbeSince) (fun _ _ _ => flowInv_step) ?_ ?_ ?_ (flowInv_new t₀) (by simp [new,
      CircuitBreaker.new]) hrun hc
  · intro s e s' _ hstep hcl hc'
    obtain ⟨-, heff⟩ := step_effect hstep
    rw [not_not] at hcl
    exact ⟨by simp [hcl], heff.gate.opens hcl hc'⟩
  · intro s e s' hi hstep hO it hit
    obtain ⟨-, heff⟩ := step_effect hstep
    rw [heff.calls_eq, (heff.gate.opens_failure hO.1 hO.2).2.1, List.append_nil] at hit
    exact .inl (hi.future_lt (hi.flow_eq ▸ hit))
  · intro s₁ s e s' _ hstep hc hc' hO hJ
    obtain ⟨-, heff⟩ := step_effect hstep
    exact heff.onlyProbeSince hc hc' (fun ho' => by_contra fun ho => hO ⟨ho, ho'⟩) hJ

/-! ## What closes the breaker -/

/-- The step records no success. -/
def NoSuccess (s : InferenceBatcher args ρ) (e : ℚ × Action ρ) : Prop :=
  verdict s e.2 ≠ some true

instance (s : InferenceBatcher args ρ) (e : ℚ × Action ρ) : Decidable (NoSuccess s e) :=
  inferInstanceAs (Decidable (_ ≠ _))

/-- What a step ends has been admitted. -/
lemma FlowInv.endedBatch_mem (hi : FlowInv s) {it : Item} (hit : it ∈ s.endedBatch a) :
    it ∈ items s.calls := by
  cases a with
  | finish k b =>
    simp only [endedBatch] at hit
    split at hit
    · exact hi.task_mem ‹_› hit
    · cases hit
  | _ => cases hit

/-- What holds since the breaker opened at time `t`, while no success is recorded. -/
structure OpenSince (t : ℚ) (s : InferenceBatcher args ρ) : Prop where
  state : s.circuitBreaker.state ≠ .CLOSED
  openedAt : t ≤ s.circuitBreaker.openedAt
  now : t ≤ s.now

/-- The breaker keeps its state up to half-open, and its `openedAt` moves only forward, unless a
success is recorded. -/
lemma Gate.openSince (h : Gate s a cb calls) {t : ℚ} (hv : verdict s a ≠ some true)
    (ht : t ≤ s.circuitBreaker.openedAt) (hnow : t ≤ s.now)
    (hc : s.circuitBreaker.state ≠ .CLOSED) : cb.state ≠ .CLOSED ∧ t ≤ cb.openedAt := by
  have hr : (s.circuitBreaker.refresh s.now).state ≠ .CLOSED := by
    rwa [Ne, CircuitBreaker.refresh_state_eq_closed_iff]
  have hrt : t ≤ (s.circuitBreaker.refresh s.now).openedAt := by simpa using ht
  cases h with
  | closed text hs => exact absurd hs hc
  | probe text hs hp => exact ⟨hr, hrt⟩
  | rejected text e he hs => exact ⟨hr, hrt⟩
  | success a hv' => exact absurd hv' hv
  | failure a hv' =>
    rcases s.circuitBreaker.recordFailure_cases s.now with ⟨-, ho, he⟩ | ⟨-, hs, he⟩
    · exact ⟨by simp [ho], hnow.trans_eq he.symm⟩
    · exact ⟨by rwa [hs], ht.trans_eq he.symm⟩
  | poll => exact ⟨hr, hrt⟩
  | other a hv' => exact ⟨hc, ht⟩

/-- Every step that records no success keeps what holds since the opening. -/
lemma openSince_step {t : ℚ} (hI : OpenSince t s) (hv : NoSuccess s e)
    (h : step s e = some s') : OpenSince t s' := by
  obtain ⟨hle, heff⟩ := step_effect h
  have hnow := hI.now.trans hle
  obtain ⟨hs, ht⟩ := heff.gate.openSince hv hI.openedAt hnow hI.state
  exact ⟨hs, ht, heff.now_eq ▸ hnow⟩

/-- The step that opens the breaker. -/
lemma openSince_opens (h : step s e = some s') (hO : Opens s e s') :
    OpenSince e.1 s' ∧ s'.circuitBreaker.openedAt = e.1 := by
  obtain ⟨-, heff⟩ := step_effect h
  have hcb := (heff.gate.opens_failure hO.1 hO.2).2.2
  have ht : s'.circuitBreaker.openedAt = e.1 := by
    rcases s.circuitBreaker.recordFailure_cases e.1 with ⟨-, -, he⟩ | ⟨-, hs, -⟩
    · rw [hcb]
      exact he
    · exact absurd (hs.symm.trans (hcb ▸ hO.2)) hO.1
  exact ⟨⟨by simp [hO.2], ht.ge, heff.now_eq.ge⟩, ht⟩

/-- Before the cooldown that runs since the opening is over, a check is rejected. -/
lemma OpenSince.rejects {t u : ℚ} (hI : OpenSince t s)
    (hc : s.circuitBreaker.Consistent s.now) (hu : s.now ≤ u)
    (hlt : u < t + args.breaker.cooldownSeconds) (text : String) :
    ∃ exc, ({ s with now := u }.predict text).2 = .error exc := by
  have ho := hI.openedAt
  have hopen : (s.circuitBreaker.refresh u).state = .OPEN := by
    rw [CircuitBreaker.refresh_state_eq_open_iff]
    refine ⟨?_, by linarith⟩
    cases hs : s.circuitBreaker.state with
    | CLOSED => exact absurd hs hI.state
    | OPEN => rfl
    | HALF_OPEN => exact absurd (hc.cooled hs) (by linarith)
  rcases s.circuitBreaker.check_cases u with ⟨hcl, -⟩ | ⟨hh, -, -⟩ | ⟨-, exc, -, he⟩
  · exact absurd hcl hI.state
  · cases hopen.symm.trans hh
  · exact ⟨exc, by simp [predict, he]⟩

/-- **Who closes the breaker.** After every run: a step that closes the breaker records the
success of a batch, each of whose requests was admitted before the breaker last opened or is the
probe of the current half-open period; and if a step opens the breaker at time `t`, then in
`[t, t + cooldownSeconds)` every check is rejected, as long as no success is recorded.

**Proof sketch.** `admitted_since_opening` for the requests of the batch, which are all in the log
of calls. `OpenSince` is an invariant of the steps that record no success, and it keeps a check
from finding the cooldown elapsed. -/
theorem closes_by_probe_or_straggler (args : BatcherArgs) (ρ : Type) (t₀ : ℚ)
    (es : List (ℚ × Action ρ)) (s : InferenceBatcher args ρ)
    (hrun : Machine.exec step (new args ρ t₀) es = some s) :
    (∀ e s', step s e = some s' → s.circuitBreaker.state ≠ .CLOSED →
      s'.circuitBreaker.state = .CLOSED →
        verdict s e.2 = some true ∧
        ∃ s₁ e₁ s₂ post, Machine.LastStep step Opens (new args ρ t₀) es s₁ e₁ s₂ post ∧
          ∀ it ∈ s.endedBatch e.2, it.future < s₁.futures.length ∨
            s.circuitBreaker.state = .HALF_OPEN ∧ s.circuitBreaker.probeInFlight = true ∧
              s.latestProbe = some it.future) ∧
    (∀ e s₂ post s₃, step s e = some s₂ → Opens s e s₂ → Machine.exec step s₂ post = some s₃ →
      Machine.StepsSatisfy step NoSuccess s₂ post →
        ∀ u text, s₃.now ≤ u → u < e.1 + args.breaker.cooldownSeconds →
          ∃ exc, ({ s₃ with now := u }.predict text).2 = .error exc) := by
  refine ⟨fun e s' hstep hc hc' => ?_, fun e s₂ post s₃ hstep hO hpost hquiet u text hu hlt => ?_⟩
  · obtain ⟨-, heff⟩ := step_effect hstep
    obtain ⟨s₁, e₁, s₂, post, hlast, hJ⟩ := admitted_since_opening hrun hc
    refine ⟨heff.gate.closes_success hc hc', s₁, e₁, s₂, post, hlast, fun it hit => ?_⟩
    exact hJ it ((flowInv_exec hrun).endedBatch_mem hit)
  · have hI := Machine.exec_invariant_of_steps (fun _ _ _ => openSince_step)
      (openSince_opens hstep hO).1 hquiet hpost
    have hcons := consistent_exec (Machine.exec_through hrun hstep hpost)
    exact hI.rejects hcons hu hlt text

/-- Two requests dispatched one by one; the first fails and opens the breaker. -/
def stragglerRun : List (ℚ × Action ℕ) :=
  [(0, .start), (0, .predict "a"), (0, .predict "b"),
    (0, .collectFirst), (0, .loopTest), (0, .acquire), (0, .dispatch),
    (0, .collectFirst), (0, .loopTest), (0, .acquire), (0, .dispatch),
    (0, .callPredictFn 0), (0, .callPredictFn 1), (0, .finish 0 (.raised ⟨.other, "boom"⟩))]

/-- The success of the second one is a straggler's. -/
theorem closes_by_probe_or_straggler_second :
    ∃ s ∈ Machine.exec step (new ⟨1, 0, 2, ⟨1, 1⟩⟩ ℕ 0) stragglerRun,
      ∃ s' ∈ step s (1 / 2, .finish 1 (.returned [7])),
        s'.circuitBreaker.state = .CLOSED ∧ verdict s (.finish 1 (.returned [7])) = some true ∧
        ∃ s₁ e₁ s₂ post, Machine.LastStep step Opens (new ⟨1, 0, 2, ⟨1, 1⟩⟩ ℕ 0) stragglerRun
          s₁ e₁ s₂ post ∧ ∀ it ∈ s.endedBatch (.finish 1 (.returned [7])),
            it.future < s₁.futures.length := by
  obtain ⟨s, hs, ho, s', hstep, hc'⟩ :
      ∃ s ∈ Machine.exec step (new ⟨1, 0, 2, ⟨1, 1⟩⟩ ℕ 0) stragglerRun,
        s.circuitBreaker.state = .OPEN ∧ ∃ s' ∈ step s (1 / 2, .finish 1 (.returned [7])),
          s'.circuitBreaker.state = .CLOSED := by
    decide +kernel
  obtain ⟨hv, s₁, e₁, s₂, post, hlast, hbatch⟩ :=
    (closes_by_probe_or_straggler _ ℕ 0 stragglerRun s hs).1 _ s' hstep (by simp [ho]) hc'
  refine ⟨s, hs, s', hstep, hc', hv, s₁, e₁, s₂, post, hlast, fun it hit => ?_⟩
  rcases hbatch it hit with hlt | ⟨hh, -⟩
  · exact hlt
  · cases ho.symm.trans hh

/-- The second success closes the breaker during the cooldown. No probe has been admitted, and the
next request is let in at once. -/
theorem closes_without_probe :
    ∃ s ∈ Machine.exec step (new ⟨1, 0, 2, ⟨1, 1⟩⟩ ℕ 0) stragglerRun,
      s.circuitBreaker.state = .OPEN ∧ probes s.calls = [] ∧
        ∃ s' ∈ step s (1 / 2, .finish 1 (.returned [7])), s'.circuitBreaker.state = .CLOSED ∧
          (s'.predict "c").2.isOk = true := by
  decide +kernel

/-! ## What an open breaker lets through -/

/-- **What an open breaker lets through.** When a batch is handed to `predict_fn` while the
breaker is open and its cooldown runs, each of its requests was admitted before the breaker last
opened.

**Proof sketch.** `admitted_since_opening`; an open breaker has no probe. -/
theorem open_hands_over_stragglers (args : BatcherArgs) (ρ : Type) (t₀ : ℚ)
    (es : List (ℚ × Action ρ)) (s s' : InferenceBatcher args ρ) (t : ℚ) (k : ℕ)
    (hrun : Machine.exec step (new args ρ t₀) es = some s)
    (hstep : step s (t, .callPredictFn k) = some s')
    (hopen : (s.circuitBreaker.refresh t).state = .OPEN) :
    ∃ s₁ e₁ s₂ post, Machine.LastStep step Opens (new args ρ t₀) es s₁ e₁ s₂ post ∧
      ∃ batch, s.tasks[k]? = some ⟨batch, .created⟩ ∧
        ∀ it ∈ batch, it.future < s₁.futures.length := by
  have ho := ((s.circuitBreaker.refresh_state_eq_open_iff t).mp hopen).1
  obtain ⟨s₁, e₁, s₂, post, hlast, hJ⟩ := admitted_since_opening hrun (by simp [ho])
  obtain ⟨-, heff⟩ := step_effect hstep
  cases heff with
  | callPredictFn _ batch hk =>
    refine ⟨s₁, e₁, s₂, post, hlast, batch, hk, fun it hit => ?_⟩
    rcases hJ it ((flowInv_exec hrun).task_mem hk hit) with hlt | ⟨hh, -⟩
    · exact hlt
    · cases ho.symm.trans hh

/-- One permit, and a second batch that waits for it while the first one fails. -/
def backloggedRun : List (ℚ × Action ℕ) :=
  [(0, .start), (0, .predict "a"), (0, .predict "b"),
    (0, .collectFirst), (0, .loopTest), (0, .acquire), (0, .dispatch), (0, .callPredictFn 0),
    (0, .collectFirst), (0, .loopTest), (0, .finish 0 (.raised ⟨.other, "boom"⟩)),
    (0, .batchDone 0), (0, .acquire), (0, .dispatch)]

/-- The second batch was admitted before the breaker opened. -/
theorem open_hands_over_stragglers_second :
    ∃ s ∈ Machine.exec step (new ⟨1, 0, 1, ⟨1, 1⟩⟩ ℕ 0) backloggedRun,
      ∃ s₁ e₁ s₂ post, Machine.LastStep step Opens (new ⟨1, 0, 1, ⟨1, 1⟩⟩ ℕ 0) backloggedRun
          s₁ e₁ s₂ post ∧
        ∃ batch, s.tasks[1]? = some ⟨batch, .created⟩ ∧
          ∀ it ∈ batch, it.future < s₁.futures.length := by
  obtain ⟨s, hs, s', hstep, ho⟩ :
      ∃ s ∈ Machine.exec step (new ⟨1, 0, 1, ⟨1, 1⟩⟩ ℕ 0) backloggedRun,
        ∃ s' ∈ step s (0, .callPredictFn 1), (s.circuitBreaker.refresh 0).state = .OPEN := by
    decide +kernel
  exact ⟨s, hs, open_hands_over_stragglers _ ℕ 0 backloggedRun s s' 0 1 hs hstep ho⟩

/-- So the backend is called while the breaker is open and its cooldown runs. -/
theorem open_breaker_calls_backend :
    ∃ s ∈ Machine.exec step (new ⟨1, 0, 1, ⟨1, 1⟩⟩ ℕ 0) backloggedRun,
      s.circuitBreaker.state = .OPEN ∧ 0 - s.circuitBreaker.openedAt < 1 ∧
        (step s (0, .callPredictFn 1)).isSome = true := by
  decide +kernel

/-! ## When the probe is admitted -/

/-- The step records no success and admits no probe. -/
def NoRecovery (s : InferenceBatcher args ρ) (e : ℚ × Action ρ) : Prop :=
  verdict s e.2 ≠ some true ∧ probes (newCalls { s with now := e.1 } e.2) = []

instance (s : InferenceBatcher args ρ) (e : ℚ × Action ρ) : Decidable (NoRecovery s e) :=
  inferInstanceAs (Decidable (_ ∧ _))

/-- The time of a failure, if the step records one. -/
def failureTimes (s : InferenceBatcher args ρ) (e : ℚ × Action ρ)
    (_ : InferenceBatcher args ρ) : List ℚ :=
  if verdict s e.2 = some false then [e.1] else []

/-- The breaker is not closed, the token is free, and the cooldown runs from `f`. -/
structure CoolingSince (f : ℚ) (s : InferenceBatcher args ρ) : Prop where
  state : s.circuitBreaker.state ≠ .CLOSED
  token : s.circuitBreaker.probeInFlight = false
  openedAt : s.circuitBreaker.openedAt = f

/-- A step without success and probe moves the start of the cooldown to the failure that it
records, if it records one. -/
lemma Gate.coolingSince (h : Gate s a cb calls) (hcons : s.circuitBreaker.Consistent s.now)
    {f : ℚ} (hI : CoolingSince f s) (hv : verdict s a ≠ some true) (hp : probes calls = []) :
    cb.state ≠ .CLOSED ∧ cb.probeInFlight = false ∧
      cb.openedAt = if verdict s a = some false then s.now else f := by
  have hr : (s.circuitBreaker.refresh s.now).state ≠ .CLOSED := by
    rw [Ne, CircuitBreaker.refresh_state_eq_closed_iff]
    exact hI.state
  have htok : (s.circuitBreaker.refresh s.now).probeInFlight = false := by simpa using hI.token
  have hat : (s.circuitBreaker.refresh s.now).openedAt = f := by simpa using hI.openedAt
  cases h with
  | closed text hs => exact absurd hs hI.state
  | probe text hs hfree => simp [probes] at hp
  | rejected text e he hs => exact ⟨hr, htok, hat⟩
  | success a hv' => exact absurd hv' hv
  | failure a hv' =>
    rw [if_pos hv']
    rcases hcons.recordFailure_state s.now with ⟨-, ho, ht⟩ | ⟨-, hcl, -⟩
    · exact ⟨by simp [ho], by simp, ht⟩
    · exact absurd hcl hI.state
  | poll => exact ⟨hr, htok, hat⟩
  | other a hv' => exact ⟨hI.state, hI.token, by simp [hv', hI.openedAt]⟩

/-- After a run without success and probe the cooldown runs from the last failure recorded on it,
or from `t` as before.

**Proof sketch.** Induction on the run: each step observes the failure that it records and moves
the start of the cooldown to it (`Gate.coolingSince`). -/
lemma coolingSince_exec {t : ℚ} {post : List (ℚ × Action ρ)}
    (hcons₂ : s₂.circuitBreaker.Consistent s₂.now) (hI₂ : CoolingSince t s₂)
    (hpost : Machine.exec step s₂ post = some s)
    (hquiet : Machine.StepsSatisfy step NoRecovery s₂ post) :
    s.circuitBreaker.Consistent s.now ∧
      CoolingSince ((Machine.observe step failureTimes s₂ post).getLastD t) s := by
  refine Machine.exec_induction (P := fun mid s => Machine.StepsSatisfy step NoRecovery s₂ mid →
    s.circuitBreaker.Consistent s.now ∧
      CoolingSince ((Machine.observe step failureTimes s₂ mid).getLastD t) s)
    (fun _ => ⟨hcons₂, hI₂⟩) ?_ post s hpost hquiet
  intro mid e s s' hs ih hse hC
  obtain ⟨hcons, hI⟩ := ih (hC.of_prefix (List.prefix_append mid [e]))
  obtain ⟨hv, hp⟩ := hC.last hs
  obtain ⟨hle, heff⟩ := step_effect hse
  have hI' : CoolingSince _ { s with now := e.1 } := ⟨hI.state, hI.token, hI.openedAt⟩
  obtain ⟨hstate, htoken, hopened⟩ := heff.gate.coolingSince (hcons.mono hle) hI' hv hp
  refine ⟨consistent_step hcons hse, hstate, htoken, hopened.trans ?_⟩
  rw [Machine.observe_snoc hs hse, failureTimes]
  show (if verdict s e.2 = some false then e.1 else _) = _
  split_ifs <;> simp

/-- While the cooldown runs from `f` and the token is free, a check is admitted as the probe exactly
from `f + cooldownSeconds` on.

**Proof sketch.** By what `check` does. It admits the probe half-open, which takes the cooldown;
it rejects open, which takes that the cooldown has not elapsed, as the token is free. -/
lemma CoolingSince.probe_iff {f u : ℚ} (hI : CoolingSince f s)
    (hcons : s.circuitBreaker.Consistent s.now) (hu : s.now ≤ u) (text : String) :
    newCalls { s with now := u } (.predict text) = [.admitted text true s.futures.length] ↔
      f + args.breaker.cooldownSeconds ≤ u := by
  rw [← hI.openedAt]
  rcases s.circuitBreaker.check_cases u with ⟨hcl, -⟩ | ⟨hh, hp, he⟩ | ⟨hn, exc, -, he⟩
  · exact absurd hcl hI.state
  · have hcd : args.breaker.cooldownSeconds ≤ u - s.circuitBreaker.openedAt := by
      rcases s.circuitBreaker.refresh_cases u with ⟨-, hcd, -⟩ | ⟨-, hs⟩
      · exact hcd
      · exact (hcons.mono hu).cooled (hs ▸ hh)
    simp only [newCalls, he, hp, Bool.not_false, Bool.and_self, true_iff]
    linarith
  · have ho : (s.circuitBreaker.refresh u).state = .OPEN := by
      rcases hn with ho | ⟨-, htok⟩
      · exact ho
      · cases hI.token.symm.trans htok
    have hlt := ((s.circuitBreaker.refresh_state_eq_open_iff u).mp ho).2
    simp only [newCalls, he, List.cons.injEq, reduceCtorEq, false_and, false_iff, not_le]
    linarith

/-- **When the probe is admitted.** A step opens the closed breaker at time `t`; in the run that
follows no success is recorded and no probe is admitted. Then a check is admitted as the probe
exactly from `f + cooldownSeconds` on, where `f` is the time of the last failure recorded in that
run, and `t` if none was.

**Proof sketch.** The step leaves the breaker open, with a free token and the cooldown running from
`t`. From there `coolingSince_exec` follows the last failure, and `CoolingSince.probe_iff` gives the
check. -/
theorem cooldown_since_last_failure (args : BatcherArgs) (ρ : Type) (t₀ : ℚ)
    (es post : List (ℚ × Action ρ)) (s s₂ s₃ : InferenceBatcher args ρ) (t u : ℚ) (a : Action ρ)
    (text : String) (hrun : Machine.exec step (new args ρ t₀) es = some s)
    (hstep : step s (t, a) = some s₂) (hclosed : s.circuitBreaker.state = .CLOSED)
    (hopen : s₂.circuitBreaker.state = .OPEN) (hpost : Machine.exec step s₂ post = some s₃)
    (hquiet : Machine.StepsSatisfy step NoRecovery s₂ post) (hu : s₃.now ≤ u) :
    newCalls { s₃ with now := u } (.predict text) = [.admitted text true s₃.futures.length] ↔
      (Machine.observe step failureTimes s₂ post).getLastD t + args.breaker.cooldownSeconds ≤
        u := by
  have hcons₂ : s₂.circuitBreaker.Consistent s₂.now :=
    consistent_step (consistent_exec hrun) hstep
  have htoken : s₂.circuitBreaker.probeInFlight = false := by
    by_contra hp
    rw [Bool.not_eq_false] at hp
    cases hopen.symm.trans (hcons₂.halfOpen_of_probe hp)
  have hopened : s₂.circuitBreaker.openedAt = t :=
    (openSince_opens hstep ⟨by simp [hclosed], hopen⟩).2
  have hI₂ : CoolingSince t s₂ := ⟨by simp [hopen], htoken, hopened⟩
  obtain ⟨hcons, hcool⟩ := coolingSince_exec hcons₂ hI₂ hpost hquiet
  exact hcool.probe_iff hcons hu text

/-- Two batches in flight, before the first one fails. -/
def inFlightRun : List (ℚ × Action ℕ) :=
  [(0, .start), (0, .predict "a"), (0, .predict "b"),
    (0, .collectFirst), (0, .loopTest), (0, .acquire), (0, .dispatch),
    (0, .collectFirst), (0, .loopTest), (0, .acquire), (0, .dispatch),
    (0, .callPredictFn 0), (0, .callPredictFn 1)]

/-- The failure of the second batch. -/
def lateFailure : List (ℚ × Action ℕ) := [(1 / 2, .finish 1 (.raised ⟨.other, "boom"⟩))]

/-- The first failure opens the breaker at time `0`, and the second one, at time `1 / 2`, moves
the admission of the probe to time `3 / 2`. -/
theorem cooldown_since_last_failure_straggler :
    ∃ s ∈ Machine.exec step (new ⟨1, 0, 2, ⟨1, 1⟩⟩ ℕ 0) inFlightRun,
      ∃ s₂ ∈ step s (0, .finish 0 (.raised ⟨.other, "boom"⟩)),
        ∃ s₃ ∈ Machine.exec step s₂ lateFailure,
          newCalls { s₃ with now := 3 / 2 } (.predict "p") =
            [.admitted "p" true s₃.futures.length] := by
  obtain ⟨s, hs, hclosed, s₂, hstep, hopen, hquiet, hf, s₃, hpost, hnow⟩ :
      ∃ s ∈ Machine.exec step (new ⟨1, 0, 2, ⟨1, 1⟩⟩ ℕ 0) inFlightRun,
        s.circuitBreaker.state = .CLOSED ∧
        ∃ s₂ ∈ step s (0, .finish 0 (.raised ⟨.other, "boom"⟩)),
          s₂.circuitBreaker.state = .OPEN ∧
          Machine.StepsSatisfy step NoRecovery s₂ lateFailure ∧
          (Machine.observe step failureTimes s₂ lateFailure).getLastD 0 + 1 ≤ 3 / 2 ∧
          ∃ s₃ ∈ Machine.exec step s₂ lateFailure, s₃.now ≤ 3 / 2 := by
    decide +kernel
  exact ⟨s, hs, s₂, hstep, s₃, hpost, (cooldown_since_last_failure _ ℕ 0 inFlightRun lateFailure
    s s₂ s₃ 0 (3 / 2) _ "p" hs hstep hclosed hopen hpost hquiet hnow).mpr hf⟩

/-- At time `1`, when the cooldown since the opening is over, the check is rejected. -/
theorem straggler_postpones_probe :
    ∃ s ∈ Machine.exec step (new ⟨1, 0, 2, ⟨1, 1⟩⟩ ℕ 0) inFlightRun,
      s.circuitBreaker.state = .CLOSED ∧
      ∃ s₂ ∈ step s (0, .finish 0 (.raised ⟨.other, "boom"⟩)),
        s₂.circuitBreaker.state = .OPEN ∧
        Machine.StepsSatisfy step NoRecovery s₂ lateFailure ∧
        ∃ s₃ ∈ Machine.exec step s₂ lateFailure,
          ({ s₃ with now := 0 + 1 }.predict "p").2.isOk = false := by
  decide +kernel

end InferenceBatcher

end InferenceServer
