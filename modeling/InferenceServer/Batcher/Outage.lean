import InferenceServer.Batcher.Drain
import InferenceServer.Batcher.Recovery

set_option relaxedAutoImplicit false
set_option autoImplicit false

/-!
# Before, during and after an outage

What the breaker makes of a backend that fails: how many requests it may fail before the breaker
opens, how often it is tried while the breaker is open, and what it takes to close the breaker once
the backend works again.

## Main definitions

* `InferenceBatcher.outcomes` — the outcomes recorded along a run, with their batches.
* `InferenceBatcher.failedSince` — the requests that have failed since the last success.
* `InferenceBatcher.credit` — the time that the admissions of an outage are paid from.

## Main results

* `InferenceBatcher.opens_after` — how many requests fail before the breaker opens.
* `InferenceBatcher.outage_admissions` — how many are admitted in an outage.
* `InferenceBatcher.healthy_backend_closes` — one request after the cooldown closes the breaker, if
  every batch that ends from then on succeeds.
-/

namespace InferenceServer

namespace InferenceBatcher

variable {args : BatcherArgs} {ρ : Type} {s s' : InferenceBatcher args ρ} {a : Action ρ}
  {e : ℚ × Action ρ} {cb : CircuitBreaker args.breaker} {calls : List PredictCall}

/-! ## Before the breaker opens -/

/-- An outcome that a step records: whether it is a success, and the batch. -/
def recorded (s : InferenceBatcher args ρ) (e : ℚ × Action ρ) (_ : InferenceBatcher args ρ) :
    List (Bool × List Item) :=
  match verdict s e.2 with
  | some ok => [(ok, s.endedBatch e.2)]
  | none => []

/-- The outcomes recorded along a run. -/
def outcomes (args : BatcherArgs) (ρ : Type) (t₀ : ℚ) (es : List (ℚ × Action ρ)) :
    List (Bool × List Item) :=
  Machine.observe step recorded (new args ρ t₀) es

/-- The batches that have failed since the last success. -/
def failedBatches (log : List (Bool × List Item)) : List (List Item) :=
  (log.reverse.takeWhile fun o => !o.1).map Prod.snd

/-- The number of requests whose batch has failed since the last success. -/
def failedSince (log : List (Bool × List Item)) : ℕ :=
  ((failedBatches log).map List.length).sum

/-- A success forgets the failures before it. -/
lemma failedBatches_success (log : List (Bool × List Item)) (batch : List Item) :
    failedBatches (log ++ [(true, batch)]) = [] := by
  simp [failedBatches]

/-- A failure adds its batch. -/
lemma failedBatches_failure (log : List (Bool × List Item)) (batch : List Item) :
    failedBatches (log ++ [(false, batch)]) = batch :: failedBatches log := by
  simp [failedBatches]

/-- The breaker counts the batches that have failed since the last success, and each of them has at
least one and at most `max 1 batchSize` requests. -/
structure Tallied (s : InferenceBatcher args ρ) (log : List (Bool × List Item)) : Prop where
  count : s.circuitBreaker.failureCount = (failedBatches log).length
  sizes : ∀ batch ∈ failedBatches log,
    1 ≤ batch.length ∧ (batch.length : ℤ) ≤ max 1 args.batchSize

/-- What a step does to the count of the breaker. -/
lemma Gate.failureCount (h : Gate s a cb calls) :
    cb.failureCount = match verdict s a with
      | some true => 0
      | some false => s.circuitBreaker.failureCount + 1
      | none => s.circuitBreaker.failureCount := by
  cases h with
  | success a hv => simp [hv]
  | failure a hv => simp [hv]
  | other a hv => simp [hv]
  | closed text hs => rfl
  | probe text hs hp => simp [verdict]
  | rejected text e he hs => simp [verdict, CircuitBreaker.countRejection]
  | poll => simp [verdict]

/-- A batch whose outcome is recorded is one of the dispatched ones. -/
lemma endedBatch_mem_batches (hv : verdict s a ≠ none) : s.endedBatch a ∈ s.batches := by
  cases a with
  | finish k b =>
    simp only [verdict] at hv
    split at hv
    · rename_i batch hk
      simp only [endedBatch, hk]
      exact List.mem_map_of_mem (List.mem_of_getElem? hk)
    · exact absurd rfl hv
  | _ => exact absurd rfl hv

/-- A step tallies the outcome that it records.

**Proof sketch.** By the outcome: a success sets the count back and forgets the batches, a failure
adds one to both. -/
lemma Tallied.step {log : List (Bool × List Item)} (h : Tallied s log) (hi : FlowInv s)
    (hstep : step s e = some s') : Tallied s' (log ++ recorded s e s') := by
  obtain ⟨-, heff⟩ := step_effect hstep
  have hcount := heff.gate.failureCount
  have hverdict : verdict { s with now := e.1 } e.2 = verdict s e.2 := rfl
  rw [hverdict] at hcount
  unfold recorded
  cases hv : verdict s e.2 with
  | none =>
    rw [hv] at hcount
    rw [List.append_nil]
    exact ⟨hcount.trans h.count, h.sizes⟩
  | some ok =>
    rw [hv] at hcount
    cases ok with
    | true =>
      refine ⟨?_, ?_⟩
      · rw [failedBatches_success]
        exact hcount
      · rw [failedBatches_success]
        exact fun batch hb => by cases hb
    | false =>
      have hsize := hi.sizes _ (endedBatch_mem_batches (a := e.2) (by simp [hv]))
      refine ⟨?_, ?_⟩
      · rw [failedBatches_failure, List.length_cons, ← h.count]
        exact hcount
      · rw [failedBatches_failure]
        rintro batch (_ | ⟨_, hb⟩)
        · exact hsize
        · exact h.sizes batch hb

/-- The tally holds after every run. -/
lemma tallied_exec {t₀ : ℚ} {es : List (ℚ × Action ρ)}
    (hrun : Machine.exec step (new args ρ t₀) es = some s) :
    Tallied s (outcomes args ρ t₀ es) := by
  refine Machine.exec_induction (P := fun es s => Tallied s (outcomes args ρ t₀ es)) ?_ ?_ es s hrun
  · exact ⟨rfl, by simp [outcomes, failedBatches]⟩
  · intro es e s s' hs ih hstep
    rw [outcomes, Machine.observe_snoc hs hstep]
    exact ih.step (flowInv_exec hs) hstep

/-- The sum of bounded lengths. -/
lemma sum_length_bounds {batches : List (List Item)} {m : ℤ}
    (h : ∀ batch ∈ batches, 1 ≤ batch.length ∧ (batch.length : ℤ) ≤ m) :
    batches.length ≤ (batches.map List.length).sum ∧
      ((batches.map List.length).sum : ℤ) ≤ batches.length * m := by
  induction batches with
  | nil => simp
  | cons batch batches ih =>
    obtain ⟨hlow, hhigh⟩ := h batch List.mem_cons_self
    obtain ⟨ihlow, ihhigh⟩ := ih fun b hb => h b (List.mem_cons_of_mem _ hb)
    rw [List.map_cons, List.sum_cons, List.length_cons]
    constructor
    · omega
    · rw [Nat.cast_add, Nat.cast_add, Nat.cast_one]
      linarith

/-- **How many requests fail before the breaker opens.** After every run with a closed breaker,
fewer than `limit` batches have failed since the last success, with at most `max 1 batchSize`
requests each; and the step that opens the breaker is the failure of the `limit`-th one, so that at
least `limit` and at most `limit * max 1 batchSize` requests have failed by then.

**Proof sketch.** The breaker counts the failed batches (`tallied_exec`), and is closed exactly
while it has counted fewer than `limit` (`consistent_exec`). -/
theorem opens_after (args : BatcherArgs) (ρ : Type) (t₀ : ℚ) (es : List (ℚ × Action ρ))
    (s : InferenceBatcher args ρ) (hrun : Machine.exec step (new args ρ t₀) es = some s)
    (hclosed : s.circuitBreaker.state = .CLOSED) :
    (failedSince (outcomes args ρ t₀ es) : ℤ) ≤ (args.breaker.limit - 1) * max 1 args.batchSize ∧
    ∀ e s', step s e = some s' → s'.circuitBreaker.state ≠ .CLOSED →
      (failedBatches (outcomes args ρ t₀ (es ++ [e]))).length = args.breaker.limit ∧
      args.breaker.limit ≤ failedSince (outcomes args ρ t₀ (es ++ [e])) ∧
      (failedSince (outcomes args ρ t₀ (es ++ [e])) : ℤ) ≤
        args.breaker.limit * max 1 args.batchSize := by
  have hpos : (1 : ℤ) ≤ max 1 args.batchSize := le_max_left 1 _
  have ht := tallied_exec hrun
  have hlt := (consistent_exec hrun).closed_iff.mp hclosed
  constructor
  · have hsum := (sum_length_bounds ht.sizes).2
    rw [← ht.count] at hsum
    have hle : (s.circuitBreaker.failureCount : ℤ) ≤ args.breaker.limit - 1 := by omega
    exact hsum.trans (mul_le_mul_of_nonneg_right hle (by omega))
  · intro e s' hstep hopen
    have hrun' := Machine.exec_snoc_eq_some.mpr ⟨s, hrun, hstep⟩
    have ht' := tallied_exec hrun'
    have hge : args.breaker.limit ≤ s'.circuitBreaker.failureCount :=
      (consistent_exec hrun').limit_le (.inr hopen)
    have hone : s'.circuitBreaker.failureCount ≤ s.circuitBreaker.failureCount + 1 := by
      rw [(step_effect hstep).2.gate.failureCount]
      split
      · exact Nat.zero_le _
      · exact le_rfl
      · exact Nat.le_succ _
    have hlimit : (failedBatches (outcomes args ρ t₀ (es ++ [e]))).length = args.breaker.limit := by
      rw [← ht'.count]
      omega
    have hsum := sum_length_bounds ht'.sizes
    rw [hlimit] at hsum
    exact ⟨hlimit, hsum⟩

/-- Three requests at a batch size of two, in two batches: the first one has failed, the second one
is with `predict_fn`. -/
def secondFailure : List (ℚ × Action ℕ) :=
  [(0, .start), (0, .predict "a"), (0, .predict "b"), (0, .predict "c"),
    (0, .collectFirst), (0, .loopTest), (0, .collectNext), (0, .loopTest), (0, .acquire),
    (0, .dispatch), (0, .callPredictFn 0), (0, .finish 0 (.raised ⟨.other, "boom"⟩)),
    (0, .batchDone 0), (0, .collectFirst), (0, .loopTest), (1, .collectTimeout), (1, .acquire),
    (1, .dispatch), (1, .callPredictFn 1)]

/-- At a threshold of two the second failure opens the breaker, after three failed requests. -/
theorem opens_after_second :
    ∃ s, Machine.exec step (new ⟨2, 20, 1, ⟨2, 1⟩⟩ ℕ 0) secondFailure = some s ∧
      (failedSince (outcomes ⟨2, 20, 1, ⟨2, 1⟩⟩ ℕ 0
        (secondFailure ++ [(1, .finish 1 (.raised ⟨.other, "boom"⟩))])) : ℤ) ≤ 2 * 2 := by
  obtain ⟨s, hs, hclosed, s', hstep, hopen⟩ :
      ∃ s ∈ Machine.exec step (new ⟨2, 20, 1, ⟨2, 1⟩⟩ ℕ 0) secondFailure,
        s.circuitBreaker.state = .CLOSED ∧
        ∃ s' ∈ step s (1, .finish 1 (.raised ⟨.other, "boom"⟩)),
          s'.circuitBreaker.state ≠ .CLOSED := by
    decide +kernel
  exact ⟨s, hs, ((opens_after _ ℕ 0 secondFailure s hs hclosed).2 _ s' hstep hopen).2.2⟩

/-! ## While the breaker is open -/

/-- What the admissions of an outage are paid from: the time of the last failure, and the current
time while a probe has the token. -/
def credit (s : InferenceBatcher args ρ) : ℚ :=
  if s.circuitBreaker.probeInFlight then s.now else s.circuitBreaker.openedAt

/-- An outage goes on: since it began with credit `c₀` the breaker has not closed, and each of the
`n` admissions has used up a cooldown. -/
structure Outage (c₀ : ℚ) (n : ℕ) (s : InferenceBatcher args ρ) : Prop where
  state : s.circuitBreaker.state ≠ .CLOSED
  paid : n * args.breaker.cooldownSeconds ≤ s.credit - c₀

/-- The credit does not exceed the time. -/
lemma credit_le_now (hc : s.circuitBreaker.Consistent s.now)
    (hs : s.circuitBreaker.state ≠ .CLOSED) : s.credit ≤ s.now := by
  unfold credit
  split_ifs
  · exact le_rfl
  · exact hc.openedAt_le hs

/-- Time that passes is credited while a probe has the token. -/
lemma credit_tick {t : ℚ} (ht : s.now ≤ t) : s.credit ≤ credit { s with now := t } := by
  unfold credit
  split_ifs with hp
  · exact ht
  · exact le_rfl

/-- What a step does to the credit: an admission needs a cooldown of it, and nothing lowers it.

**Proof sketch.** By the rule. The probe is admitted when the cooldown has elapsed since the last
failure, and from then on the credit is the time. A failure restarts the cooldown at the current
time. Everything else leaves the breaker as it is, up to half-open. -/
lemma Gate.credit (h : Gate s a cb calls) (hc : s.circuitBreaker.Consistent s.now)
    (hs : s.circuitBreaker.state ≠ .CLOSED) (hv : verdict s a ≠ some true) :
    cb.state ≠ .CLOSED ∧
      (items calls).length * args.breaker.cooldownSeconds ≤
        (if cb.probeInFlight then s.now else cb.openedAt) - s.credit := by
  have hr : (s.circuitBreaker.refresh s.now).state ≠ .CLOSED := by
    rwa [Ne, CircuitBreaker.refresh_state_eq_closed_iff]
  have hle := credit_le_now hc hs
  cases h with
  | closed text hs' => exact absurd hs' hs
  | probe text hs' hp =>
    refine ⟨hr, ?_⟩
    have hcool := hc.refresh.cooled hs'
    rw [CircuitBreaker.refresh_openedAt] at hcool
    have hcredit : s.credit = s.circuitBreaker.openedAt := by simp [InferenceBatcher.credit, hp]
    rw [hcredit]
    simpa [items] using hcool
  | rejected text e he hs' =>
    refine ⟨hr, ?_⟩
    simp [items, InferenceBatcher.credit, CircuitBreaker.countRejection]
  | success a hv' => exact absurd hv' hv
  | failure a hv' =>
    rcases hc.recordFailure_state s.now with ⟨-, ho, ht⟩ | ⟨-, hcl, -⟩
    · refine ⟨by simp [ho], ?_⟩
      simpa [items, ht] using hle
    · exact absurd hcl hs
  | poll =>
    refine ⟨hr, ?_⟩
    simp [items, InferenceBatcher.credit]
  | other a hv' =>
    refine ⟨hs, ?_⟩
    simp [items, InferenceBatcher.credit]

/-- A step that records no success pays for the requests that it admits. -/
lemma Outage.step {c₀ : ℚ} {n : ℕ} (h : Outage c₀ n s) (hc : s.circuitBreaker.Consistent s.now)
    (hv : NoSuccess s e) (hstep : step s e = some s') :
    Outage c₀ (n + (items (newCalls { s with now := e.1 } e.2)).length) s' := by
  obtain ⟨hle, heff⟩ := step_effect hstep
  obtain ⟨hstate, hpaid⟩ := heff.gate.credit (hc.mono hle) h.state hv
  have htick : s.credit ≤ credit { s with now := e.1 } := credit_tick hle
  have hcredit : s'.credit = if s'.circuitBreaker.probeInFlight then e.1
      else s'.circuitBreaker.openedAt := by
    rw [credit, heff.now_eq]
  refine ⟨hstate, ?_⟩
  rw [hcredit]
  have hold := h.paid
  push_cast
  calc (n + (items (newCalls { s with now := e.1 } e.2)).length) * args.breaker.cooldownSeconds
      = n * args.breaker.cooldownSeconds +
          (items (newCalls { s with now := e.1 } e.2)).length * args.breaker.cooldownSeconds := by
        ring
    _ ≤ _ := by linarith

/-- **How many requests are admitted in an outage.** A step of a run opens the breaker at time `t`,
and no success is recorded in the run that follows. Then the breaker stays open or half-open, and
the requests admitted since `t` take a cooldown each out of the time that has passed.

**Proof sketch.** `Outage`: the credit begins at `t`, as the step that opens the breaker restarts
the cooldown; an admission uses up a cooldown of it (`Gate.credit`); and it never exceeds the
time. -/
theorem outage_admissions (args : BatcherArgs) (ρ : Type) (t₀ : ℚ) (es post : List (ℚ × Action ρ))
    (s s₂ s₃ : InferenceBatcher args ρ) (t : ℚ) (a : Action ρ)
    (hrun : Machine.exec step (new args ρ t₀) es = some s) (hstep : step s (t, a) = some s₂)
    (hopens : Opens s (t, a) s₂) (hpost : Machine.exec step s₂ post = some s₃)
    (hquiet : Machine.StepsSatisfy step NoSuccess s₂ post) :
    s₃.circuitBreaker.state ≠ .CLOSED ∧
      ((items s₃.calls).length - (items s₂.calls).length) * args.breaker.cooldownSeconds ≤
        s₃.now - t := by
  have hcons₂ : s₂.circuitBreaker.Consistent s₂.now := consistent_step (consistent_exec hrun) hstep
  have hcredit : s₂.credit = t := by
    have htoken : s₂.circuitBreaker.probeInFlight = false := by
      by_contra hp
      rw [Bool.not_eq_false] at hp
      cases hopens.2.symm.trans (hcons₂.halfOpen_of_probe hp)
    simp [credit, htoken, (openSince_opens hstep hopens).2]
  have hall : s₃.circuitBreaker.Consistent s₃.now ∧ ∃ n, (items s₃.calls).length =
      (items s₂.calls).length + n ∧ Outage t n s₃ := by
    refine Machine.exec_invariant_of_steps (I := fun s => s.circuitBreaker.Consistent s.now ∧
      ∃ n, (items s.calls).length = (items s₂.calls).length + n ∧ Outage t n s) ?_
      ⟨hcons₂, 0, rfl, by simp [hopens.2], by simp [hcredit]⟩ hquiet hpost
    rintro s e s' ⟨hc, n, hn, hout⟩ hv hse
    refine ⟨consistent_step hc hse, _, ?_, hout.step hc hv hse⟩
    rw [(step_effect hse).2.calls_eq, items_append, List.length_append, hn, Nat.add_assoc]
  obtain ⟨hcons, n, hn, hout⟩ := hall
  refine ⟨hout.state, ?_⟩
  have hle := credit_le_now hcons hout.state
  have hpaid := hout.paid
  rw [hn]
  push_cast
  linarith

/-- One request, whose batch is with `predict_fn`. -/
def lastSuccess : List (ℚ × Action ℕ) :=
  [(0, .start), (0, .predict "a"), (0, .collectFirst), (0, .loopTest), (0, .acquire),
    (0, .dispatch), (0, .callPredictFn 0)]

/-- A probe that fails, and the next one. -/
def twoProbes : List (ℚ × Action ℕ) :=
  [(1 / 2, .predict "b"), (1, .predict "c"), (1, .batchDone 0), (1, .collectFirst), (1, .loopTest),
    (1, .acquire), (1, .dispatch), (1, .callPredictFn 1),
    (3 / 2, .finish 1 (.raised ⟨.other, "boom"⟩)), (2, .predict "d"), (5 / 2, .predict "e")]

/-- Two of the four requests are admitted, in two and a half seconds. -/
theorem outage_admissions_two :
    ∃ s ∈ Machine.exec step (new ⟨1, 0, 1, ⟨1, 1⟩⟩ ℕ 0) lastSuccess,
      ∃ s₂ ∈ step s (0, .finish 0 (.raised ⟨.other, "boom"⟩)),
        ∃ s₃ ∈ Machine.exec step s₂ twoProbes,
          (items s₃.calls).length = (items s₂.calls).length + 2 ∧ (2 : ℚ) * 1 ≤ s₃.now - 0 := by
  obtain ⟨s, hs, s₂, hstep, hopens, hquiet, s₃, hpost, htwo⟩ :
      ∃ s ∈ Machine.exec step (new ⟨1, 0, 1, ⟨1, 1⟩⟩ ℕ 0) lastSuccess,
        ∃ s₂ ∈ step s (0, .finish 0 (.raised ⟨.other, "boom"⟩)),
          (s.circuitBreaker.state ≠ .OPEN ∧ s₂.circuitBreaker.state = .OPEN) ∧
          Machine.StepsSatisfy step NoSuccess s₂ twoProbes ∧
          ∃ s₃ ∈ Machine.exec step s₂ twoProbes,
            (items s₃.calls).length = (items s₂.calls).length + 2 := by
    decide +kernel
  refine ⟨s, hs, s₂, hstep, s₃, hpost, htwo, ?_⟩
  have hpaid := (outage_admissions _ ℕ 0 lastSuccess twoProbes s s₂ s₃ 0 _ hs hstep hopens hpost
    hquiet).2
  rw [htwo] at hpaid
  push_cast at hpaid
  linarith

/-! ## When the backend works again -/

/-- Somebody waits for an outcome that is still to come, or a success has been recorded and no
failure since. -/
def Recovering (s : InferenceBatcher args ρ) : Prop :=
  (∃ f, s.Awaiting f ∧ ¬ s.Lost f) ∨
    s.circuitBreaker.state = .CLOSED ∧ s.circuitBreaker.failureCount = 0

/-- A smooth step leaves the breaker alone, and ends no batch, or records a success. -/
lemma Gate.smooth (h : Gate s a cb calls) (ha : a.isProgress = true)
    (hv : a.isFinish = true → verdict s a = some true) :
    verdict s a = some true ∧ cb = s.circuitBreaker.recordSuccess ∨
      verdict s a = none ∧ a.isFinish = false ∧ cb = s.circuitBreaker := by
  cases h with
  | success a hv' => exact .inl ⟨hv', rfl⟩
  | failure a hv' =>
    cases a with
    | finish k b => cases hv'.symm.trans (hv rfl)
    | _ => cases hv'
  | other a hv' =>
    refine .inr ⟨hv', Bool.eq_false_iff.mpr fun hf => ?_, rfl⟩
    cases hv'.symm.trans (hv hf)
  | _ => cases ha

/-- A smooth step keeps it so.

**Proof sketch.** A step that ends no batch leaves whoever waits waiting, and the breaker as it is.
A step that ends one records a success, which closes the breaker and sets the count back. -/
lemma Recovering.step (h : Recovering s) (hi : FlowInv s) (he : Smooth s e)
    (hstep : step s e = some s') : Recovering s' := by
  obtain ⟨-, heff⟩ := step_effect hstep
  rcases heff.gate.smooth he.1 he.2 with ⟨-, hcb⟩ | ⟨hv, hfin, hcb⟩
  · exact .inr (by simp [hcb])
  · rcases h with ⟨f, hf, hn⟩ | hclosed
    · refine .inl ⟨f, (heff.awaiting_iff (hi.tick e.1) f).mpr (.inl ⟨hf, fun hc => hc.1 hv⟩), ?_⟩
      intro hl
      rcases heff.lost_cases hl with hl | ⟨k, b, hk, -⟩
      · exact hn hl
      · simp [hk, Action.isFinish] at hfin
    · exact .inr (by rw [hcb]; exact hclosed)

/-- Whoever waits for an outcome in an idle batcher waits in vain. -/
lemma Idle.lost (h : Idle s) (hi : PermitInv s) {f : ℕ} (hf : s.Awaiting f) : s.Lost f := by
  rcases hf with ⟨it, hit, -⟩ | ⟨it, hit, -⟩ | ⟨t, ht, hr, hit⟩
  · rw [h.queue] at hit
    cases hit
  · rw [h.worker] at hit
    cases hit
  · exact ⟨t, ht, by simp [TaskPhase.lost, h.ended hi ht, hr], hit⟩

/-- After the cooldown a call of `predict` finds or makes somebody wait for an outcome that is still
to come.

**Proof sketch.** The call is admitted, and waits itself, or it is rejected. Then the breaker is
half-open with the token held, and the probe waits (`TokenOwned`) and is not lost (`TokenSafe`). -/
lemma recovering_predict {t : ℚ} {text : String} (hi : FlowInv s) (ht : TokenOwned s)
    (hsafe : TokenSafe s)
    (hcool : s.circuitBreaker.state = .OPEN →
      args.breaker.cooldownSeconds ≤ t - s.circuitBreaker.openedAt)
    (hstep : step s (t, .predict text) = some s') : ∃ f, s'.Awaiting f ∧ ¬ s'.Lost f := by
  obtain ⟨-, heff⟩ := step_effect hstep
  have hwait := fun f => heff.awaiting_iff (hi.tick t) f
  have hlost : ∀ f, s'.Lost f → s.Lost f := by
    intro f hl
    rcases heff.lost_cases hl with hl | ⟨k, b, hk, -⟩
    · exact hl
    · cases hk
  have hnew : ∀ probe, newCalls { s with now := t } (.predict text) =
      [.admitted text probe s.futures.length] → ∃ f, s'.Awaiting f ∧ ¬ s'.Lost f := by
    intro probe hc
    refine ⟨s.futures.length, (hwait _).mpr (.inr ⟨⟨text, s.futures.length⟩, ?_, rfl⟩),
      fun hl => absurd (hi.lost_lt (hlost _ hl)) (lt_irrefl _)⟩
    rw [hc]
    simp [items]
  rcases s.circuitBreaker.check_cases t with ⟨-, he⟩ | ⟨-, -, he⟩ | ⟨hs, exc, -, he⟩
  · apply hnew
    simp only [newCalls, he]
    rfl
  · apply hnew
    simp only [newCalls, he]
    rfl
  · have htoken : s.circuitBreaker.probeInFlight = true := by
      rcases hs with ho | ⟨-, hp⟩
      · obtain ⟨hopen, hlt⟩ := (s.circuitBreaker.refresh_state_eq_open_iff t).mp ho
        exact absurd (hcool hopen) (not_le.mpr hlt)
      · exact hp
    obtain ⟨f, hlast, hf⟩ := ht htoken
    exact ⟨f, (hwait f).mpr (.inl ⟨hf, by simp [verdict]⟩),
      fun hl => hsafe htoken f hlast (hlost f hl)⟩

/-- The breaker is closed with no failure counted, and the batcher is idle. -/
def Recovered (s : InferenceBatcher args ρ) : Prop :=
  s.circuitBreaker.state = .CLOSED ∧ s.circuitBreaker.failureCount = 0 ∧
    s.circuitBreaker.probeInFlight = false ∧ Idle s

/-- **A backend that works again closes the breaker.** In a run of a batcher that has been started
and not stopped, on which no batch of a probe with the token was lost, somebody calls `predict` at a
time when the cooldown of an open breaker is over. From then on every batch that ends succeeds. Then
the steps of the batcher come to an end, and wherever they cannot go on, the breaker is closed with
no failure counted and with the token free, and all requests admitted have their answers; and there
is a run that leads there.

**Proof sketch.** After the call somebody waits for an outcome, the caller or the probe that has the
token (`recovering_predict`). It stays so until a success is recorded, which closes the breaker
(`Recovering.step`); and in the end nobody waits (`exhausting`). -/
theorem healthy_backend_closes [Nonempty ρ] (args : BatcherArgs)
    (hmax : 1 ≤ args.maxConcurrentBatches) (t₀ t : ℚ) (es : List (ℚ × Action ρ))
    (s s₁ : InferenceBatcher args ρ) (text : String)
    (hrun : Machine.exec step (new args ρ t₀) es = some s) (hstart : s.worker ≠ .notStarted)
    (hstop : s.stopping = .notCalled)
    (hspared : Machine.StepsSatisfy step ProbeUnharmed (new args ρ t₀) es)
    (hcool : s.circuitBreaker.state = .OPEN →
      args.breaker.cooldownSeconds ≤ t - s.circuitBreaker.openedAt)
    (hcall : step s (t, .predict text) = some s₁) :
    (∀ fs s₂, Machine.StepsSatisfy step Smooth s₁ fs → Machine.exec step s₁ fs = some s₂ →
      fs.length ≤ s₁.work ∧ ((∀ e, Smooth s₂ e → step s₂ e = none) → Recovered s₂)) ∧
    ∃ fs s₂, Machine.StepsSatisfy step Smooth s₁ fs ∧ Machine.exec step s₁ fs = some s₂ ∧
      Recovered s₂ := by
  have hall : Machine.Exhausting step Smooth Serving Idle (work : InferenceBatcher args ρ → ℕ) :=
    exhausting hmax
  have hrun₁ := Machine.exec_snoc_eq_some.mpr ⟨s, hrun, hcall⟩
  obtain ⟨-, heff⟩ := step_effect hcall
  have hs₁ : Serving s₁ := by
    refine ⟨⟨t₀, _, hrun₁⟩, heff.started hstart, ?_⟩
    have hsame : s₁.stopping = s.stopping := by
      cases heff <;> rfl
    exact hsame.trans hstop
  have hfirst : Recovering s₁ :=
    .inl (recovering_predict (flowInv_exec hrun) (tokenOwned_exec hrun)
      (tokenSafe_exec hspared hrun hstop) hcool hcall)
  have hend : ∀ fs s₂, Machine.StepsSatisfy step Smooth s₁ fs →
      Machine.exec step s₁ fs = some s₂ → Idle s₂ → Recovered s₂ := by
    intro fs s₂ hfs hexec hidle
    have hboth : FlowInv s₂ ∧ Recovering s₂ := by
      refine Machine.exec_invariant_of_steps (I := fun s => FlowInv s ∧ Recovering s) ?_
        ⟨flowInv_exec hrun₁, hfirst⟩ hfs hexec
      rintro s e s' ⟨hi, hr⟩ he hstep
      exact ⟨flowInv_step hi hstep, hr.step hi he hstep⟩
    have hs₂ : Serving s₂ := hall.invariant hs₁ hfs hexec
    obtain ⟨t₁, es₂, hrun₂⟩ := hs₂.run
    rcases hboth.2 with ⟨f, hf, hn⟩ | ⟨hclosed, hcount⟩
    · exact absurd (hidle.lost (permits_exec hrun₂) hf) hn
    · refine ⟨hclosed, hcount, ?_, hidle⟩
      by_contra hp
      rw [Bool.not_eq_false] at hp
      cases hclosed.symm.trans ((consistent_exec hrun₂).halfOpen_of_probe hp)
  constructor
  · intro fs s₂ hfs hexec
    have hlen := hall.length_add_work_le hs₁ hfs hexec
    refine ⟨by omega, fun hstuck => hend fs s₂ hfs hexec ?_⟩
    exact hall.done_of_stuck hs₁ hfs hexec hstuck
  · obtain ⟨fs, s₂, hfs, hexec, hidle⟩ := hall.exists_run hs₁
    exact ⟨fs, s₂, hfs, hexec, hend fs s₂ hfs hexec hidle⟩

/-- The breaker has opened at time `0`, and at time `1` its cooldown is over. -/
theorem healthy_backend_closes_one :
    ∃ s ∈ Machine.exec step (new ⟨1, 0, 1, ⟨1, 1⟩⟩ ℕ 0)
        (lastSuccess ++ [(0, .finish 0 (.raised ⟨.other, "boom"⟩))]),
      s.circuitBreaker.state = .OPEN ∧
      ∃ s₁ ∈ step s (1, .predict "b"), ∃ fs s₂, Machine.exec step s₁ fs = some s₂ ∧
        s₂.circuitBreaker.state = .CLOSED := by
  obtain ⟨s, hs, hopen, hstart, hstop, hcool, s₁, hcall, -⟩ :
      ∃ s ∈ Machine.exec step (new ⟨1, 0, 1, ⟨1, 1⟩⟩ ℕ 0)
          (lastSuccess ++ [(0, .finish 0 (.raised ⟨.other, "boom"⟩))]),
        s.circuitBreaker.state = .OPEN ∧ s.worker ≠ .notStarted ∧ s.stopping = .notCalled ∧
        (1 : ℚ) ≤ 1 - s.circuitBreaker.openedAt ∧
        ∃ s₁ ∈ step s (1, .predict "b"), s₁.circuitBreaker.probeInFlight = true := by
    decide +kernel
  obtain ⟨-, fs, s₂, -, hexec, hclosed, -⟩ := healthy_backend_closes ⟨1, 0, 1, ⟨1, 1⟩⟩ (by decide) 0
    1 _ s s₁ "b" hs hstart hstop (by decide +kernel) (fun _ => hcool) hcall
  exact ⟨s, hs, hopen, s₁, hcall, fs, s₂, hexec, hclosed⟩

end InferenceBatcher

end InferenceServer
