import Mathlib.Tactic.Linarith
import InferenceServer.Machine.Exec
import InferenceServer.Python

set_option relaxedAutoImplicit false
set_option autoImplicit false

/-!
# The circuit breaker (`app/circuit_breaker.py`)

`CircuitBreaker` with its five mutable fields and the two metrics it writes. Each method is a
function of the object and of one reading `now` of `time.monotonic()`: a call is instantaneous.

## Main definitions

* `InferenceServer.CircuitBreaker` — the object; its constructor arguments, which nothing
  reassigns, are the parameter `args` of the type.
* `CircuitBreaker.refresh`, `check`, `recordSuccess`, `recordFailure`, `status` — the methods.
* `CircuitBreaker.step` — the machine of calls at non-decreasing clock readings.
* `CircuitBreaker.Consistent` — the relations between the fields that every method keeps.

## Main results

* `CircuitBreaker.check_cases` — everything that `check` can do.
* `CircuitBreaker.Consistent.perform` — each method keeps the fields consistent.
-/

namespace InferenceServer

/-- `State`. -/
inductive State
  | CLOSED
  | OPEN
  | HALF_OPEN
  deriving DecidableEq, Repr

/-- `State.value`. -/
def State.value : State → String
  | .CLOSED => "closed"
  | .OPEN => "open"
  | .HALF_OPEN => "half_open"

/-- `_GAUGE_VALUE`. -/
def gaugeValue : State → ℕ
  | .CLOSED => 0
  | .HALF_OPEN => 1
  | .OPEN => 2

/-- The arguments of `CircuitBreaker.__init__`. -/
structure BreakerArgs where
  failureThreshold : ℤ := 5
  cooldownSeconds : ℚ := 30
  deriving DecidableEq, Repr

/-- The number of consecutive failures that opens the breaker. A threshold below `1` acts as
`1`, since `record_failure` compares after it has counted. -/
def BreakerArgs.limit (args : BreakerArgs) : ℕ := max 1 args.failureThreshold.toNat

/-- A `CircuitBreaker` object and the metrics `circuit_breaker_state` and
`circuit_breaker_rejections` that it writes. -/
structure CircuitBreaker (args : BreakerArgs) where
  state : State
  failureCount : ℕ
  rejections : ℕ
  openedAt : ℚ
  probeInFlight : Bool
  stateGauge : ℕ
  rejectionsCounter : ℕ
  deriving DecidableEq, Repr

/-- What `status` reports; the last two entries are present only while open and half-open. -/
structure Status where
  state : String
  failureCount : ℕ
  threshold : ℤ
  cooldownSeconds : ℚ
  rejections : ℕ
  secondsUntilProbe : Option ℚ
  probeInFlight : Option Bool
  deriving DecidableEq, Repr

namespace CircuitBreaker

variable {args : BreakerArgs}

/-- `CircuitBreaker.__init__`. -/
def new (args : BreakerArgs) : CircuitBreaker args where
  state := .CLOSED
  failureCount := 0
  rejections := 0
  openedAt := 0
  probeInFlight := false
  stateGauge := gaugeValue .CLOSED
  rejectionsCounter := 0

/-- `_set_state`. -/
def setState (cb : CircuitBreaker args) (new : State) : CircuitBreaker args :=
  { cb with state := new, stateGauge := gaugeValue new }

/-- The test of `_refresh`: open, and the cooldown has elapsed. -/
def refreshTest (cb : CircuitBreaker args) (now : ℚ) : Bool :=
  cb.state = .OPEN ∧ args.cooldownSeconds ≤ now - cb.openedAt

/-- `_refresh`; what it returns is the `state` of the result. -/
def refresh (cb : CircuitBreaker args) (now : ℚ) : CircuitBreaker args :=
  if cb.refreshTest now then cb.setState .HALF_OPEN else cb

/-- `max(0.0, self.cooldown_seconds - (time.monotonic() - self._opened_at))`. -/
def wait (cb : CircuitBreaker args) (now : ℚ) : ℚ :=
  max 0 (args.cooldownSeconds - (now - cb.openedAt))

/-- The `CircuitOpenError` of a half-open breaker whose probe is out. -/
def halfOpenError : PyException where
  cls := .circuitOpenError
  message := "Circuit breaker HALF_OPEN — a recovery probe is already in " ++
    "flight, try again shortly"

/-- The `CircuitOpenError` of an open breaker. -/
def openError (cb : CircuitBreaker args) (now : ℚ) : PyException where
  cls := .circuitOpenError
  message := "Circuit breaker OPEN — model backend failed " ++ toString cb.failureCount ++
    " times in a row; retrying in " ++ toString (roundHalfEven (cb.wait now)) ++ "s"

/-- The two lines of `check` that count a rejection. -/
def countRejection (cb : CircuitBreaker args) : CircuitBreaker args :=
  { cb with rejections := cb.rejections + 1, rejectionsCounter := cb.rejectionsCounter + 1 }

/-- `check`: the object afterwards, and the return or the exception raised. -/
def check (cb : CircuitBreaker args) (now : ℚ) : CircuitBreaker args × Except PyException Unit :=
  let cb := cb.refresh now
  if cb.state = .CLOSED then (cb, .ok ())
  else if cb.state = .HALF_OPEN ∧ cb.probeInFlight = false then
    ({ cb with probeInFlight := true }, .ok ())
  else if cb.state = .HALF_OPEN then (cb.countRejection, .error halfOpenError)
  else (cb.countRejection, .error (cb.openError now))

/-- `record_success`. -/
def recordSuccess (cb : CircuitBreaker args) : CircuitBreaker args :=
  let cb := { cb with failureCount := 0, probeInFlight := false }
  if cb.state ≠ .CLOSED then cb.setState .CLOSED else cb

/-- `record_failure`. -/
def recordFailure (cb : CircuitBreaker args) (now : ℚ) : CircuitBreaker args :=
  let wasProbe := cb.probeInFlight
  let cb := { cb with failureCount := cb.failureCount + 1, probeInFlight := false }
  if wasProbe = true ∨ args.failureThreshold ≤ cb.failureCount then
    { cb.setState .OPEN with openedAt := now }
  else cb

/-- `status`: the object afterwards, and the report. -/
def status (cb : CircuitBreaker args) (now : ℚ) : CircuitBreaker args × Status :=
  let cb := cb.refresh now
  (cb,
    { state := cb.state.value
      failureCount := cb.failureCount
      threshold := args.failureThreshold
      cooldownSeconds := args.cooldownSeconds
      rejections := cb.rejections
      secondsUntilProbe := if cb.state = .OPEN then some (pyRound (cb.wait now) 1) else none
      probeInFlight := if cb.state = .HALF_OPEN then some cb.probeInFlight else none })

/-! ## The machine of calls -/

/-- A call of one of the methods, or a read of the `state` property. -/
inductive Call
  | check
  | recordSuccess
  | recordFailure
  | status
  | state
  deriving DecidableEq, Repr

/-- What a call hands back. -/
inductive Reply
  | verdict (r : Except PyException Unit)
  | report (s : Status)
  | seen (s : State)
  | none

/-- One call at time `now`. -/
def perform (cb : CircuitBreaker args) (now : ℚ) : Call → CircuitBreaker args × Reply
  | .check => ((cb.check now).1, .verdict (cb.check now).2)
  | .recordSuccess => (cb.recordSuccess, .none)
  | .recordFailure => (cb.recordFailure now, .none)
  | .status => ((cb.status now).1, .report (cb.status now).2)
  | .state => (cb.refresh now, .seen (cb.refresh now).state)

/-- The machine of calls: its state is the object and the latest clock reading, an event is a
clock reading, not before the latest one, and the call made at it. -/
def step (s : CircuitBreaker args × ℚ) (e : ℚ × Call) : Option (CircuitBreaker args × ℚ) :=
  if s.2 ≤ e.1 then some ((s.1.perform e.1 e.2).1, e.1) else none

/-- A step is a call at a clock reading that is not before the latest one. -/
lemma step_eq_some {s s' : CircuitBreaker args × ℚ} {e : ℚ × Call} :
    step s e = some s' ↔ s.2 ≤ e.1 ∧ s' = ((s.1.perform e.1 e.2).1, e.1) := by
  unfold step
  split_ifs with h
  · simp [h, eq_comm]
  · simp [h]

/-! ## What the methods do -/

section Fields

variable (cb : CircuitBreaker args) (now : ℚ)

@[simp] lemma setState_state (s : State) : (cb.setState s).state = s := rfl

/-- `_refresh` writes nothing but the state and its gauge. -/
lemma refresh_eq : cb.refresh now =
    { cb with state := (cb.refresh now).state, stateGauge := (cb.refresh now).stateGauge } := by
  unfold refresh setState
  split_ifs <;> rfl

@[simp] lemma refresh_failureCount : (cb.refresh now).failureCount = cb.failureCount := by
  rw [refresh_eq]

@[simp] lemma refresh_rejections : (cb.refresh now).rejections = cb.rejections := by
  rw [refresh_eq]

@[simp] lemma refresh_openedAt : (cb.refresh now).openedAt = cb.openedAt := by
  rw [refresh_eq]

@[simp] lemma refresh_probeInFlight : (cb.refresh now).probeInFlight = cb.probeInFlight := by
  rw [refresh_eq]

/-- `_refresh` turns an open breaker whose cooldown has elapsed half-open, and does nothing
else. -/
lemma refresh_cases :
    (cb.state = .OPEN ∧ args.cooldownSeconds ≤ now - cb.openedAt ∧
      (cb.refresh now).state = .HALF_OPEN) ∨
    (¬ (cb.state = .OPEN ∧ args.cooldownSeconds ≤ now - cb.openedAt) ∧ cb.refresh now = cb) := by
  unfold refresh refreshTest
  by_cases h : cb.state = .OPEN ∧ args.cooldownSeconds ≤ now - cb.openedAt
  · exact .inl ⟨h.1, h.2, by simp [h]⟩
  · exact .inr ⟨h, by simp [h]⟩

/-- `_refresh` does nothing to a breaker that is not open. -/
lemma refresh_of_ne_open (h : cb.state ≠ .OPEN) : cb.refresh now = cb := by
  rcases cb.refresh_cases now with ⟨ho, -, -⟩ | ⟨-, he⟩
  · exact absurd ho h
  · exact he

/-- `_refresh` neither closes the breaker nor opens it. -/
@[simp] lemma refresh_state_eq_closed_iff :
    (cb.refresh now).state = .CLOSED ↔ cb.state = .CLOSED := by
  rcases cb.refresh_cases now with ⟨ho, -, hs⟩ | ⟨-, hs⟩
  · simp [ho, hs]
  · rw [hs]

/-- A breaker that is still open after `_refresh` was open, and its cooldown is running. -/
lemma refresh_state_eq_open_iff :
    (cb.refresh now).state = .OPEN ↔
      cb.state = .OPEN ∧ now - cb.openedAt < args.cooldownSeconds := by
  rcases cb.refresh_cases now with ⟨ho, hc, hs⟩ | ⟨hn, hs⟩
  · simp [hs, hc]
  · rw [hs]
    constructor
    · intro ho
      exact ⟨ho, not_le.mp fun hc => hn ⟨ho, hc⟩⟩
    · exact And.left

/-- Everything that `check` can do: admit through a closed breaker, admit the one probe of a
half-open breaker, or reject and count the rejection. -/
lemma check_cases :
    (cb.state = .CLOSED ∧ cb.check now = (cb, .ok ())) ∨
    ((cb.refresh now).state = .HALF_OPEN ∧ cb.probeInFlight = false ∧
      cb.check now = ({ cb.refresh now with probeInFlight := true }, .ok ())) ∨
    (((cb.refresh now).state = .OPEN ∨
        (cb.refresh now).state = .HALF_OPEN ∧ cb.probeInFlight = true) ∧
      ∃ e : PyException, e.cls = .circuitOpenError ∧
        cb.check now = ((cb.refresh now).countRejection, .error e)) := by
  unfold check
  cases hs : (cb.refresh now).state with
  | CLOSED =>
    have hc : cb.state = .CLOSED := (cb.refresh_state_eq_closed_iff now).mp hs
    have hr : cb.refresh now = cb := cb.refresh_of_ne_open now (by simp [hc])
    exact .inl ⟨hc, by simp [hr, hc]⟩
  | OPEN => exact .inr (.inr ⟨.inl rfl, (cb.refresh now).openError now, rfl, by simp [hs]⟩)
  | HALF_OPEN =>
    cases hp : cb.probeInFlight with
    | false => exact .inr (.inl ⟨rfl, rfl, by simp [hs, hp]⟩)
    | true => exact .inr (.inr ⟨.inr ⟨rfl, rfl⟩, halfOpenError, rfl, by simp [hs, hp]⟩)

@[simp] lemma recordSuccess_state : cb.recordSuccess.state = .CLOSED := by
  by_cases h : cb.state = .CLOSED <;> simp [recordSuccess, h]

@[simp] lemma recordSuccess_failureCount : cb.recordSuccess.failureCount = 0 := by
  by_cases h : cb.state = .CLOSED <;> simp [recordSuccess, setState, h]

@[simp] lemma recordSuccess_probeInFlight : cb.recordSuccess.probeInFlight = false := by
  by_cases h : cb.state = .CLOSED <;> simp [recordSuccess, setState, h]

@[simp] lemma recordSuccess_rejections : cb.recordSuccess.rejections = cb.rejections := by
  by_cases h : cb.state = .CLOSED <;> simp [recordSuccess, setState, h]

@[simp] lemma recordFailure_failureCount :
    (cb.recordFailure now).failureCount = cb.failureCount + 1 := by
  simp only [recordFailure, setState]
  split_ifs <;> rfl

@[simp] lemma recordFailure_probeInFlight : (cb.recordFailure now).probeInFlight = false := by
  simp only [recordFailure, setState]
  split_ifs <;> rfl

@[simp] lemma recordFailure_rejections : (cb.recordFailure now).rejections = cb.rejections := by
  simp only [recordFailure, setState]
  split_ifs <;> rfl

/-- `record_failure` opens the breaker and restarts the cooldown when it takes the failure for
the probe's or the count has reached the threshold; otherwise it leaves both alone. -/
lemma recordFailure_cases :
    ((cb.probeInFlight = true ∨ args.limit ≤ cb.failureCount + 1) ∧
      (cb.recordFailure now).state = .OPEN ∧ (cb.recordFailure now).openedAt = now) ∨
    ((cb.probeInFlight = false ∧ cb.failureCount + 1 < args.limit) ∧
      (cb.recordFailure now).state = cb.state ∧
      (cb.recordFailure now).openedAt = cb.openedAt) := by
  have hl : args.failureThreshold ≤ (cb.failureCount + 1 : ℕ) ↔
      args.limit ≤ cb.failureCount + 1 := by
    unfold BreakerArgs.limit
    omega
  simp only [recordFailure, setState, hl]
  by_cases h : cb.probeInFlight = true ∨ args.limit ≤ cb.failureCount + 1
  · exact .inl ⟨h, by rw [if_pos h]; exact ⟨rfl, rfl⟩⟩
  · refine .inr ⟨?_, by rw [if_neg h]; exact ⟨rfl, rfl⟩⟩
    rw [not_or, not_le, Bool.not_eq_true] at h
    exact h

/-- The gauge cannot drift: a call that assigns the state sets the gauge to it, and any other
call leaves both alone. -/
lemma perform_gauge (c : Call) :
    (cb.perform now c).1.stateGauge = gaugeValue (cb.perform now c).1.state ∨
    (cb.perform now c).1.state = cb.state ∧
      (cb.perform now c).1.stateGauge = cb.stateGauge := by
  have hr : (cb.refresh now).stateGauge = gaugeValue (cb.refresh now).state ∨
      cb.refresh now = cb := by
    unfold refresh
    split_ifs
    · exact .inl rfl
    · exact .inr rfl
  cases c with
  | check =>
    simp only [perform]
    rcases cb.check_cases now with ⟨-, he⟩ | ⟨-, -, he⟩ | ⟨-, e, -, he⟩ <;> rw [he]
    · exact .inr ⟨rfl, rfl⟩
    all_goals
      rcases hr with hr | hr
      · exact .inl hr
      · exact .inr (by rw [hr]; exact ⟨rfl, rfl⟩)
  | recordSuccess =>
    simp only [perform, recordSuccess]
    split_ifs
    · exact .inl rfl
    · exact .inr ⟨rfl, rfl⟩
  | recordFailure =>
    simp only [perform, recordFailure]
    split_ifs
    · exact .inl rfl
    · exact .inr ⟨rfl, rfl⟩
  | status => exact hr.imp_right fun h => by simp only [perform, status, h, and_self]
  | state => exact hr.imp_right fun h => by simp only [perform, h, and_self]

end Fields

/-! ## Consistency of the fields -/

/-- What holds between the fields of a breaker between two calls, at clock reading `now`: it is
closed exactly while the count is below the limit, the probe token is held only half-open, and it
is half-open only after the cooldown. -/
structure Consistent (cb : CircuitBreaker args) (now : ℚ) : Prop where
  closed_iff : cb.state = .CLOSED ↔ cb.failureCount < args.limit
  halfOpen_of_probe : cb.probeInFlight = true → cb.state = .HALF_OPEN
  cooled : cb.state = .HALF_OPEN → args.cooldownSeconds ≤ now - cb.openedAt
  openedAt_le : cb.state ≠ .CLOSED → cb.openedAt ≤ now

/-- A new breaker is consistent. -/
lemma consistent_new (now : ℚ) : (new args).Consistent now where
  closed_iff := by simp [new, BreakerArgs.limit]
  halfOpen_of_probe := by simp [new]
  cooled := by simp [new]
  openedAt_le := by simp [new]

namespace Consistent

variable {cb : CircuitBreaker args} {now later : ℚ}

/-- A breaker stays consistent while the clock advances. -/
lemma mono (h : cb.Consistent now) (hle : now ≤ later) : cb.Consistent later where
  closed_iff := h.closed_iff
  halfOpen_of_probe := h.halfOpen_of_probe
  cooled hs := (h.cooled hs).trans (sub_le_sub_right hle _)
  openedAt_le hs := (h.openedAt_le hs).trans hle

/-- `_refresh` keeps the fields consistent. -/
lemma refresh (h : cb.Consistent now) : (cb.refresh now).Consistent now := by
  rcases cb.refresh_cases now with ⟨ho, hc, hs⟩ | ⟨-, hs⟩
  · have hr : cb.refresh now = cb.setState .HALF_OPEN := by
      simp [CircuitBreaker.refresh, refreshTest, ho, hc]
    have hnc : ¬ cb.failureCount < args.limit := by
      rw [← h.closed_iff, ho]
      decide
    rw [hr]
    exact ⟨by simpa [setState] using hnc, fun _ => rfl, fun _ => hc,
      fun _ => h.openedAt_le (by simp [ho])⟩
  · rwa [hs]

/-- `check` keeps the fields consistent. -/
lemma check (h : cb.Consistent now) : (cb.check now).1.Consistent now := by
  have hr := h.refresh
  rcases cb.check_cases now with ⟨-, hc⟩ | ⟨hs, -, hc⟩ | ⟨-, e, -, hc⟩
  · rw [hc]
    exact h
  · rw [hc]
    exact ⟨hr.closed_iff, fun _ => hs, hr.cooled, hr.openedAt_le⟩
  · rw [hc]
    exact ⟨hr.closed_iff, hr.halfOpen_of_probe, hr.cooled, hr.openedAt_le⟩

/-- `record_success` leaves the fields consistent. -/
lemma recordSuccess (cb : CircuitBreaker args) (now : ℚ) : cb.recordSuccess.Consistent now where
  closed_iff := by simp [BreakerArgs.limit]
  halfOpen_of_probe := by simp
  cooled := by simp
  openedAt_le := by simp

/-- A held token or a breaker that is not closed means that the limit has been reached. -/
lemma limit_le (h : cb.Consistent now) (hs : cb.probeInFlight = true ∨ cb.state ≠ .CLOSED) :
    args.limit ≤ cb.failureCount := by
  rw [← not_lt, ← h.closed_iff]
  rcases hs with hp | hs
  · simp [h.halfOpen_of_probe hp]
  · exact hs

/-- `record_failure` opens the breaker or, below the limit, leaves it closed. -/
lemma recordFailure_state (h : cb.Consistent now) (t : ℚ) :
    (args.limit ≤ cb.failureCount + 1 ∧ (cb.recordFailure t).state = .OPEN ∧
      (cb.recordFailure t).openedAt = t) ∨
    (cb.failureCount + 1 < args.limit ∧ cb.state = .CLOSED ∧
      (cb.recordFailure t).state = .CLOSED) := by
  rcases cb.recordFailure_cases t with ⟨hl, hs⟩ | ⟨⟨hp, hl⟩, hs, -⟩
  · refine .inl ⟨?_, hs⟩
    rcases hl with hp | hl
    · exact (h.limit_le (.inl hp)).trans (Nat.le_succ _)
    · exact hl
  · have hc : cb.state = .CLOSED := h.closed_iff.mpr ((Nat.lt_succ_self _).trans hl)
    exact .inr ⟨hl, hc, hs.trans hc⟩

/-- `record_failure` keeps the fields consistent. -/
lemma recordFailure (h : cb.Consistent now) : (cb.recordFailure now).Consistent now := by
  rcases h.recordFailure_state now with ⟨hl, hs, ht⟩ | ⟨hl, -, hs⟩
  · exact ⟨by simp [hs, hl], by simp, by simp [hs], fun _ => ht.le⟩
  · exact ⟨by simp [hs, hl], by simp, by simp [hs], by simp [hs]⟩

/-- Every call keeps the fields consistent. -/
lemma perform (h : cb.Consistent now) (c : Call) : (cb.perform now c).1.Consistent now := by
  cases c with
  | check => exact h.check
  | recordSuccess => exact .recordSuccess cb now
  | recordFailure => exact h.recordFailure
  | status => exact h.refresh
  | state => exact h.refresh

end Consistent

end CircuitBreaker

end InferenceServer
