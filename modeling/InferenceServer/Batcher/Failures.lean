import InferenceServer.Batcher.Answers

set_option relaxedAutoImplicit false
set_option autoImplicit false

/-!
# Rejected calls and failed batches

The two ways in which `predict` can raise: `check` rejects the call, or the batch of the request
ends with an exception.

## Main definitions

* `InferenceBatcher.batchFailure` — the exception that a batch ends with, if it ends with one.
* `InferenceBatcher.FailedWith` — the batch of a request has ended with an exception.

## Main results

* `InferenceBatcher.rejections_exec` — the breaker counts the rejected calls.
* `InferenceBatcher.rejected_exec` — a call is rejected with a `CircuitOpenError`.
* `InferenceBatcher.failedWith_iff` — the exception of a batch is what its requests get.
-/

namespace InferenceServer

/-- The call was rejected. -/
def PredictCall.isRejected : PredictCall → Bool
  | .rejected _ _ => true
  | .admitted _ _ _ => false

namespace InferenceBatcher

variable {args : BatcherArgs} {ρ : Type} {s s' : InferenceBatcher args ρ} {a : Action ρ}

/-! ## Rejections -/

/-- `check` counts a rejection, and only that. -/
lemma check_rejections (cb : CircuitBreaker args.breaker) (now : ℚ) :
    (cb.check now).1.rejections =
      cb.rejections + match (cb.check now).2 with
        | .ok _ => 0
        | .error _ => 1 := by
  rcases cb.check_cases now with ⟨-, hc⟩ | ⟨-, -, hc⟩ | ⟨-, e, -, hc⟩ <;> rw [hc]
  · rfl
  · show (cb.refresh now).rejections = _
    simp
  · show (cb.refresh now).rejections + 1 = _
    simp

/-- What `check` raises is a `CircuitOpenError`. -/
lemma check_error {cb cb' : CircuitBreaker args.breaker} {now : ℚ} {e : PyException}
    (h : cb.check now = (cb', .error e)) : e.cls = .circuitOpenError := by
  rcases cb.check_cases now with ⟨-, hc⟩ | ⟨-, -, hc⟩ | ⟨-, e', he', hc⟩ <;> rw [hc] at h
  · cases h
  · cases h
  · obtain ⟨-, he⟩ := Prod.mk.inj h
    rw [← Except.error.inj he]
    exact he'

/-- An action counts the calls that it rejects. -/
lemma Effect.rejections (h : Effect s a s') :
    s'.circuitBreaker.rejections =
      s.circuitBreaker.rejections + (newCalls s a).countP PredictCall.isRejected := by
  cases h with
  | reject text cb e hc =>
    have hr := check_rejections s.circuitBreaker s.now
    simp only [hc] at hr
    simp [newCalls, hc, hr, PredictCall.isRejected]
  | accept text cb hc =>
    have hr := check_rejections s.circuitBreaker s.now
    simp only [hc] at hr
    simp [newCalls, hc, hr, PredictCall.isRejected]
  | poll => simp [newCalls]
  | finish k b batch hk hb =>
    show (record _ _ _).rejections = _
    unfold record
    split <;> simp [newCalls]
  | _ => simp [newCalls]

/-- The breaker has counted the rejected calls, after every run. -/
lemma rejections_exec {t₀ : ℚ} {es : List (ℚ × Action ρ)}
    (hrun : Machine.exec step (new args ρ t₀) es = some s) :
    s.circuitBreaker.rejections = s.calls.countP PredictCall.isRejected := by
  refine Machine.exec_invariant (I := fun s : InferenceBatcher args ρ =>
    s.circuitBreaker.rejections = s.calls.countP PredictCall.isRejected) ?_ rfl hrun
  intro s e s' hs h
  obtain ⟨-, heff⟩ := step_effect h
  rw [heff.rejections, heff.calls_eq, List.countP_append, ← hs]

/-- Only a `CircuitOpenError` rejects a call, after every run. -/
lemma rejected_exec {t₀ : ℚ} {es : List (ℚ × Action ρ)}
    (hrun : Machine.exec step (new args ρ t₀) es = some s) :
    ∀ text e, .rejected text e ∈ s.calls → e.cls = .circuitOpenError := by
  refine Machine.exec_invariant (I := fun s : InferenceBatcher args ρ =>
    ∀ text e, .rejected text e ∈ s.calls → e.cls = .circuitOpenError) ?_ (by simp [new]) hrun
  intro s e s' hs h text err hmem
  obtain ⟨-, heff⟩ := step_effect h
  rw [heff.calls_eq, List.mem_append] at hmem
  rcases hmem with hmem | hmem
  · exact hs text err hmem
  · unfold newCalls at hmem
    split at hmem
    · split at hmem
      · rename_i hc
        obtain ⟨-, rfl⟩ : text = _ ∧ err = _ := by simpa using hmem
        exact check_error hc
      · simp at hmem
    · cases hmem

/-! ## Failed batches -/

/-- The exception that the requests of a batch of `n` items get when the batch ends so, if they get
one: what `predict_fn` raised, the `RuntimeError` of the arity check, or, for a cancelled task, the
one of the `finally` clause. -/
def batchFailure (n : ℕ) (b : Behaviour ρ) : Option PyException :=
  match outcome n b with
  | some (.ok _) => none
  | some (.error e) => some e
  | none => some noResultError

/-- The batch of the request with the future `f` has ended with the exception `e`. -/
def FailedWith (s : InferenceBatcher args ρ) (f : ℕ) (e : PyException) : Prop :=
  ∃ t ∈ s.tasks, ∃ b, (t.phase = .finished b ∨ t.phase = .reaped b) ∧
    batchFailure t.batch.length b = some e ∧ ∃ it ∈ t.batch, it.future = f

/-- In a batch that ends with an exception everybody gets it. -/
lemma answer_eq_exception_iff {n : ℕ} {b : Behaviour ρ} {i : ℕ} {e : PyException} (hi : i < n) :
    answer n b i = .exception e ↔ batchFailure n b = some e := by
  unfold answer batchFailure
  cases ho : outcome n b with
  | none => simp
  | some o =>
    cases o with
    | error e' => simp
    | ok results =>
      have hlen := (outcome_eq_ok.mp ho).2
      obtain ⟨row, hrow⟩ : ∃ row, results[i]? = some row :=
        ⟨_, List.getElem?_eq_getElem (hlen ▸ hi)⟩
      simp [hrow]

/-- The batch of a request has ended with an exception exactly when this is its answer. -/
lemma failedWith_iff {f : ℕ} {e : PyException} :
    s.FailedWith f e ↔ s.AnsweredBy f (.exception e) := by
  constructor
  · rintro ⟨t, ht, b, hb, he, it, hit, hf⟩
    obtain ⟨i, hi⟩ := List.mem_iff_getElem?.mp hit
    have hlt := (List.getElem?_eq_some_iff.mp hi).1
    exact ⟨t, ht, b, hb, i, it, hi, hf, ((answer_eq_exception_iff hlt).mpr he).symm⟩
  · rintro ⟨t, ht, b, hb, i, it, hit, hf, hv⟩
    have hlt := (List.getElem?_eq_some_iff.mp hit).1
    exact ⟨t, ht, b, hb, (answer_eq_exception_iff hlt).mp hv.symm, it,
      List.mem_of_getElem? hit, hf⟩

end InferenceBatcher

end InferenceServer
