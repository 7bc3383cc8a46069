import InferenceServer.Batcher.Outage

set_option relaxedAutoImplicit false
set_option autoImplicit false

/-!
# What a rejected caller is told

`check` rejects with a text: that a recovery probe is in flight, or how often the backend has failed
in a row and how many seconds are left. `status` counts the same seconds down. Here the texts are
compared with what has happened in the run.

## Main definitions

* `InferenceBatcher.lastFailure` — the time of the last failure recorded in a run.

## Main results

* `InferenceBatcher.openedAt_exec` — an open or half-open breaker has been cooling since then.
* `InferenceBatcher.rejections_explained` — what the texts say about the run.
-/

namespace InferenceServer

namespace InferenceBatcher

variable {args : BatcherArgs} {ρ : Type} {s s' s₂ : InferenceBatcher args ρ} {a : Action ρ}
  {cb : CircuitBreaker args.breaker} {calls : List PredictCall}

/-- The time of the last failure recorded in a run, if there is one. -/
def lastFailure (args : BatcherArgs) (ρ : Type) (t₀ : ℚ) (es : List (ℚ × Action ρ)) : Option ℚ :=
  (Machine.observe step failureTimes (new args ρ t₀) es).getLast?

/-- A breaker that is not closed after an action has opened in it, at a failure, or has not been
closed before. -/
lemma Gate.openedAt (h : Gate s a cb calls) (hcons : s.circuitBreaker.Consistent s.now)
    (hopen : cb.state ≠ .CLOSED) :
    verdict s a = some false ∧ cb.openedAt = s.now ∨
      verdict s a ≠ some false ∧ s.circuitBreaker.state ≠ .CLOSED ∧
        cb.openedAt = s.circuitBreaker.openedAt := by
  cases h with
  | closed text hs => exact absurd hs hopen
  | probe text hs hp =>
    refine .inr ⟨by simp [verdict], fun hc => ?_, by simp⟩
    rw [← s.circuitBreaker.refresh_state_eq_closed_iff s.now, hs] at hc
    cases hc
  | rejected text e he hs =>
    refine .inr ⟨by simp [verdict], fun hc => hopen ?_, by simp [CircuitBreaker.countRejection]⟩
    exact (s.circuitBreaker.refresh_state_eq_closed_iff s.now).mpr hc
  | success a hv => simp at hopen
  | failure a hv =>
    rcases hcons.recordFailure_state s.now with ⟨-, -, hat⟩ | ⟨-, -, hclosed⟩
    · exact .inl ⟨hv, hat⟩
    · exact absurd hclosed hopen
  | poll =>
    refine .inr ⟨by simp [verdict], fun hc => hopen ?_, by simp⟩
    exact (s.circuitBreaker.refresh_state_eq_closed_iff s.now).mpr hc
  | other a hv => exact .inr ⟨by simp [hv], hopen, rfl⟩

/-- **A breaker that is not closed has been cooling since the last failure.**

**Proof sketch.** Induction on the run: it opens at a failure, and each further one restarts the
cooldown (`Gate.openedAt`). -/
theorem openedAt_exec {t₀ : ℚ} {es : List (ℚ × Action ρ)}
    (hrun : Machine.exec step (new args ρ t₀) es = some s) :
    s.circuitBreaker.state ≠ .CLOSED →
      lastFailure args ρ t₀ es = some s.circuitBreaker.openedAt := by
  refine Machine.exec_induction (P := fun es s => s.circuitBreaker.state ≠ .CLOSED →
    lastFailure args ρ t₀ es = some s.circuitBreaker.openedAt) (fun hn => absurd rfl hn) ?_
    es s hrun
  intro es e s s' hs ih hstep hopen
  obtain ⟨hle, heff⟩ := step_effect hstep
  rw [lastFailure, Machine.observe_snoc hs hstep, failureTimes]
  rcases heff.gate.openedAt ((consistent_exec hs).mono hle) hopen with ⟨hv, hat⟩ | ⟨hv, hn, hat⟩
  · have hv' : verdict s e.2 = some false := hv
    rw [if_pos hv', List.getLast?_concat, hat]
  · have hv' : verdict s e.2 ≠ some false := hv
    rw [if_neg hv', List.append_nil, hat]
    exact ih hn

/-- What `check` has done when a call is rejected. -/
lemma check_of_rejected {text : String} {e : PyException}
    (h : newCalls s (.predict text) = [.rejected text e]) :
    ∃ cb, s.circuitBreaker.check s.now = (cb, .error e) := by
  cases hc : s.circuitBreaker.check s.now with
  | mk cb r =>
    cases r with
    | error e' =>
      obtain rfl : e' = e := by simpa [newCalls, hc] using h
      exact ⟨cb, rfl⟩
    | ok u => simp [newCalls, hc] at h

/-- The two texts of `check`.

**Proof sketch.** Split its branches: a closed breaker and a free token admit. -/
lemma check_texts {cb cb' : CircuitBreaker args.breaker} {now : ℚ} {e : PyException}
    (h : cb.check now = (cb', .error e)) :
    (e = CircuitBreaker.halfOpenError ∧ cb.probeInFlight = true) ∨
      (e = (cb.refresh now).openError now ∧ (cb.refresh now).state = .OPEN) := by
  simp only [CircuitBreaker.check] at h
  split_ifs at h with hclosed hfree hhalf
  · cases h
  · cases h
  · obtain ⟨-, he⟩ := Prod.mk.inj h
    have htoken : cb.probeInFlight ≠ false := by simpa [hhalf] using hfree
    exact .inl ⟨(Except.error.inj he).symm, by simpa using htoken⟩
  · obtain ⟨-, he⟩ := Prod.mk.inj h
    refine .inr ⟨(Except.error.inj he).symm, ?_⟩
    cases hs : (cb.refresh now).state with
    | CLOSED => exact absurd hs hclosed
    | HALF_OPEN => exact absurd hs hhalf
    | OPEN => rfl

/-- What is left of the cooldown of an open breaker. -/
lemma wait_of_open {cb : CircuitBreaker args.breaker} {now : ℚ}
    (h : (cb.refresh now).state = .OPEN) :
    now < cb.openedAt + args.breaker.cooldownSeconds ∧
      (cb.refresh now).wait now = cb.openedAt + args.breaker.cooldownSeconds - now := by
  have hlt := ((cb.refresh_state_eq_open_iff now).mp h).2
  refine ⟨by linarith, ?_⟩
  rw [CircuitBreaker.wait, CircuitBreaker.refresh_openedAt, max_eq_right (by linarith)]
  ring

/-- **What rejections say.** A call is rejected at time `t` after a run. Then either it is told that
a probe is in flight, and no outcome of the latest probe has been recorded; before `stop()` it is
still to come, if no batch of a probe with the token was lost. Or it is told how many
batches have failed in a row, which is what has been recorded since the last success, and in how
many seconds to retry, which is up to half a second what is left of the cooldown since the last
failure; `/health` counts the same time down, up to a twentieth of a second; and while no success is
recorded and no probe is admitted, a call is admitted exactly when the cooldown since the last
failure is over.

**Proof sketch.** The breaker counts the failed batches (`tallied_exec`) and cools since the last of
them (`openedAt_exec`); a held token has an owner (`tokenOwned_exec`), which is not lost
(`tokenSafe_exec`). For what comes after, it is `coolingSince_exec`. -/
theorem rejections_explained (args : BatcherArgs) (ρ : Type) (t₀ t : ℚ) (es : List (ℚ × Action ρ))
    (s : InferenceBatcher args ρ) (text : String) (e : PyException)
    (hrun : Machine.exec step (new args ρ t₀) es = some s)
    (hrejected : newCalls { s with now := t } (.predict text) = [.rejected text e]) :
    (e = CircuitBreaker.halfOpenError ∧ ∃ f, s.latestProbe = some f ∧ s.Awaiting f ∧
      (s.stopping = .notCalled → Machine.StepsSatisfy step ProbeUnharmed (new args ρ t₀) es →
        ¬ s.Lost f)) ∨
    ∃ (last : ℚ) (seconds : ℤ) (rest : ℚ), lastFailure args ρ t₀ es = some last ∧
      e.message = "Circuit breaker OPEN — model backend failed " ++
        toString (failedBatches (outcomes args ρ t₀ es)).length ++
        " times in a row; retrying in " ++ toString seconds ++ "s" ∧
      args.breaker.limit ≤ (failedBatches (outcomes args ρ t₀ es)).length ∧
      t < last + args.breaker.cooldownSeconds ∧
      |seconds - (last + args.breaker.cooldownSeconds - t)| ≤ 1 / 2 ∧
      (s.circuitBreaker.status t).2.secondsUntilProbe = some rest ∧
      |rest - (last + args.breaker.cooldownSeconds - t)| ≤ 1 / 20 ∧
      ∀ post s₂ u text', Machine.exec step s post = some s₂ →
        Machine.StepsSatisfy step NoRecovery s post → s₂.now ≤ u →
        (newCalls { s₂ with now := u } (.predict text') =
            [.admitted text' true s₂.futures.length] ↔
          (Machine.observe step failureTimes s post).getLastD last +
            args.breaker.cooldownSeconds ≤ u) := by
  have hcons := consistent_exec hrun
  obtain ⟨cb, hcheck⟩ : ∃ cb, s.circuitBreaker.check t = (cb, .error e) :=
    check_of_rejected hrejected
  rcases check_texts hcheck with ⟨he, htoken⟩ | ⟨he, hopen⟩
  · obtain ⟨f, hf, hw⟩ := tokenOwned_exec hrun htoken
    exact .inl ⟨he, f, hf, hw, fun hstop hspared => tokenSafe_exec hspared hrun hstop htoken f hf⟩
  · have hstate : s.circuitBreaker.state = .OPEN :=
      ((s.circuitBreaker.refresh_state_eq_open_iff t).mp hopen).1
    have hne : s.circuitBreaker.state ≠ .CLOSED := by simp [hstate]
    have hcount := (tallied_exec hrun).count
    obtain ⟨hlt, hwait⟩ := wait_of_open hopen
    refine .inr ⟨s.circuitBreaker.openedAt, roundHalfEven ((s.circuitBreaker.refresh t).wait t),
      pyRound ((s.circuitBreaker.refresh t).wait t) 1, openedAt_exec hrun hne, ?_, ?_, hlt, ?_, ?_,
      ?_, ?_⟩
    · rw [he, CircuitBreaker.openError, CircuitBreaker.refresh_failureCount, hcount]
    · rw [← hcount]
      exact hcons.limit_le (.inr hne)
    · rw [← hwait]
      exact abs_roundHalfEven_sub_le _
    · simp only [CircuitBreaker.status, hopen, if_true]
    · rw [← hwait]
      exact (abs_pyRound_sub_le _ 1).trans (by norm_num)
    · intro post s₂ u text' hpost hquiet hu
      have htoken : s.circuitBreaker.probeInFlight = false := by
        by_contra hp
        rw [Bool.not_eq_false] at hp
        cases hstate.symm.trans (hcons.halfOpen_of_probe hp)
      obtain ⟨hcons₂, hcool⟩ := coolingSince_exec hcons ⟨hne, htoken, rfl⟩ hpost hquiet
      exact hcool.probe_iff hcons₂ hu text'

/-- Two batches have failed in a row, the second one after a second. -/
def twoFailures : List (ℚ × Action ℕ) :=
  secondFailure ++ [(1, .finish 1 (.raised ⟨.other, "boom"⟩))]

/-- What a caller is told then, three tenths of a second more than it has to wait. -/
theorem rejections_explained_two :
    ∃ s, Machine.exec step (new ⟨2, 20, 1, ⟨2, 30⟩⟩ ℕ 0) twoFailures = some s ∧
      newCalls { s with now := 63 / 10 } (.predict "d") =
        [.rejected "d" ⟨.circuitOpenError, "Circuit breaker OPEN — model backend failed 2 " ++
          "times in a row; retrying in 25s"⟩] ∧
      ∃ last rest, lastFailure ⟨2, 20, 1, ⟨2, 30⟩⟩ ℕ 0 twoFailures = some last ∧
        63 / 10 < last + 30 ∧
        (s.circuitBreaker.status (63 / 10)).2.secondsUntilProbe = some rest ∧
        |rest - (last + 30 - 63 / 10)| ≤ 1 / 20 := by
  obtain ⟨s, hs, hrejected⟩ :
      ∃ s ∈ Machine.exec step (new ⟨2, 20, 1, ⟨2, 30⟩⟩ ℕ 0) twoFailures,
        newCalls { s with now := 63 / 10 } (.predict "d") =
          [.rejected "d" ⟨.circuitOpenError, "Circuit breaker OPEN — model backend failed 2 " ++
            "times in a row; retrying in 25s"⟩] := by
    decide +kernel
  refine ⟨s, hs, hrejected, ?_⟩
  rcases rejections_explained _ ℕ 0 (63 / 10) twoFailures s "d" _ hs hrejected with
    ⟨he, -⟩ | ⟨last, seconds, rest, hlast, -, -, hlt, -, hrest, hclose, -⟩
  · exact absurd he (by decide +kernel)
  · exact ⟨last, rest, hlast, hlt, hrest, hclose⟩

end InferenceBatcher

end InferenceServer
