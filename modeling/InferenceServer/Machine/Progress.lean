import InferenceServer.Machine.Exec

set_option relaxedAutoImplicit false
set_option autoImplicit false

/-!
# Runs that come to an end

A kind of steps of a machine is *exhausting* if every such step lowers a measure, and if one of
them is possible wherever the machine is not done. Whoever schedules such steps, in whatever order,
gets done: a run of them is no longer than the measure, and one that cannot go on has got there.

## Main definitions

* `Machine.Exhausting` — the kind of steps, with the invariant and the measure.

## Main results

* `Machine.Exhausting.length_add_work_le` — the bound on the length.
* `Machine.Exhausting.done_of_stuck` — where a run ends that cannot go on.
* `Machine.Exhausting.exists_run` — there is such a run.
-/

namespace Machine

variable {σ ε : Type*} {step : σ → ε → Option σ} {K : σ → ε → Prop} {I Done : σ → Prop}
  {work : σ → ℕ}

/-- Steps of the kind `K` keep the invariant `I` and lower the measure `work`; and while `Done` does
not hold one of them is possible. -/
structure Exhausting (step : σ → ε → Option σ) (K : σ → ε → Prop) (I Done : σ → Prop)
    (work : σ → ℕ) : Prop where
  keep : ∀ s e s', I s → K s e → step s e = some s' → I s'
  lower : ∀ s e s', I s → K s e → step s e = some s' → work s' < work s
  progress : ∀ s, I s → ¬ Done s → ∃ e s', K s e ∧ step s e = some s'

/-- The rest of a run takes only steps of the run. -/
lemma StepsSatisfy.rest {s m : σ} {pre post : List ε} (h : StepsSatisfy step K s (pre ++ post))
    (hpre : exec step s pre = some m) : StepsSatisfy step K m post := by
  intro es e t hes ht
  refine h (pre ++ es) e t ?_ (exec_append_eq_some.mpr ⟨m, hpre, ht⟩)
  rw [List.append_assoc]
  exact (List.prefix_append_right_inj pre).mpr hes

section Events

variable {s s' : σ} {es : List ε} {P : ε → Prop}

/-- Steps of a kind that depends on the event only. -/
lemma stepsSatisfy_of_forall (h : ∀ e ∈ es, P e) : StepsSatisfy step (fun _ e => P e) s es := by
  intro pre e t hpre _
  exact h e (hpre.subset (List.mem_append_right pre (List.mem_singleton.mpr rfl)))

/-- A run that executes takes all its events. -/
lemma forall_of_stepsSatisfy (h : StepsSatisfy step (fun _ e => P e) s es)
    (hrun : exec step s es = some s') : ∀ e ∈ es, P e := by
  intro e he
  obtain ⟨pre, post, rfl⟩ := List.append_of_mem he
  obtain ⟨t, ht, -⟩ := exec_append_eq_some.mp hrun
  exact h pre e t (by simp) ht

end Events

namespace Exhausting

variable {s s' : σ} {es : List ε}

/-- The invariant holds along a run of such steps. -/
lemma invariant (h : Exhausting step K I Done work) (hI : I s) (hK : StepsSatisfy step K s es)
    (hrun : exec step s es = some s') : I s' :=
  exec_invariant_of_steps h.keep hI hK hrun

/-- **A run of such steps is no longer than the measure at its start**, and what it does not use up
is left at its end.

**Proof sketch.** Induction on the run: one more step lowers the measure by one at least. -/
theorem length_add_work_le (h : Exhausting step K I Done work) (hI : I s)
    (hK : StepsSatisfy step K s es) (hrun : exec step s es = some s') :
    es.length + work s' ≤ work s := by
  refine exec_induction (P := fun es s' => StepsSatisfy step K s es → es.length + work s' ≤ work s)
    (fun _ => by simp) ?_ es s' hrun hK
  intro es e t t' ht ih hstep hK
  have hpre := hK.of_prefix (List.prefix_append es [e])
  have hlt := h.lower t e t' (h.invariant hI hpre ht) (hK.last ht) hstep
  have hle := ih hpre
  rw [List.length_append, List.length_singleton]
  omega

/-- **A run of such steps that cannot go on has got done.** -/
theorem done_of_stuck (h : Exhausting step K I Done work) (hI : I s)
    (hK : StepsSatisfy step K s es) (hrun : exec step s es = some s')
    (hstuck : ∀ e, K s' e → step s' e = none) : Done s' := by
  by_contra hn
  obtain ⟨e, t, hKe, ht⟩ := h.progress s' (h.invariant hI hK hrun) hn
  rw [hstuck e hKe] at ht
  cases ht

/-- **There is a run of such steps that gets done.**

**Proof sketch.** Strong induction on the measure: the first step is there as long as the machine is
not done, and lowers it. -/
theorem exists_run (h : Exhausting step K I Done work) (hI : I s) :
    ∃ es s', StepsSatisfy step K s es ∧ exec step s es = some s' ∧ Done s' := by
  induction hn : work s using Nat.strongRecOn generalizing s with
  | ind n ih =>
    by_cases hd : Done s
    · exact ⟨[], s, stepsSatisfy_nil s, rfl, hd⟩
    · obtain ⟨e, t, hKe, ht⟩ := h.progress s hI hd
      have hlt : work t < n := hn ▸ h.lower s e t hI hKe ht
      obtain ⟨es, s', hK, hrun, hdone⟩ := ih (work t) hlt (h.keep s e t hI hKe ht) rfl
      refine ⟨e :: es, s', stepsSatisfy_cons.mpr ⟨hKe, fun t' ht' => ?_⟩, ?_, hdone⟩
      · obtain rfl : t = t' := Option.some.inj (ht.symm.trans ht')
        exact hK
      · rw [exec_cons, ht]
        exact hrun

end Exhausting

end Machine
