import InferenceServer.Machine.Exec

set_option relaxedAutoImplicit false
set_option autoImplicit false

/-!
# The last step of a kind

A statement about the state of a machine is often relative to the last step of a certain kind:
what has happened since the last time that the door was opened. Such a step is a split of the
run, and what holds since then is an induction on the part behind it.

## Main definitions

* `Machine.LastStep` — the last step of a run that is of the kind `O`, and the rest of the run.

## Main results

* `Machine.exists_lastStep` — if a state predicate can only become true by a step of the kind
  `O`, then where it holds there was one, and what such a step brings about and no other step
  undoes holds since the last of them.
-/

namespace Machine

variable {σ ε : Type*} {step : σ → ε → Option σ} {O : σ → ε → σ → Prop}

/-- The run `es` from `s₀` took its last step of the kind `O` by `e` from `s₁` to `s₂`, and
`post` is what came after it. -/
structure LastStep (step : σ → ε → Option σ) (O : σ → ε → σ → Prop) (s₀ : σ) (es : List ε)
    (s₁ : σ) (e : ε) (s₂ : σ) (post : List ε) : Prop where
  split : ∃ pre, es = pre ++ e :: post ∧ exec step s₀ pre = some s₁
  step_eq : step s₁ e = some s₂
  kind : O s₁ e s₂
  quiet : ∀ mid f t t', mid ++ [f] <+: post → exec step s₂ mid = some t →
    step t f = some t' → ¬ O t f t'

namespace LastStep

variable {s₀ s s' s₁ s₂ : σ} {es post : List ε} {e f : ε}

/-- A step of the kind at the end of a run is the last one. -/
lemma of_kind (hs : exec step s₀ es = some s) (h : step s e = some s') (hO : O s e s') :
    LastStep step O s₀ (es ++ [e]) s e s' [] where
  split := ⟨es, rfl, hs⟩
  step_eq := h
  kind := hO
  quiet mid f t t' hpre := by simp at hpre

/-- The run after the last step of the kind leads to the end of the whole run. -/
lemma exec_post (h : LastStep step O s₀ es s₁ e s₂ post) (hs : exec step s₀ es = some s) :
    exec step s₂ post = some s := by
  obtain ⟨pre, rfl, hpre⟩ := h.split
  obtain ⟨m, hm, hrest⟩ := exec_append_eq_some.mp hs
  obtain rfl : m = s₁ := Option.some.inj (hm.symm.trans hpre)
  rw [exec_cons, h.step_eq] at hrest
  exact hrest

/-- A step of another kind at the end of a run leaves the last one where it was.

**Proof sketch.** The new step is the last of the longer rest, and it starts from the end of the
run (`exec_post`); every other step of the rest was there before. -/
lemma snoc (h : LastStep step O s₀ es s₁ e s₂ post) (hs : exec step s₀ es = some s)
    (hstep : step s f = some s') (hO : ¬ O s f s') :
    LastStep step O s₀ (es ++ [f]) s₁ e s₂ (post ++ [f]) where
  split := by
    obtain ⟨pre, rfl, hpre⟩ := h.split
    exact ⟨pre, by simp, hpre⟩
  step_eq := h.step_eq
  kind := h.kind
  quiet mid g t t' hpre ht hg := by
    rcases List.prefix_concat_iff.mp hpre with he | hpre
    · obtain ⟨rfl, rfl⟩ : mid = post ∧ g = f := by simpa using List.append_inj' he rfl
      obtain rfl : t = s := Option.some.inj (ht.symm.trans (h.exec_post hs))
      obtain rfl : t' = s' := Option.some.inj (hg.symm.trans hstep)
      exact hO
    · exact h.quiet mid g t t' hpre ht hg

end LastStep

/-- **Since the last step of a kind**: `P` becomes true only by a step of the kind `O`; such a
step from `s₁` brings about `J s₁`, and while `P` holds no step of another kind undoes it. Then
after every run that ends where `P` holds there was a last step of the kind, and `J s₁` holds. The
invariant `I` of all steps is at hand.

**Proof sketch.** `exec_induction`. A step of the kind `O` is the last one itself. Before a step
of another kind `P` holds already, and the induction hypothesis gives the last one
(`LastStep.snoc`). -/
theorem exists_lastStep {I P : σ → Prop} {J : σ → σ → Prop}
    (hI : ∀ s e s', I s → step s e = some s' → I s')
    (enter : ∀ s e s', I s → step s e = some s' → ¬ P s → P s' → O s e s')
    (start : ∀ s e s', I s → step s e = some s' → O s e s' → J s s')
    (keep : ∀ s₁ s e s', I s → step s e = some s' → P s → P s' → ¬ O s e s' → J s₁ s →
      J s₁ s')
    {s₀ s : σ} {es : List ε} (h₀ : I s₀) (hP₀ : ¬ P s₀) (h : exec step s₀ es = some s)
    (hP : P s) : ∃ s₁ e s₂ post, LastStep step O s₀ es s₁ e s₂ post ∧ J s₁ s := by
  refine exec_induction (P := fun es s => P s →
    ∃ s₁ e s₂ post, LastStep step O s₀ es s₁ e s₂ post ∧ J s₁ s) (fun hP => absurd hP hP₀) ?_
    es s h hP
  intro es e s s' hs ih hstep hP'
  have hIs : I s := exec_invariant hI h₀ hs
  by_cases hO : O s e s'
  · exact ⟨s, e, s', [], .of_kind hs hstep hO, start s e s' hIs hstep hO⟩
  · have hPs : P s := by_contra fun hn => hO (enter s e s' hIs hstep hn hP')
    obtain ⟨s₁, e₁, s₂, post, hlast, hJ⟩ := ih hPs
    exact ⟨s₁, e₁, s₂, post ++ [e], hlast.snoc hs hstep hO,
      keep s₁ s e s' hIs hstep hPs hP' hO hJ⟩

end Machine
