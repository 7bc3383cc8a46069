import Mathlib.Data.List.Induction
import Mathlib.Tactic.Lemma

set_option relaxedAutoImplicit false
set_option autoImplicit false

/-!
# Runs of a partial machine

A machine is a partial step function `step : σ → ε → Option σ`: in state `s` the event `e` is
either impossible (`none`) or leads to one next state. All nondeterminism sits in the choice of
the events, so a run is a list of events, and a property of every interleaving is a property of
every event list that executes.

## Main definitions

* `Machine.exec` — the state after a list of events, if each of them was possible.
* `Machine.Along` — a property of every state that a run visits.
* `Machine.StepsSatisfy` — a condition on every step that a run takes.
* `Machine.observe` — what an observer of single steps writes down along a run.

## Main results

* `Machine.exec_induction` — induction on a run from its last step.
* `Machine.exec_invariant`, `Machine.exec_invariant_relative`, `Machine.exec_invariant_of_steps` —
  the invariant rules: plain, relative to another invariant, and with a condition on the steps
  taken.
* `Machine.exec_simulates` — the simulation rule.
* `Machine.steps_of_along` — when the condition on the steps is necessary.
* `Machine.observe_snoc` — the last step adds its own observations.
-/

namespace Machine

variable {σ ε ο : Type*}

/-- The state reached from `s` by the events `es`, or `none` if one of them is impossible. -/
def exec (step : σ → ε → Option σ) : σ → List ε → Option σ
  | s, [] => some s
  | s, e :: es => (step s e).bind fun s' => exec step s' es

variable {step : σ → ε → Option σ}

@[simp] lemma exec_nil (s : σ) : exec step s [] = some s := rfl

lemma exec_cons (s : σ) (e : ε) (es : List ε) :
    exec step s (e :: es) = (step s e).bind fun s' => exec step s' es := rfl

/-- A run over a concatenation is the run over the first part, then over the second. -/
lemma exec_append (s : σ) (es fs : List ε) :
    exec step s (es ++ fs) = (exec step s es).bind fun s' => exec step s' fs := by
  induction es generalizing s with
  | nil => rfl
  | cons e es ih =>
    rw [List.cons_append, exec_cons, exec_cons, Option.bind_assoc]
    congr 1
    funext s'
    exact ih s'

/-- The run over `es ++ fs` passes through a state between `es` and `fs`. -/
lemma exec_append_eq_some {s t : σ} {es fs : List ε} :
    exec step s (es ++ fs) = some t ↔
      ∃ m, exec step s es = some m ∧ exec step m fs = some t := by
  rw [exec_append, Option.bind_eq_some_iff]

/-- The run over `es ++ [e]` is the run over `es` and one more step. -/
lemma exec_snoc_eq_some {s t : σ} {es : List ε} {e : ε} :
    exec step s (es ++ [e]) = some t ↔ ∃ m, exec step s es = some m ∧ step m e = some t := by
  rw [exec_append_eq_some]
  simp [exec_cons]

/-- A run, one more step, and a run from there on are one run. -/
lemma exec_through {s t t' u : σ} {es fs : List ε} {e : ε} (hes : exec step s es = some t)
    (he : step t e = some t') (hfs : exec step t' fs = some u) :
    exec step s (es ++ e :: fs) = some u := by
  rw [exec_append_eq_some]
  refine ⟨t, hes, ?_⟩
  rw [exec_cons, he]
  exact hfs

/-- **Induction on a run from its last step**: what holds of the empty run and is kept by one
more step holds of every run.

**Proof sketch.** Reverse induction on the list of events; `exec_snoc_eq_some` splits off the
last step. -/
theorem exec_induction {s₀ : σ} {P : List ε → σ → Prop} (nil : P [] s₀)
    (snoc : ∀ es e s s', exec step s₀ es = some s → P es s → step s e = some s' →
      P (es ++ [e]) s') :
    ∀ es s, exec step s₀ es = some s → P es s := by
  intro es
  induction es using List.reverseRecOn with
  | nil =>
    intro s h
    obtain rfl : s₀ = s := Option.some.inj h
    exact nil
  | append_singleton es e ih =>
    intro s' h
    obtain ⟨s, hs, hstep⟩ := exec_snoc_eq_some.mp h
    exact snoc es e s s' hs (ih s hs) hstep

/-- **The invariant rule**: what holds at the start and is kept by every step holds after
every run. -/
theorem exec_invariant {I : σ → Prop} (hstep : ∀ s e s', I s → step s e = some s' → I s')
    {s₀ s : σ} {es : List ε} (h₀ : I s₀) (h : exec step s₀ es = some s) : I s :=
  exec_induction (P := fun _ s => I s) h₀ (fun _ e s s' _ ih hs => hstep s e s' ih hs) es s h

/-- **The relative invariant rule**: what every step keeps in the states where the invariant `I`
of all steps holds is an invariant, too. -/
theorem exec_invariant_relative {I J : σ → Prop}
    (hI : ∀ s e s', I s → step s e = some s' → I s')
    (hJ : ∀ s e s', I s → J s → step s e = some s' → J s') {s₀ s : σ} {es : List ε} (h₀ : I s₀)
    (hJ₀ : J s₀) (h : exec step s₀ es = some s) : J s := by
  have hboth : I s ∧ J s := by
    refine exec_invariant (I := fun s => I s ∧ J s) ?_ ⟨h₀, hJ₀⟩ h
    rintro s e s' ⟨hi, hj⟩ hstep
    exact ⟨hI s e s' hi hstep, hJ s e s' hi hj hstep⟩
  exact hboth.2

/-- **The simulation rule**: if each step of one machine from related states is matched by a step
of the other to related states, then a whole run is matched, event by event.

**Proof sketch.** Induction on the events. -/
theorem exec_simulates {τ δ : Type*} {other : τ → δ → Option τ} {f : ε → δ} {R : σ → τ → Prop}
    (hstep : ∀ s e s' t, R s t → step s e = some s' → ∃ t', other t (f e) = some t' ∧ R s' t')
    {s s' : σ} {t : τ} {es : List ε} (hR : R s t) (h : exec step s es = some s') :
    ∃ t', exec other t (es.map f) = some t' ∧ R s' t' := by
  induction es generalizing s t with
  | nil =>
    obtain rfl : s = s' := Option.some.inj h
    exact ⟨t, rfl, hR⟩
  | cons e es ih =>
    rw [exec_cons, Option.bind_eq_some_iff] at h
    obtain ⟨m, hm, hrest⟩ := h
    obtain ⟨n, hn, hmn⟩ := hstep s e m t hR hm
    obtain ⟨t', ht', hst⟩ := ih hmn hrest
    refine ⟨t', ?_, hst⟩
    rw [List.map_cons, exec_cons, hn]
    exact ht'

/-! ## Properties along a run -/

/-- Every state visited by the run `es` from `s`, its ends included, satisfies `P`. -/
def Along (step : σ → ε → Option σ) (P : σ → Prop) (s : σ) (es : List ε) : Prop :=
  ∀ pre t, pre <+: es → exec step s pre = some t → P t

/-- Every step taken by the run `es` from `s` satisfies `C`, a condition on the state before the
step and its event. -/
def StepsSatisfy (step : σ → ε → Option σ) (C : σ → ε → Prop) (s : σ) (es : List ε) : Prop :=
  ∀ pre e t, pre ++ [e] <+: es → exec step s pre = some t → C t e

/-- The end of a run is one of the states it visits. -/
lemma Along.finish {P : σ → Prop} {s t : σ} {es : List ε} (h : Along step P s es)
    (ht : exec step s es = some t) : P t :=
  h es t (List.prefix_refl es) ht

/-- A prefix of a run takes only steps of the run. -/
lemma StepsSatisfy.of_prefix {C : σ → ε → Prop} {s : σ} {es fs : List ε}
    (h : StepsSatisfy step C s es) (hp : fs <+: es) : StepsSatisfy step C s fs :=
  fun pre e t hpre ht => h pre e t (hpre.trans hp) ht

/-- The last step of a run is one of the steps it takes. -/
lemma StepsSatisfy.last {C : σ → ε → Prop} {s t : σ} {es : List ε} {e : ε}
    (h : StepsSatisfy step C s (es ++ [e])) (ht : exec step s es = some t) : C t e :=
  h es e t (List.prefix_refl _) ht

/-- One more step is one more condition. -/
lemma stepsSatisfy_snoc {C : σ → ε → Prop} {s t : σ} {es : List ε} {e : ε}
    (ht : exec step s es = some t) :
    StepsSatisfy step C s (es ++ [e]) ↔ StepsSatisfy step C s es ∧ C t e := by
  constructor
  · intro h
    exact ⟨h.of_prefix (List.prefix_append es [e]), h.last ht⟩
  · rintro ⟨h, he⟩ pre e' t' hpre ht'
    rw [List.prefix_concat_iff] at hpre
    rcases hpre with hpre | hpre
    · obtain ⟨rfl, he'⟩ := List.append_inj' hpre rfl
      obtain rfl := List.singleton_inj.mp he'
      obtain rfl : t = t' := Option.some.inj (ht.symm.trans ht')
      exact he
    · exact h pre e' t' hpre ht'

/-- The empty run takes no step. -/
lemma stepsSatisfy_nil {C : σ → ε → Prop} (s : σ) : StepsSatisfy step C s [] := by
  intro pre e t hpre
  simp at hpre

/-- A run takes its first step, then the steps of the rest. -/
lemma stepsSatisfy_cons {C : σ → ε → Prop} {s : σ} {e : ε} {es : List ε} :
    StepsSatisfy step C s (e :: es) ↔
      C s e ∧ ∀ s', step s e = some s' → StepsSatisfy step C s' es := by
  constructor
  · intro h
    refine ⟨h [] e s (by simp) rfl, fun s' hs pre f t hpre ht => ?_⟩
    apply h (e :: pre) f t (by simpa using hpre)
    rw [exec_cons, hs]
    exact ht
  · rintro ⟨he, hes⟩ (_ | ⟨f, pre⟩) g t hpre ht
    · simp only [List.nil_append, List.cons_prefix_cons, List.nil_prefix, and_true] at hpre
      obtain rfl : s = t := Option.some.inj ht
      exact hpre ▸ he
    · rw [List.cons_append, List.cons_prefix_cons] at hpre
      obtain ⟨rfl, hpre⟩ := hpre
      rw [exec_cons, Option.bind_eq_some_iff] at ht
      obtain ⟨s', hs, ht⟩ := ht
      exact hes s' hs pre g t hpre ht

/-- A decidable condition on the steps of a run is decided by executing it. -/
instance {C : σ → ε → Prop} [∀ s e, Decidable (C s e)] :
    ∀ s es, Decidable (StepsSatisfy step C s es)
  | s, [] => isTrue (stepsSatisfy_nil s)
  | s, e :: es =>
    match hs : step s e with
    | none => decidable_of_iff (C s e) (by simp [stepsSatisfy_cons, hs])
    | some s' =>
      have : Decidable (StepsSatisfy step C s' es) := instDecidableStepsSatisfy s' es
      decidable_of_iff (C s e ∧ StepsSatisfy step C s' es) (by simp [stepsSatisfy_cons, hs])

/-- **The invariant rule for conditioned runs**: what holds at the start and is kept by every
step that meets `C` holds after every run whose steps all meet `C`.

**Proof sketch.** `exec_induction`: the run without its last step still meets the condition
(`StepsSatisfy.of_prefix`), and so does the last step (`StepsSatisfy.last`). -/
theorem exec_invariant_of_steps {I : σ → Prop} {C : σ → ε → Prop}
    (hstep : ∀ s e s', I s → C s e → step s e = some s' → I s') {s₀ s : σ} {es : List ε}
    (h₀ : I s₀) (hC : StepsSatisfy step C s₀ es) (h : exec step s₀ es = some s) : I s := by
  refine exec_induction (P := fun es s => StepsSatisfy step C s₀ es → I s) (fun _ => h₀) ?_
    es s h hC
  intro es e s s' hs ih hse hC
  exact hstep s e s' (ih (hC.of_prefix (List.prefix_append es [e]))) (hC.last hs) hse

/-- A prefix of a run that executes executes itself. -/
lemma exec_of_prefix {s t : σ} {pre es : List ε} (hp : pre <+: es)
    (h : exec step s es = some t) : ∃ m, exec step s pre = some m := by
  obtain ⟨post, rfl⟩ := hp
  obtain ⟨m, hm, -⟩ := exec_append_eq_some.mp h
  exact ⟨m, hm⟩

/-- **Conditions are necessary**: if a step that keeps `P` must have met `C`, then a run along
which `P` holds takes only steps that meet `C`. The invariant `I` of all steps is at hand.

**Proof sketch.** Each step of the run leads to a state of the run (`exec_of_prefix`), so `P`
holds on both of its sides. -/
theorem steps_of_along {I P : σ → Prop} {C : σ → ε → Prop}
    (hI : ∀ s e s', I s → step s e = some s' → I s')
    (hback : ∀ s e s', I s → P s → P s' → step s e = some s' → C s e) {s₀ s : σ} {es : List ε}
    (h₀ : I s₀) (h : exec step s₀ es = some s) (hP : Along step P s₀ es) :
    StepsSatisfy step C s₀ es := by
  intro pre e t hpre ht
  obtain ⟨t', ht'⟩ := exec_of_prefix hpre h
  obtain ⟨m, hm, hstep⟩ := exec_snoc_eq_some.mp ht'
  obtain rfl : m = t := Option.some.inj (hm.symm.trans ht)
  exact hback m e t' (exec_invariant hI h₀ hm)
    (hP pre m ((List.prefix_append pre [e]).trans hpre) hm) (hP _ t' hpre ht') hstep

/-! ## Observations -/

/-- What an observer writes down along a run who sees each step's state before, event and state
after. -/
def observe (step : σ → ε → Option σ) (obs : σ → ε → σ → List ο) : σ → List ε → List ο
  | _, [] => []
  | s, e :: es =>
    match step s e with
    | none => []
    | some s' => obs s e s' ++ observe step obs s' es

variable {obs : σ → ε → σ → List ο}

@[simp] lemma observe_nil (s : σ) : observe step obs s [] = [] := rfl

lemma observe_cons {s s' : σ} {e : ε} (h : step s e = some s') (es : List ε) :
    observe step obs s (e :: es) = obs s e s' ++ observe step obs s' es := by
  simp [observe, h]

/-- The observations of a run in two parts. -/
lemma observe_append {s m : σ} {es : List ε} (h : exec step s es = some m) (fs : List ε) :
    observe step obs s (es ++ fs) = observe step obs s es ++ observe step obs m fs := by
  induction es generalizing s with
  | nil =>
    obtain rfl : s = m := Option.some.inj h
    rfl
  | cons e es ih =>
    rw [exec_cons, Option.bind_eq_some_iff] at h
    obtain ⟨s', hs, hrest⟩ := h
    rw [List.cons_append, observe_cons hs, observe_cons hs, ih hrest, List.append_assoc]

/-- **The last step adds its own observations.** -/
theorem observe_snoc {s t t' : σ} {es : List ε} {e : ε} (h : exec step s es = some t)
    (ht : step t e = some t') :
    observe step obs s (es ++ [e]) = observe step obs s es ++ obs t e t' := by
  rw [observe_append h, observe_cons ht, observe_nil, List.append_nil]

end Machine
