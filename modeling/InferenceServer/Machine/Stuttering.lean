import InferenceServer.Machine.Exec

set_option relaxedAutoImplicit false
set_option autoImplicit false

/-!
# Steps that leave no trace

A machine with a clock, and a kind of events whose steps lead to states that cannot be told from the
state before. Such events may be taken out of a run, and put into a run, wherever the clock allows
it: what is left of the run is the same.

## Main definitions

* `Machine.InOrder` — the clock readings of a run do not go back.
* `Machine.Invisible` — the kind of events, and the relation between states that it cannot be told
  apart by.

## Main results

* `Machine.Invisible.inOrder` — a run is in order.
* `Machine.Invisible.exec_rel`, `Machine.Invisible.exec_iff` — a run with such events against the
  run without them.
-/

namespace Machine

variable {σ ε T : Type*} [LE T] {step : σ → ε → Option σ} {now : σ → T} {time : ε → T}
  {hidden : ε → Bool} {R : σ → σ → Prop}

/-- The clock readings of the events do not go back, and none is before `t`. -/
def InOrder (time : ε → T) : T → List ε → Prop
  | _, [] => True
  | t, e :: es => t ≤ time e ∧ InOrder time (time e) es

/-- The order of clock readings is decided by comparing them. -/
instance decidableInOrder [DecidableLE T] : ∀ (t : T) (es : List ε), Decidable (InOrder time t es)
  | _, [] => isTrue trivial
  | t, e :: es =>
    have : Decidable (InOrder time (time e) es) := decidableInOrder (time e) es
    inferInstanceAs (Decidable (t ≤ time e ∧ InOrder time (time e) es))

/-- The events of the kind `hidden` cannot be seen by who tells states apart by `R` only. A step
waits for the clock and sets it; a hidden event is possible at any time and leaves a state that
is related to whatever the state before is related to; and any other event is possible in both of
two related states or in none, and leads to related states. -/
structure Invisible (step : σ → ε → Option σ) (now : σ → T) (time : ε → T) (hidden : ε → Bool)
    (R : σ → σ → Prop) : Prop where
  clock : ∀ {s e s'}, step s e = some s' → now s ≤ time e ∧ now s' = time e
  hide : ∀ {s t e}, R s t → hidden e = true → now s ≤ time e →
    ∃ s', step s e = some s' ∧ R s' t
  keep : ∀ {s t e}, R s t → hidden e = false → now s ≤ time e →
    Option.Rel R (step s e) (step t e)

/-- The events of a run that can be seen. -/
def visible (hidden : ε → Bool) (es : List ε) : List ε := es.filter fun e => !hidden e

@[simp] lemma visible_nil : visible hidden [] = [] := rfl

/-- A hidden event is left out. -/
lemma visible_cons_hidden {e : ε} (he : hidden e = true) (es : List ε) :
    visible hidden (e :: es) = visible hidden es := by
  simp [visible, he]

/-- An event that is not hidden stays. -/
lemma visible_cons_shown {e : ε} (he : hidden e = false) (es : List ε) :
    visible hidden (e :: es) = e :: visible hidden es := by
  simp [visible, he]

/-- **A run is in order.**

**Proof sketch.** Induction on the events: a step waits for the clock and sets it. -/
theorem Invisible.inOrder (h : Invisible step now time hidden R) {s s' : σ} {es : List ε}
    (hrun : exec step s es = some s') : InOrder time (now s) es := by
  induction es generalizing s with
  | nil => trivial
  | cons e es ih =>
    rw [exec_cons, Option.bind_eq_some_iff] at hrun
    obtain ⟨m, hm, hrest⟩ := hrun
    obtain ⟨hle, hnow⟩ := h.clock hm
    refine ⟨hle, ?_⟩
    rw [← hnow]
    exact ih hrest

/-- **What cannot be seen changes no run.** From related states, events in order are possible with
the hidden ones if and only if they are possible without them, and they lead to related states.

**Proof sketch.** Induction on the events. A hidden one keeps the relation (`hide`); at any other
the two runs are possible or impossible together (`keep`), and its clock reading is where the rest
begins. -/
theorem Invisible.exec_rel (h : Invisible step now time hidden R) {s t : σ} {es : List ε}
    (hR : R s t) (horder : InOrder time (now s) es) :
    Option.Rel R (exec step s es) (exec step t (visible hidden es)) := by
  induction es generalizing s t with
  | nil => exact .some hR
  | cons e es ih =>
    obtain ⟨hle, hrest⟩ := horder
    cases he : hidden e with
    | true =>
      obtain ⟨s', hs, hR'⟩ := h.hide hR he hle
      rw [← (h.clock hs).2] at hrest
      rw [visible_cons_hidden he, exec_cons, hs]
      exact ih hR' hrest
    | false =>
      rw [visible_cons_shown he, exec_cons, exec_cons]
      have hstep := h.keep hR he hle
      cases hs : step s e with
      | none =>
        rw [hs] at hstep
        cases ht : step t e with
        | none => exact .none
        | some t' =>
          rw [ht] at hstep
          cases hstep
      | some s' =>
        rw [hs] at hstep
        cases ht : step t e with
        | none =>
          rw [ht] at hstep
          cases hstep
        | some t' =>
          rw [ht] at hstep
          cases hstep with
          | some hR' =>
            rw [← (h.clock hs).2] at hrest
            exact ih hR' hrest

/-- **Hidden events may be left out and put in.** From related states, events are a run exactly if
they are in order and the events without the hidden ones are a run; and the two runs lead to related
states. -/
theorem Invisible.exec_iff (h : Invisible step now time hidden R) {s t : σ} (hR : R s t)
    (es : List ε) :
    ((∃ s', exec step s es = some s') ↔
      InOrder time (now s) es ∧ ∃ t', exec step t (visible hidden es) = some t') ∧
    ∀ s' t', exec step s es = some s' → exec step t (visible hidden es) = some t' → R s' t' := by
  refine ⟨⟨?_, ?_⟩, ?_⟩
  · rintro ⟨s', hs⟩
    have hrel := h.exec_rel hR (h.inOrder hs)
    rw [hs] at hrel
    refine ⟨h.inOrder hs, ?_⟩
    cases ht : exec step t (visible hidden es) with
    | none =>
      rw [ht] at hrel
      cases hrel
    | some t' => exact ⟨t', rfl⟩
  · rintro ⟨horder, t', ht⟩
    have hrel := h.exec_rel hR horder
    rw [ht] at hrel
    cases hs : exec step s es with
    | none =>
      rw [hs] at hrel
      cases hrel
    | some s' => exact ⟨s', rfl⟩
  · intro s' t' hs ht
    have hrel := h.exec_rel hR (h.inOrder hs)
    rw [hs, ht] at hrel
    cases hrel with
    | some hR' => exact hR'

end Machine
