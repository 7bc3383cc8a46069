import InferenceServer.Machine.Exec

set_option relaxedAutoImplicit false
set_option autoImplicit false

/-!
# Threads over a shared state

Any number of threads run one routine: a thread stands at a program point, and its next atomic step
depends on the shared state and on a choice of the environment. Every interleaving is a run.

## Main definitions

* `Threads` — the shared state, and the point of each thread that has been started.
* `Threads.step` — the machine: a thread is started, or one makes its next step.
* `Annotation` — an invariant of the shared state and an assertion at each point, free of
  interference.

## Main results

* `Annotation.exec` — an annotation holds after every run.
-/

/-- The shared state and the points of the threads, in the order of their start. -/
structure Threads (σ π : Type*) where
  shared : σ
  points : List π
  deriving DecidableEq, Repr

/-- A thread is started, or thread `t` makes its next step with this choice. -/
inductive ThreadEvent (δ : Type*)
  | call
  | move (t : ℕ) (choice : δ)
  deriving DecidableEq, Repr

namespace Threads

variable {σ π δ : Type*}

/-- The machine of the threads that begin at `start` and make the steps `next`. -/
def step (start : π) (next : ℕ → σ → π → δ → Option (σ × π)) (s : Threads σ π) :
    ThreadEvent δ → Option (Threads σ π)
  | .call => some { s with points := s.points ++ [start] }
  | .move t choice =>
    match s.points[t]? with
    | some p => (next t s.shared p choice).map fun r => ⟨r.1, s.points.set t r.2⟩
    | none => none

/-- No thread has been started. -/
def init (shared : σ) : Threads σ π := ⟨shared, []⟩

variable {start : π} {next : ℕ → σ → π → δ → Option (σ × π)} {s s' : Threads σ π}

/-- A step of a thread moves this thread. -/
lemma step_move {t : ℕ} {choice : δ} :
    step start next s (.move t choice) = some s' ↔
      ∃ p shared q, s.points[t]? = some p ∧ next t s.shared p choice = some (shared, q) ∧
        s' = ⟨shared, s.points.set t q⟩ := by
  simp only [step]
  split
  · rename_i p hp
    rw [Option.map_eq_some_iff]
    constructor
    · rintro ⟨⟨shared, q⟩, hq, rfl⟩
      exact ⟨p, shared, q, hp, hq, rfl⟩
    · rintro ⟨p', shared, q, hp', hq, rfl⟩
      obtain rfl := Option.some.inj (hp.symm.trans hp')
      exact ⟨(shared, q), hq, rfl⟩
  · rename_i hp
    simp [hp]

end Threads

/-- An invariant of the shared state and an assertion at each point of each thread: the first step
of a thread keeps them, its other steps do, and no step of another thread interferes. -/
structure Annotation {σ π δ : Type*} (start : π) (next : ℕ → σ → π → δ → Option (σ × π))
    (I : σ → Prop) (A : ℕ → σ → π → Prop) : Prop where
  start : ∀ t s, I s → A t s start
  invariant : ∀ t s p choice s' p', I s → A t s p → next t s p choice = some (s', p') → I s'
  sequential : ∀ t s p choice s' p', I s → A t s p → next t s p choice = some (s', p') → A t s' p'
  free : ∀ t u s p q choice s' p', t ≠ u → I s → A t s p → A u s q →
    next t s p choice = some (s', p') → A u s' q

namespace Annotation

variable {σ π δ : Type*} {start : π} {next : ℕ → σ → π → δ → Option (σ × π)} {I : σ → Prop}
  {A : ℕ → σ → π → Prop}

/-- The annotation holds in a state. -/
def Holds (I : σ → Prop) (A : ℕ → σ → π → Prop) (s : Threads σ π) : Prop :=
  I s.shared ∧ ∀ (t : ℕ) (p : π), s.points[t]? = some p → A t s.shared p

/-- **A step keeps an annotation.**

**Proof sketch.** A thread that is started meets the assertion at its start. A thread that moves
keeps the invariant and meets the assertion at its next point, and the other threads still meet
theirs because the annotation is free of interference. -/
theorem step (h : Annotation start next I A) {s s' : Threads σ π} {e : ThreadEvent δ}
    (hs : Holds I A s) (hstep : Threads.step start next s e = some s') : Holds I A s' := by
  obtain ⟨hI, hA⟩ := hs
  cases e with
  | call =>
    obtain rfl := Option.some.inj hstep
    refine ⟨hI, fun t p hp => ?_⟩
    rw [List.getElem?_append] at hp
    split_ifs at hp with ht
    · exact hA t p hp
    · obtain rfl := List.mem_singleton.mp (List.mem_of_getElem? hp)
      exact h.start t _ hI
  | move t choice =>
    obtain ⟨p, shared, q, hp, hnext, rfl⟩ := Threads.step_move.mp hstep
    have hAt := hA t p hp
    refine ⟨h.invariant t _ p choice shared q hI hAt hnext, fun u r hr => ?_⟩
    rw [List.getElem?_set] at hr
    split_ifs at hr with htu hlt
    · subst htu
      obtain rfl := Option.some.inj hr
      exact h.sequential t _ p choice shared q hI hAt hnext
    · exact h.free t u _ p r choice shared q htu hI hAt (hA u r hr) hnext

/-- **An annotation holds after every run.** -/
theorem exec (h : Annotation start next I A) {shared : σ} (h₀ : I shared) {s : Threads σ π}
    {es : List (ThreadEvent δ)}
    (hrun : Machine.exec (Threads.step start next) (Threads.init shared) es = some s) :
    Holds I A s :=
  Machine.exec_invariant (fun _ _ _ hs hstep => h.step hs hstep) ⟨h₀, by simp [Threads.init]⟩ hrun

end Annotation
