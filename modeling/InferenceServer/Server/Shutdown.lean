import InferenceServer.Server.Liveness

set_option relaxedAutoImplicit false
set_option autoImplicit false

/-!
# What a shutdown leaves

`shutdown()` awaits `batcher.stop()`, which waits for the batches that have been dispatched. The
requests in them are answered. A request that waits for any other future is stranded: whatever comes
after, it gets no response. Both kinds together are all that is left when the server has drained.

## Main definitions

* `Server.Stranded` — a request that waits for a future that was not dispatched.
* `ServerAction.isShutdown`, `Server.shutdownWork` — the steps that the server takes by itself,
  the return of `stop()` included, and how many of them can follow each other.
* `Server.Drained` — `stop()` has returned, and who is left is stranded.
* `Server.ShutDown` — the invariant since `shutdown()`.

## Main results

* `Server.ShutDown.stranded_step` — a stranded request is not answered.
* `Server.shutdown_exhausting` — the steps come to an end, and they end where the server has
  drained.
* `Server.shutdown_partition` — the theorem about runs.
-/

namespace InferenceServer

open InferenceBatcher

/-- The step that `stop()` has before it. -/
def Stopping.work : Stopping → ℕ
  | .gathering _ => 1
  | _ => 0

/-- The server goes on with what has arrived, or `stop()` returns. -/
def ServerAction.isShutdown : ServerAction → Bool
  | .batcher .stopReturn => true
  | a => a.isProgress

/-- The server goes on during a shutdown as before. -/
lemma ServerAction.isShutdown_of_isProgress {a : ServerAction} (h : a.isProgress = true) :
    a.isShutdown = true := by
  cases a with
  | batcher c => cases c <;> first | rfl | cases h
  | _ => exact h

namespace InferenceBatcher

variable {args : BatcherArgs} {ρ : Type} {s s' : InferenceBatcher args ρ} {a : Action ρ}

/-- A task in `_inflight` has been created. -/
lemma Effect.inflight_lt (h : Effect s a s') (hs : ∀ k ∈ s.inflight, k < s.tasks.length) :
    ∀ k ∈ s'.inflight, k < s'.tasks.length := by
  intro k hk
  cases h with
  | dispatch batch hw =>
    rw [List.length_append, List.length_singleton]
    rcases List.mem_append.mp hk with hk | hk
    · exact Nat.lt_succ_of_lt (hs k hk)
    · rw [List.mem_singleton.mp hk]
      exact Nat.lt_succ_self _
  | callPredictFn j batch hj => simpa using hs k hk
  | finish j b batch hj hb => simpa using hs k hk
  | batchDone j batch b hj => simpa using hs k (List.mem_of_mem_erase hk)
  | _ => exact hs k hk

/-- It is so after every run. -/
lemma inflight_lt_exec {t₀ : ℚ} {es : List (ℚ × Action ρ)}
    (hrun : Machine.exec step (new args ρ t₀) es = some s) :
    ∀ k ∈ s.inflight, k < s.tasks.length := by
  refine Machine.exec_invariant (I := fun s : InferenceBatcher args ρ =>
    ∀ k ∈ s.inflight, k < s.tasks.length) ?_ (by simp [new]) hrun
  intro s e s' hs hstep
  exact (step_effect hstep).2.inflight_lt hs

end InferenceBatcher

namespace Server

variable {args : BatcherArgs} {lib : Library} {s s' : Server args} {a : ServerAction}
  {b : InferenceBatcher args Json} {e : ℚ × ServerAction} {i : ℕ} {req : Request}

/-! ## Who is stranded -/

/-- The request waits for a future that is in no batch that had been dispatched when the batcher was
`b`. -/
def Stranded (b : InferenceBatcher args Json) (req : Request) : Prop :=
  ∃ f, req.phase = .awaiting f ∧ ∀ batch ∈ b.batches, ∀ it ∈ batch, it.future ≠ f

/-- The server has been through a run, and since `shutdown()` was called when its batcher was `b` no
batch has been dispatched. -/
structure ShutDown (lib : Library) (b : InferenceBatcher args Json) (s : Server args) : Prop where
  run : ∃ t₀ es, Machine.exec (step lib) (new args t₀) es = some s
  inflight : ∀ k ∈ b.inflight, k < b.tasks.length
  stopped : Stopped b s.batcher

/-- The call of `shutdown()`. -/
lemma shutDown_stop {t₀ t : ℚ} {es : List (ℚ × ServerAction)}
    (hrun : Machine.exec (step lib) (new args t₀) es = some s)
    (hstop : step lib s (t, .batcher .stop) = some s') : ShutDown lib s.batcher s' := by
  obtain ⟨-, bs, hbs⟩ := batcher_run hrun
  refine ⟨⟨t₀, _, Machine.exec_snoc_eq_some.mpr ⟨s, hrun, hstop⟩⟩, inflight_lt_exec hbs, ?_⟩
  obtain ⟨-, heff⟩ := step_effect hstop
  cases heff with
  | batcher a b ha hb => exact stopped_stop hb

/-- Every step keeps it so. -/
lemma ShutDown.keep (h : ShutDown lib b s) (hstep : step lib s e = some s') :
    ShutDown lib b s' := by
  obtain ⟨t₀, es, hrun⟩ := h.run
  refine ⟨⟨t₀, _, Machine.exec_snoc_eq_some.mpr ⟨s, hrun, hstep⟩⟩, h.inflight, ?_⟩
  obtain ⟨hle, heff⟩ := step_effect hstep
  obtain ⟨hnow, -⟩ := batcher_run hrun
  rcases heff.batcher_step (hnow.trans hle) with hsame | ⟨a, ha⟩
  · rw [hsame]
    exact h.stopped
  · have hs := h.stopped
    exact (InferenceBatcher.step_effect ha).2.stopped
      ⟨hs.batches, hs.worker, hs.inflight, hs.stopping⟩

/-- A future that was not dispatched has no answer.

**Proof sketch.** An answer comes from a task (`Accounted`), and no task has been created since. -/
lemma ShutDown.not_answered (h : ShutDown lib b s) {f : ℕ} {v : Future Json}
    (hf : ∀ batch ∈ b.batches, ∀ it ∈ batch, it.future ≠ f)
    (hv : s.batcher.futures[f]? = some v) : v.answered ≠ true := by
  intro ha
  obtain ⟨t₀, es, hrun⟩ := h.run
  obtain ⟨-, bs, hbs⟩ := batcher_run hrun
  obtain ⟨task, htask, -, it, hit, he⟩ := (accounted_exec hbs).source f v hv ha
  refine hf task.batch ?_ it hit he
  rw [← h.stopped.batches]
  exact List.mem_map_of_mem htask

/-- A request that waits, or has been aborted, stays as it is, or is aborted, or its future has its
answer. -/
lemma Effect.waiting_cases (h : Effect lib s a s') (hi : s.requests[i]? = some req)
    (hp : (∃ f, req.phase = .awaiting f) ∨ req.phase = .aborted) :
    s'.requests[i]? = some req ∨ s'.requests[i]? = some { req with phase := .aborted } ∨
      ∃ f v, req.phase = .awaiting f ∧ s.batcher.futures[f]? = some v ∧ v.answered = true := by
  -- request `j` goes on to `phase`: another request, or this one
  have hmove : ∀ (j : ℕ) (phase : RequestPhase), j ≠ i →
      (s.setPhase j phase).requests[i]? = some req := fun j phase hji =>
    (setPhase_getElem?_ne phase hji).trans hi
  have hother : ∀ (j : ℕ) (old : Request), s.requests[j]? = some old →
      (∀ f, old.phase ≠ .awaiting f) → old.phase ≠ .aborted → j ≠ i := by
    rintro j old hj hw hn rfl
    obtain rfl : old = req := Option.some.inj (hj.symm.trans hi)
    rcases hp with ⟨f, hf⟩ | hab
    · exact hw f hf
    · exact hn hab
  cases h with
  | arrive text =>
    exact .inl ((List.getElem?_append_left (List.getElem?_eq_some_iff.mp hi).1).trans hi)
  | lookup j text start reply hj => exact .inl (hmove j _ (hother j _ hj (by simp) (by simp)))
  | hit j text start cached hj hc => exact .inl (hmove j _ (hother j _ hj (by simp) (by simp)))
  | reject j text start cached b e hj hc hp' =>
    exact .inl (hmove j _ (hother j _ hj (by simp) (by simp)))
  | accept j text start cached b f hj hc hp' =>
    exact .inl (hmove j _ (hother j _ hj (by simp) (by simp)))
  | result j text start f row hj hf =>
    by_cases hji : j = i
    · subst hji
      obtain rfl := Option.some.inj (hj.symm.trans hi)
      exact .inr (.inr ⟨f, _, rfl, hf, rfl⟩)
    · exact .inl (hmove j _ hji)
  | failed j text start f e hj hf =>
    by_cases hji : j = i
    · subst hji
      obtain rfl := Option.some.inj (hj.symm.trans hi)
      exact .inr (.inr ⟨f, _, rfl, hf, rfl⟩)
    · exact .inl (hmove j _ hji)
  | abortWaiting j text start f hj =>
    by_cases hji : j = i
    · subst hji
      obtain rfl := Option.some.inj (hj.symm.trans hi)
      exact .inr (.inl (setPhase_getElem? .aborted hi))
    · exact .inl (hmove j _ hji)
  | abort j old hj hp' =>
    refine .inl (hmove j _ (hother j old hj ?_ ?_))
    · rcases hp' with he | ⟨cached, he⟩ <;> simp [he]
    · rcases hp' with he | ⟨cached, he⟩ <;> simp [he]
  | detach j text start hj => exact .inl (hmove j _ (hother j _ hj (by simp) (by simp)))
  | _ => exact .inl hi

/-- **A stranded request is not answered**, by whatever comes: it waits on, or is aborted. -/
lemma ShutDown.stranded_step (h : ShutDown lib b s) (hstep : step lib s e = some s')
    (hi : s.requests[i]? = some req) (hs : Stranded b req ∨ req.phase = .aborted) :
    ∃ req', s'.requests[i]? = some req' ∧ req'.text = req.text ∧
      (Stranded b req' ∨ req'.phase = .aborted) := by
  obtain ⟨-, heff⟩ := step_effect hstep
  have hp : (∃ f, req.phase = .awaiting f) ∨ req.phase = .aborted :=
    hs.imp_left fun ⟨f, hf, _⟩ => ⟨f, hf⟩
  rcases heff.waiting_cases hi hp with hsame | hab | ⟨f, v, hf, hv, ha⟩
  · exact ⟨req, hsame, rfl, hs⟩
  · exact ⟨_, hab, rfl, .inr rfl⟩
  · rcases hs with ⟨g, hg, hno⟩ | hn
    · obtain rfl := RequestPhase.awaiting.inj (hf.symm.trans hg)
      exact absurd ha (h.not_answered hno hv)
    · cases hf.symm.trans hn

/-- It gets no response in any run from there. -/
lemma ShutDown.stranded_exec (h : ShutDown lib b s) {es : List (ℚ × ServerAction)}
    (hrun : Machine.exec (step lib) s es = some s') (hi : s.requests[i]? = some req)
    (hs : Stranded b req) :
    ∃ req', s'.requests[i]? = some req' ∧ req'.text = req.text ∧ req'.response = none := by
  have hkeep : ∀ x e x', (ShutDown lib b x ∧ ∃ q, x.requests[i]? = some q ∧ q.text = req.text ∧
      (Stranded b q ∨ q.phase = .aborted)) → step lib x e = some x' →
      ShutDown lib b x' ∧ ∃ q, x'.requests[i]? = some q ∧ q.text = req.text ∧
        (Stranded b q ∨ q.phase = .aborted) := by
    rintro x e x' ⟨hx, q, hq, htext, hwait⟩ hstep
    obtain ⟨q', hq', htext', hwait'⟩ := hx.stranded_step hstep hq hwait
    exact ⟨hx.keep hstep, q', hq', htext'.trans htext, hwait'⟩
  obtain ⟨-, req', hi', htext, hs'⟩ :=
    Machine.exec_invariant hkeep ⟨h, req, hi, rfl, .inl hs⟩ hrun
  refine ⟨req', hi', htext, ?_⟩
  unfold Request.response
  rcases hs' with ⟨f, hf, -⟩ | hab
  · rw [hf]
  · rw [hab]

/-! ## The server drains -/

/-- The steps that the server has before it, the return of `stop()` included. -/
def shutdownWork (s : Server args) : ℕ := s.work + s.batcher.stopping.work

/-- `stop()` has returned, all batches have ended, nothing goes on detached, and every request is
over, or stranded. -/
structure Drained (b : InferenceBatcher args Json) (s : Server args) : Prop where
  returned : s.batcher.stopping = .returned
  tasks : ∀ t ∈ s.batcher.tasks, t.phase.ended = true
  writes : s.writes = []
  strays : s.strays = []
  requests : ∀ req ∈ s.requests, Over req ∨ Stranded b req

/-- The steps that carry requests on leave the state of `stop()` as it is. -/
lemma Effect.stopping_eq (h : Effect lib s a s') (ha : a.isProgress = true) :
    s'.batcher.stopping = s.batcher.stopping := by
  cases h with
  | reject i text start cached b e hi hc hp => exact (predict_serving hp).2
  | accept i text start cached b f hi hc hp => exact (predict_serving hp).2
  | batcher a b hi hb => exact (InferenceBatcher.step_effect hb).2.stopping_eq ha
  | _ => rfl

/-- The steps of a shutdown leave less to do. -/
lemma Effect.shutdownWork_lt (h : Effect lib s a s') (ha : a.isShutdown = true) :
    s'.shutdownWork < s.shutdownWork := by
  unfold shutdownWork
  by_cases hp : a.isProgress = true
  · rw [h.stopping_eq hp]
    exact Nat.add_lt_add_right (h.work_lt hp) _
  · obtain rfl : a = .batcher .stopReturn := by
      cases a with
      | batcher c => cases c <;> first | rfl | exact absurd ha hp
      | _ => exact absurd ha hp
    cases h with
    | batcher c b hi hb =>
      obtain ⟨-, heff⟩ := InferenceBatcher.step_effect hb
      cases heff with
      | stopReturn ks hs hk =>
        show s.work + 0 < s.work + s.batcher.stopping.work
        rw [show s.batcher.stopping = _ from hs]
        exact Nat.lt_succ_self _

/-- When all tasks have ended, a request that is neither over nor stranded goes on: its future is
that of a task, and has its answer. -/
lemma ShutDown.request_step (h : ShutDown lib b s)
    (hended : ∀ t ∈ s.batcher.tasks, t.phase.ended = true) (hreq : req ∈ s.requests)
    (hover : ¬ Over req) (hno : ¬ Stranded b req) :
    ∃ (e : ℚ × ServerAction) (s' : Server args),
      e.2.isProgress = true ∧ step lib s e = some s' := by
  obtain ⟨t₀, es, hrun⟩ := h.run
  obtain ⟨-, bs, hbs⟩ := batcher_run hrun
  obtain ⟨i, hi⟩ := List.mem_iff_getElem?.mp hreq
  obtain ⟨a, ha, hact⟩ := exists_act lib hreq hover fun f hf => by
    refine ((waits_exec hrun).future (flowInv_exec hbs) hi hf).resolve_left fun hpending => ?_
    refine hno ⟨f, hf, fun batch hbatch it hit he => ?_⟩
    rw [← h.stopped.batches] at hbatch
    obtain ⟨task, htask, rfl⟩ := List.mem_map.mp hbatch
    obtain ⟨v, hv, hd⟩ := (accounted_exec hbs).settled task htask (hended task htask) it hit
    rw [he, hpending] at hv
    obtain rfl := Option.some.inj hv
    cases hd
  exact exists_step ha hact

/-- A task that has not ended lets the server go on. -/
lemma ShutDown.exists_step_of_task (h : ShutDown lib b s) {t : BatchTask Json}
    (ht : t ∈ s.batcher.tasks) (hopen : t.phase.ended ≠ true) :
    ∃ (e : ℚ × ServerAction) (s' : Server args),
      e.2.isProgress = true ∧ step lib s e = some s' := by
  obtain ⟨t₀, es, hrun⟩ := h.run
  obtain ⟨hnow, -⟩ := batcher_run hrun
  obtain ⟨k, hk⟩ := List.mem_iff_getElem?.mp ht
  have hpermit : t.phase.holdsPermit = true := by
    cases hp : t.phase with
    | created => rfl
    | running => rfl
    | finished r => exact absurd (by rw [hp]; rfl) hopen
    | reaped r => exact absurd (by rw [hp]; rfl) hopen
  have hjson : Nonempty Json := ⟨.null⟩
  obtain ⟨u, a, b', hu, ha, hb⟩ :=
    canGoOn_of_task (s := { s.batcher with now := s.now }) hk hpermit
  exact ⟨(u, .batcher a), _, ha.1, step_batcher lib hnow hu (Action.isInternal_of_isProgress ha.1)
    (InferenceBatcher.step_eq_some.mp hb).2⟩

/-- When all tasks have ended, `stop()` returns. -/
lemma ShutDown.exists_stopReturn (h : ShutDown lib b s)
    (hended : ∀ t ∈ s.batcher.tasks, t.phase.ended = true) (hret : s.batcher.stopping ≠ .returned) :
    ∃ (e : ℚ × ServerAction) (s' : Server args),
      e.2.isShutdown = true ∧ step lib s e = some s' := by
  obtain ⟨t₀, es, hrun⟩ := h.run
  obtain ⟨hnow, -⟩ := batcher_run hrun
  have hstopping : s.batcher.stopping = .gathering b.inflight := by
    rcases h.stopped.stopping with he | ⟨he, -⟩
    · exact he
    · exact absurd he hret
  have hlength : s.batcher.tasks.length = b.tasks.length := by
    simpa [batches] using congrArg List.length h.stopped.batches
  have hdone : ∀ k ∈ b.inflight, s.batcher.taskDone k = true := by
    intro k hk
    have hlt : k < s.batcher.tasks.length := hlength ▸ h.inflight k hk
    exact (taskDone_iff (List.getElem?_eq_getElem hlt)).mpr (hended _ (List.getElem_mem hlt))
  have heff : InferenceBatcher.Effect { s.batcher with now := s.now } .stopReturn
      { s.batcher with now := s.now, stopping := .returned } :=
    .stopReturn b.inflight hstopping hdone
  exact ⟨(s.now, .batcher .stopReturn), _, rfl,
    step_batcher lib hnow le_rfl rfl (InferenceBatcher.act_of_effect heff)⟩

/-- **The steps of a shutdown come to an end, and they end where the server has drained.**

**Proof sketch.** A task that has not ended goes on; when all have, `stop()` returns, and so do the
requests that wait for them. -/
theorem shutdown_exhausting :
    Machine.Exhausting (step lib) (fun (_ : Server args) e => e.2.isShutdown = true)
      (ShutDown lib b) (Drained b) shutdownWork where
  keep s e s' hs _ hstep := hs.keep hstep
  lower s e s' _ he hstep := (step_effect hstep).2.shutdownWork_lt he
  progress s hs hn := by
    have hgo : (∃ (e : ℚ × ServerAction) (s' : Server args),
        e.2.isProgress = true ∧ step lib s e = some s') →
        ∃ e s', e.2.isShutdown = true ∧ step lib s e = some s' :=
      fun ⟨e, s', he, hstep⟩ => ⟨e, s', ServerAction.isShutdown_of_isProgress he, hstep⟩
    by_cases htasks : ∀ t ∈ s.batcher.tasks, t.phase.ended = true
    · by_cases hret : s.batcher.stopping = .returned
      · by_cases hreqs : ∀ req ∈ s.requests, Over req ∨ Stranded b req
        · obtain ⟨a, ha, hact⟩ :=
            exists_act_of_detached lib fun hd => hn ⟨hret, htasks, hd.1, hd.2, hreqs⟩
          exact hgo (exists_step ha hact)
        · simp only [not_forall, not_or] at hreqs
          obtain ⟨req, hreq, hover, hno⟩ := hreqs
          exact hgo (hs.request_step htasks hreq hover hno)
      · exact hs.exists_stopReturn htasks hret
    · simp only [not_forall] at htasks
      obtain ⟨t, ht, hopen⟩ := htasks
      exact hgo (hs.exists_step_of_task ht hopen)

/-- **What a shutdown leaves.** `shutdown()` is called after a run. From there on: a request that
waits, now or later, for a future that had not been dispatched gets no response in any run; and
the steps that the server takes by itself are no more than `shutdownWork`, and wherever they
cannot go on, `stop()` has returned, all batches have ended, the writes to the cache and the
detached lookups are done, and every other request is over; and there is a run that leads there.

**Proof sketch.** Nothing is dispatched since (`ShutDown`), and an answer comes from a task that has
been (`ShutDown.stranded_exec`). The rest is `shutdown_exhausting`. -/
theorem shutdown_partition (lib : Library) (args : BatcherArgs) (t₀ t : ℚ)
    (es : List (ℚ × ServerAction)) (s s₁ : Server args)
    (hrun : Machine.exec (step lib) (new args t₀) es = some s)
    (hstop : step lib s (t, .batcher .stop) = some s₁) :
    (∀ post s₂ (i : ℕ) req, Machine.exec (step lib) s₁ post = some s₂ →
      s₂.requests[i]? = some req → Stranded s.batcher req →
      ∀ post' s₃, Machine.exec (step lib) s₂ post' = some s₃ →
        ∃ req', s₃.requests[i]? = some req' ∧ req'.text = req.text ∧ req'.response = none) ∧
    (∀ fs s₂, (∀ e ∈ fs, e.2.isShutdown = true) → Machine.exec (step lib) s₁ fs = some s₂ →
      fs.length ≤ s₁.shutdownWork ∧
        ((∀ e, e.2.isShutdown = true → step lib s₂ e = none) → Drained s.batcher s₂)) ∧
    ∃ fs s₂, (∀ e ∈ fs, e.2.isShutdown = true) ∧ Machine.exec (step lib) s₁ fs = some s₂ ∧
      Drained s.batcher s₂ := by
  have hdown : ShutDown lib s.batcher s₁ := shutDown_stop hrun hstop
  have hall : Machine.Exhausting (step lib) (fun (_ : Server args) e => e.2.isShutdown = true)
      (ShutDown lib s.batcher) (Drained s.batcher) shutdownWork := shutdown_exhausting
  refine ⟨?_, ?_, ?_⟩
  · intro post s₂ i req hpost hi hstranded post' s₃ hpost'
    have hdown₂ : ShutDown lib s.batcher s₂ :=
      Machine.exec_invariant (fun _ _ _ h hs => h.keep hs) hdown hpost
    exact hdown₂.stranded_exec hpost' hi hstranded
  · intro fs s₂ hfs hexec
    have hK : Machine.StepsSatisfy (step lib) (fun _ e => e.2.isShutdown = true) s₁ fs :=
      Machine.stepsSatisfy_of_forall hfs
    have hlen := hall.length_add_work_le hdown hK hexec
    exact ⟨by omega, fun hstuck => hall.done_of_stuck hdown hK hexec hstuck⟩
  · obtain ⟨fs, s₂, hK, hexec, hdone⟩ := hall.exists_run hdown
    exact ⟨fs, s₂, Machine.forall_of_stepsSatisfy hK hexec, hexec, hdone⟩

/-- Two requests when `shutdown()` is called: the batch of the first is with `predict_fn`, the
second is in the queue. -/
def queuedRun : List (ℚ × ServerAction) :=
  [(0, .batcher .start), (0, .arrive "a"), (0, .arrive "b"), (0, .lookup 0 (.ok none)),
    (0, .lookup 1 (.ok none)), (0, .resume 0), (0, .batcher .collectFirst), (0, .batcher .loopTest),
    (0, .batcher .acquire), (0, .batcher .dispatch), (0, .batcher (.callPredictFn 0)),
    (0, .resume 1)]

/-- The first one is answered, the second one is not. -/
theorem shutdown_partition_queued :
    ∃ s ∈ Machine.exec (step noLibrary) (new ⟨1, 0, 1, ⟨1, 1⟩⟩ 0) queuedRun,
      ∃ s₁ ∈ step noLibrary s (1, .batcher .stop),
        (∃ fs s₂, Machine.exec (step noLibrary) s₁ fs = some s₂ ∧ Drained s.batcher s₂) ∧
        ∀ post s₂, Machine.exec (step noLibrary) s₁ post = some s₂ →
          ∃ req, s₂.requests[1]? = some req ∧ req.response = none := by
  obtain ⟨s, hs, s₁, hstop, hbatches, hsecond⟩ :
      ∃ s ∈ Machine.exec (step noLibrary) (new ⟨1, 0, 1, ⟨1, 1⟩⟩ 0) queuedRun,
        ∃ s₁ ∈ step noLibrary s (1, .batcher .stop), s.batcher.batches = [[⟨"a", 0⟩]] ∧
          s₁.requests[1]? = some ⟨"b", 0, .awaiting 1⟩ :=
    ⟨_, rfl, _, rfl, rfl, rfl⟩
  obtain ⟨hno, -, fs, s₂, -, hexec, hdrained⟩ :=
    shutdown_partition noLibrary _ 0 1 queuedRun s s₁ hs hstop
  refine ⟨s, hs, s₁, hstop, ⟨fs, s₂, hexec, hdrained⟩, fun post s₃ hpost => ?_⟩
  have hstranded : Stranded s.batcher ⟨"b", 0, .awaiting 1⟩ :=
    ⟨1, rfl, by simp [hbatches]⟩
  obtain ⟨req, hreq, -, hnone⟩ := hno [] s₁ 1 _ rfl hsecond hstranded post s₃ hpost
  exact ⟨req, hreq, hnone⟩

end Server

end InferenceServer
