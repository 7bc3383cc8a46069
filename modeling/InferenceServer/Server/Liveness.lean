import InferenceServer.Batcher.Drain
import InferenceServer.Server.Integrity
import InferenceServer.Server.Status

set_option relaxedAutoImplicit false
set_option autoImplicit false

/-!
# Every request gets a response

A request goes through the cache lookup on a worker thread, the queue, the collector, a batch and a
future, and each of these hands it on to another task. No hand-over is lost: whatever has arrived is
answered by the steps of the server alone, in whatever order they are taken, and then the server is
idle again.

## Main definitions

* `ServerAction.isProgress` — the steps that the server takes by itself.
* `Server.work` — how many of these steps can follow each other.
* `Server.Waits` — the invariant: no request waits for a future that another one has, or that is
  cancelled.
* `Server.Served` — no request is left, nothing goes on detached, and the batcher is idle.

## Main results

* `Server.exhausting` — the steps come to an end, and they end where everything is served.
* `Server.every_request_answered` — the theorem about runs.
-/

namespace InferenceServer

/-- The steps that a request has before it, those of the batcher for it included. -/
def RequestPhase.work : RequestPhase → ℕ
  | .lookup => 12
  | .looked _ => 11
  | .awaiting _ => 2
  | .answered _ => 0
  | .aborted => 0

/-- The server goes on with what has arrived: a lookup ends, a request goes on, a write to the cache
runs, or the batcher makes a step of `Action.isProgress`. -/
def ServerAction.isProgress : ServerAction → Bool
  | .lookup _ _ => true
  | .stray _ _ => true
  | .resume _ => true
  | .complete _ => true
  | .write _ _ => true
  | .batcher a => a.isProgress
  | _ => false

/-- A step that carries requests on is one of the batcher itself. -/
lemma Action.isInternal_of_isProgress {ρ : Type} {a : Action ρ} (h : a.isProgress = true) :
    a.isInternal = true := by
  cases a <;> first | rfl | cases h

open InferenceBatcher

namespace InferenceBatcher

variable {args : BatcherArgs} {ρ : Type} {s s' : InferenceBatcher args ρ} {a : Action ρ}

/-- Only the cancellation of a caller cancels a future. -/
lemma Effect.cancelled_cases (h : Effect s a s') {f : ℕ}
    (hf : s'.futures[f]? = some .cancelled) : s.futures[f]? = some .cancelled ∨ a = .cancel f := by
  cases h with
  | accept text cb hc =>
    rw [List.getElem?_append] at hf
    split_ifs at hf with hlt
    · exact .inl hf
    · rw [List.getElem?_singleton] at hf
      split_ifs at hf
      cases hf
  | cancel g =>
    rcases settle_cases s.futures g .cancelled f with ⟨rfl, -, -⟩ | ⟨-, he⟩
    · exact .inr rfl
    · exact .inl (he.symm.trans hf)
  | finish k b batch hk hb =>
    have hvalues : ∀ (fs : List (Future ρ)) (vs : List (ℕ × Future ρ)),
        (∀ w ∈ vs, w.2 ≠ .cancelled) → (settleAll fs vs)[f]? = some .cancelled →
          fs[f]? = some .cancelled := by
      intro fs vs hvs hset
      rcases settleAll_cases fs vs f with he | ⟨-, v, hv, he⟩
      · exact he.symm.trans hset
      · exact absurd (Option.some.inj (he.symm.trans hset)) (hvs _ hv)
    have hdeliver := hvalues _ _ (by simp) hf
    unfold deliver at hdeliver
    refine .inl ?_
    split at hdeliver
    · refine hvalues _ _ (fun w hw => ?_) hdeliver
      obtain ⟨r, -, hr⟩ := List.mem_map.mp (List.of_mem_zip hw).2
      simp [← hr]
    · exact hvalues _ _ (by simp) hdeliver
    · exact hdeliver
  | _ => exact .inl hf

/-- A request that is admitted gives the batcher eight steps to do, one that is rejected none. -/
lemma predict_work {text : String} {b : InferenceBatcher args ρ} {r : Except PyException ℕ}
    (h : s.predict text = (b, r)) :
    b.work = s.work + match r with
      | .ok _ => 8
      | .error _ => 0 := by
  unfold predict at h
  split at h <;>
  · obtain ⟨rfl, rfl⟩ := Prod.mk.inj h
    simp only [work, List.length_append, List.length_singleton]
    omega

end InferenceBatcher

namespace Server

variable {args : BatcherArgs} {lib : Library} {s s' : Server args} {a : ServerAction}

/-! ## Who waits for what -/

/-- A request that waits has its own future, which was created for its text and is not cancelled;
no other request waits for it. -/
structure Waits (s : Server args) : Prop where
  mem : ∀ (i : ℕ) req f, s.requests[i]? = some req → req.phase = .awaiting f →
    ⟨req.text, f⟩ ∈ items s.batcher.calls
  live : ∀ (i : ℕ) req f, s.requests[i]? = some req → req.phase = .awaiting f →
    s.batcher.futures[f]? ≠ some .cancelled
  alone : ∀ (i j : ℕ) req req' f, s.requests[i]? = some req → s.requests[j]? = some req' →
    req.phase = .awaiting f → req'.phase = .awaiting f → i = j

/-- A request after request `i` has gone on to `phase`. -/
lemma setPhase_cases {i j : ℕ} {phase : RequestPhase} {old req : Request}
    (hi : s.requests[i]? = some old) (hj : (s.setPhase i phase).requests[j]? = some req) :
    i = j ∧ req = { old with phase := phase } ∨ i ≠ j ∧ s.requests[j]? = some req := by
  by_cases hij : i = j
  · subst hij
    rw [setPhase_getElem? phase hi] at hj
    exact .inl ⟨rfl, (Option.some.inj hj).symm⟩
  · rw [setPhase_getElem?_ne phase hij] at hj
    exact .inr ⟨hij, hj⟩

/-- A request that goes on to something else than waiting leaves the others waiting. -/
lemma Waits.setPhase (h : Waits s) {i : ℕ} (phase : RequestPhase) {old : Request}
    (hi : s.requests[i]? = some old) (hp : ∀ f, phase ≠ .awaiting f)
    {b : InferenceBatcher args Json} (hitems : ∀ it ∈ items s.batcher.calls, it ∈ items b.calls)
    (hlive : ∀ (j : ℕ) req f, i ≠ j → s.requests[j]? = some req → req.phase = .awaiting f →
      b.futures[f]? ≠ some .cancelled) :
    Waits { s.setPhase i phase with batcher := b } where
  mem j req f hj hf := by
    rcases setPhase_cases hi hj with ⟨-, rfl⟩ | ⟨-, hj⟩
    · exact absurd hf (hp f)
    · exact hitems _ (h.mem j req f hj hf)
  live j req f hj hf := by
    rcases setPhase_cases hi hj with ⟨-, rfl⟩ | ⟨hij, hj⟩
    · exact absurd hf (hp f)
    · exact hlive j req f hij hj hf
  alone j k req req' f hj hk hf hf' := by
    rcases setPhase_cases hi hj with ⟨-, rfl⟩ | ⟨-, hj⟩
    · exact absurd hf (hp f)
    · rcases setPhase_cases hi hk with ⟨-, rfl⟩ | ⟨-, hk⟩
      · exact absurd hf' (hp f)
      · exact h.alone j k req req' f hj hk hf hf'

/-- The batcher moves, and cancels no future. -/
lemma Waits.batcher (h : Waits s) {b : InferenceBatcher args Json}
    (hitems : items b.calls = items s.batcher.calls)
    (hlive : ∀ f : ℕ, b.futures[f]? = some .cancelled → s.batcher.futures[f]? = some .cancelled) :
    Waits { s with batcher := b } where
  mem i req f hi hf := hitems ▸ h.mem i req f hi hf
  live i req f hi hf := mt (hlive f) (h.live i req f hi hf)
  alone := h.alone

/-- What an admission does to the futures, and the future that it hands out. -/
lemma predict_futures {b b' : InferenceBatcher args Json} {text : String} {f : ℕ}
    (h : b.predict text = (b', .ok f)) :
    f = b.futures.length ∧ b'.futures = b.futures ++ [.pending] := by
  unfold InferenceBatcher.predict at h
  split at h
  · cases h
  · obtain ⟨rfl, hf⟩ := Prod.mk.inj h
    exact ⟨(Except.ok.inj hf).symm, rfl⟩

/-- A rejection leaves the futures alone. -/
lemma predict_error_futures {b b' : InferenceBatcher args Json} {text : String} {e : PyException}
    (h : b.predict text = (b', .error e)) : b'.futures = b.futures := by
  unfold InferenceBatcher.predict at h
  split at h
  · obtain ⟨rfl, -⟩ := Prod.mk.inj h
    rfl
  · cases h

/-- **Every action keeps it so.**

**Proof sketch.** One case for each rule. An admission hands out a future that nobody has, as those
of the waiting requests are on the heap; and an abortion cancels the future of a request that waits
no longer, which is nobody else's. -/
theorem Effect.waits (h : Effect lib s a s') (hb : FlowInv s.batcher) (hw : Waits s) :
    Waits s' := by
  have hlt : ∀ (i : ℕ) req f, s.requests[i]? = some req → req.phase = .awaiting f →
      f < s.batcher.futures.length := by
    intro i req f hi hf
    have hmem : (⟨req.text, f⟩ : Item) ∈ s.batcher.flow := hb.flow_eq ▸ hw.mem i req f hi hf
    exact hb.future_lt hmem
  cases h with
  | arrive text =>
    refine ⟨fun i req f hi hf => ?_, fun i req f hi hf => ?_, fun i j req req' f hi hj hf hf' => ?_⟩
    all_goals
      have hold : ∀ (k : ℕ) r g, (s.requests ++ [⟨text, s.now, .lookup⟩])[k]? = some r →
          r.phase = .awaiting g → s.requests[k]? = some r := by
        intro k r g hk hg
        rw [List.getElem?_append] at hk
        split_ifs at hk with hkl
        · exact hk
        · obtain rfl := List.mem_singleton.mp (List.mem_of_getElem? hk)
          cases hg
    · exact hw.mem i req f (hold i req f hi hf) hf
    · exact hw.live i req f (hold i req f hi hf) hf
    · exact hw.alone i j req req' f (hold i req f hi hf) (hold j req' f hj hf') hf hf'
  | lookup i text start reply hi =>
    have hnew := hw.setPhase (.looked (Cache.get lib s.metrics reply).2) hi (by simp)
      (b := s.batcher) (fun _ h => h) (fun j req f _ => hw.live j req f)
    exact ⟨hnew.mem, hnew.live, hnew.alone⟩
  | hit i text start cached hi hc =>
    exact hw.setPhase _ hi (by simp) (fun _ h => h) (fun j req f _ => hw.live j req f)
  | reject i text start cached b e hi hc hp =>
    refine hw.setPhase _ hi (by simp) (fun it hit => ?_) (fun j req f _ hj hf => ?_)
    · rw [predict_error hp]
      exact hit
    · rw [predict_error_futures hp]
      exact hw.live j req f hj hf
  | accept i text start cached b f hi hc hp =>
    obtain ⟨hnew, hfut⟩ := predict_futures hp
    have hitems : items b.calls = items s.batcher.calls ++ [⟨text, f⟩] := by
      rw [predict_ok hp]
    obtain rfl : f = s.batcher.futures.length := hnew
    have hother : ∀ (j : ℕ) req g, s.requests[j]? = some req → req.phase = .awaiting g →
        g ≠ s.batcher.futures.length := fun j req g hj hg => (hlt j req g hj hg).ne
    refine ⟨fun j req g hj hg => ?_, fun j req g hj hg => ?_, fun j k req req' g hj hk hg hg' => ?_⟩
    · rw [hitems]
      rcases setPhase_cases hi hj with ⟨-, rfl⟩ | ⟨-, hj⟩
      · obtain rfl := RequestPhase.awaiting.inj hg
        exact List.mem_append_right _ (List.mem_singleton.mpr rfl)
      · exact List.mem_append_left _ (hw.mem j req g hj hg)
    · rw [hfut]
      rcases setPhase_cases hi hj with ⟨-, rfl⟩ | ⟨-, hj⟩
      · obtain rfl := RequestPhase.awaiting.inj hg
        simp
      · rw [List.getElem?_append_left (hlt j req g hj hg)]
        exact hw.live j req g hj hg
    · rcases setPhase_cases hi hj with ⟨rfl, rfl⟩ | ⟨-, hj⟩
      · rcases setPhase_cases hi hk with ⟨rfl, rfl⟩ | ⟨-, hk⟩
        · rfl
        · exact absurd (RequestPhase.awaiting.inj hg).symm (hother k req' g hk hg')
      · rcases setPhase_cases hi hk with ⟨rfl, rfl⟩ | ⟨-, hk⟩
        · exact absurd (RequestPhase.awaiting.inj hg').symm (hother j req g hj hg)
        · exact hw.alone j k req req' g hj hk hg hg'
  | result i text start f row hi hf =>
    have hnew := hw.setPhase (.answered (respond lib start s.now row)) hi (by simp)
      (b := s.batcher) (fun _ h => h) (fun j req f _ => hw.live j req f)
    exact ⟨hnew.mem, hnew.live, hnew.alone⟩
  | failed i text start f e hi hf =>
    exact hw.setPhase _ hi (by simp) (fun _ h => h) (fun j req f _ => hw.live j req f)
  | abortWaiting i text start f hi =>
    refine hw.setPhase _ hi (by simp) (fun _ h => h) (fun j req g hij hj hg hc => ?_)
    rcases settle_cases s.batcher.futures f .cancelled g with ⟨rfl, -, -⟩ | ⟨-, he⟩
    · exact hij (hw.alone i j _ req g hi hj rfl hg)
    · exact hw.live j req g hj hg (he.symm.trans hc)
  | abort i req hi hp =>
    exact hw.setPhase _ hi (by simp) (fun _ h => h) (fun j req f _ => hw.live j req f)
  | detach i text start hi =>
    have hnew := hw.setPhase .aborted hi (by simp) (b := s.batcher) (fun _ h => h)
      (fun j req f _ => hw.live j req f)
    exact ⟨hnew.mem, hnew.live, hnew.alone⟩
  | batcher a b ha hb' =>
    refine hw.batcher (internal_items ha hb') fun f hf => ?_
    obtain ⟨-, heff⟩ := InferenceBatcher.step_effect hb'
    rcases heff.cancelled_cases hf with h | rfl
    · exact h
    · cases ha
  | _ => exact ⟨hw.mem, hw.live, hw.alone⟩

/-- It is so after every run. -/
lemma waits_exec {t₀ : ℚ} {es : List (ℚ × ServerAction)}
    (hrun : Machine.exec (step lib) (new args t₀) es = some s) : Waits s := by
  refine Machine.exec_induction (P := fun _ (s : Server args) => Waits s) ?_ ?_ es s hrun
  · exact ⟨by simp [new], by simp [new], by simp [new]⟩
  · intro es e s s' hs ih hstep
    obtain ⟨-, bs, hbs⟩ := batcher_run hs
    obtain ⟨-, heff⟩ := step_effect hstep
    exact heff.waits (flowInv_exec hbs) ⟨ih.mem, ih.live, ih.alone⟩

/-- The future that a request waits for is pending, or has its answer. -/
lemma Waits.future (h : Waits s) (hb : FlowInv s.batcher) {i : ℕ} {req : Request} {f : ℕ}
    (hi : s.requests[i]? = some req) (hp : req.phase = .awaiting f) :
    s.batcher.futures[f]? = some .pending ∨
      ∃ v, s.batcher.futures[f]? = some v ∧ v.answered = true := by
  have hmem : (⟨req.text, f⟩ : Item) ∈ s.batcher.flow := hb.flow_eq ▸ h.mem i req f hi hp
  have hlive := h.live i req f hi hp
  obtain ⟨v, hv⟩ : ∃ v, s.batcher.futures[f]? = some v :=
    ⟨_, List.getElem?_eq_getElem (hb.future_lt hmem)⟩
  cases v with
  | pending => exact .inl hv
  | cancelled => exact absurd hv hlive
  | result row => exact .inr ⟨_, hv, rfl⟩
  | exception e => exact .inr ⟨_, hv, rfl⟩

/-! ## The steps run out -/

/-- The steps that the server has before it, at most. -/
def work (s : Server args) : ℕ :=
  (s.requests.map fun req => req.phase.work).sum + s.writes.length + s.strays.length +
    s.batcher.work

/-- A request that goes on changes the sum by its own part. -/
lemma sum_work_modify {requests : List Request} {i : ℕ} {old : Request} (phase : RequestPhase)
    (hi : requests[i]? = some old) :
    ((requests.modify i fun req => { req with phase := phase }).map fun req => req.phase.work).sum +
        old.phase.work =
      (requests.map fun req => req.phase.work).sum + phase.work := by
  induction requests generalizing i with
  | nil => simp at hi
  | cons req requests ih =>
    cases i with
    | zero =>
      obtain rfl : req = old := by simpa using hi
      simp only [List.modify_zero_cons, List.map_cons, List.sum_cons]
      omega
    | succ i =>
      have htail := ih (by simpa using hi)
      simp only [List.modify_succ_cons, List.map_cons, List.sum_cons]
      omega

/-- Every step of the server leaves less to do.

**Proof sketch.** One case for each rule: a request that goes on hands over less than it had before
it (`sum_work_modify`), also when the batcher gets it (`predict_work`). -/
lemma Effect.work_lt (h : Effect lib s a s') (ha : a.isProgress = true) : s'.work < s.work := by
  unfold work
  cases h with
  | lookup i text start reply hi =>
    have hsum := sum_work_modify (.looked (Cache.get lib s.metrics reply).2) hi
    simp only [setPhase, RequestPhase.work] at hsum ⊢
    omega
  | hit i text start cached hi hc =>
    have hsum := sum_work_modify (.answered (respond lib start s.now cached)) hi
    simp only [setPhase, RequestPhase.work] at hsum ⊢
    omega
  | reject i text start cached b e hi hc hp =>
    have hsum := sum_work_modify (.answered (failure e)) hi
    have hbatcher : b.work = s.batcher.work := predict_work hp
    simp only [setPhase, RequestPhase.work] at hsum ⊢
    omega
  | accept i text start cached b f hi hc hp =>
    have hsum := sum_work_modify (.awaiting f) hi
    have hbatcher : b.work = s.batcher.work + 8 := predict_work hp
    simp only [setPhase, RequestPhase.work] at hsum ⊢
    omega
  | result i text start f row hi hf =>
    have hsum := sum_work_modify (.answered (respond lib start s.now row)) hi
    simp only [setPhase, RequestPhase.work, List.length_append, List.length_singleton] at hsum ⊢
    omega
  | failed i text start f e hi hf =>
    have hsum := sum_work_modify (.answered (failure e)) hi
    simp only [setPhase, RequestPhase.work] at hsum ⊢
    omega
  | stray j reply hj =>
    simp only [List.length_eraseIdx, hj, if_true]
    omega
  | write j w cmd hj hc =>
    have hlt := (List.getElem?_eq_some_iff.mp hj).1
    simp only [List.length_eraseIdx, hlt, if_true]
    omega
  | drop j w effective hj hd =>
    have hlt := (List.getElem?_eq_some_iff.mp hj).1
    simp only [List.length_eraseIdx, hlt, if_true]
    omega
  | batcher a b hi hb =>
    have hlt : b.work < s.batcher.work := (InferenceBatcher.step_effect hb).2.work_lt ha
    dsimp only
    omega
  | _ => cases ha

/-- The request is over: it has its response, or its client has gone. -/
def Over (req : Request) : Prop := (∃ response, req.response = some response) ∨ req.phase = .aborted

/-- No request is left, no write to the cache and no detached lookup, and the batcher is idle. -/
structure Served (s : Server args) : Prop where
  requests : ∀ req ∈ s.requests, Over req
  writes : s.writes = []
  strays : s.strays = []
  batcher : Idle s.batcher

/-- The server has been through a run, its batcher has been started, and has not been stopped. -/
structure Serving (lib : Library) (s : Server args) : Prop where
  run : ∃ t₀ es, Machine.exec (step lib) (new args t₀) es = some s
  started : s.batcher.worker ≠ .notStarted
  notStopped : s.batcher.stopping = .notCalled

/-- A call of `predict` neither starts the batcher nor stops it. -/
lemma predict_serving {b b' : InferenceBatcher args Json} {text : String}
    {r : Except PyException ℕ} (h : b.predict text = (b', r)) :
    b'.worker = b.worker ∧ b'.stopping = b.stopping := by
  unfold InferenceBatcher.predict at h
  split at h <;>
  · obtain ⟨rfl, -⟩ := Prod.mk.inj h
    exact ⟨rfl, rfl⟩

/-- A step that goes on with what has arrived does not stop the server. -/
lemma Serving.step {e : ℚ × ServerAction} (h : Serving lib s) (he : e.2.isProgress = true)
    (hstep : step lib s e = some s') : Serving lib s' := by
  obtain ⟨t₀, es, hrun⟩ := h.run
  have hrun' := Machine.exec_snoc_eq_some.mpr ⟨s, hrun, hstep⟩
  obtain ⟨-, heff⟩ := step_effect hstep
  have hsame : ∀ b : InferenceBatcher args Json, b.worker = s.batcher.worker →
      b.stopping = s.batcher.stopping → b.worker ≠ .notStarted ∧ b.stopping = .notCalled :=
    fun b hw hs => ⟨hw ▸ h.started, hs.trans h.notStopped⟩
  suffices hs : s'.batcher.worker ≠ .notStarted ∧ s'.batcher.stopping = .notCalled from
    ⟨⟨t₀, _, hrun'⟩, hs.1, hs.2⟩
  generalize e.2 = a at heff he
  cases heff with
  | reject i text start cached b exc hi hc hp =>
    obtain ⟨hw, hs⟩ := predict_serving hp
    exact hsame b hw hs
  | accept i text start cached b f hi hc hp =>
    obtain ⟨hw, hs⟩ := predict_serving hp
    exact hsame b hw hs
  | batcher a b hi hb =>
    obtain ⟨-, heff⟩ := InferenceBatcher.step_effect hb
    exact ⟨heff.started h.started, (heff.stopping_eq he).trans h.notStopped⟩
  | arrive text => cases he
  | abortWaiting i text start f hi => cases he
  | abort i req hi hp => cases he
  | detach i text start hi => cases he
  | _ => exact hsame _ rfl rfl

/-- An action that is possible now is a step. -/
lemma exists_step (ha : a.isProgress = true) (h : (act lib s a).isSome = true) :
    ∃ (e : ℚ × ServerAction) (s' : Server args),
      e.2.isProgress = true ∧ step lib s e = some s' := by
  obtain ⟨s', hs'⟩ := Option.isSome_iff_exists.mp h
  refine ⟨(s.now, a), s', ha, ?_⟩
  rw [step, if_pos le_rfl]
  exact hs'

/-- What the batcher can do at time `t` is a step of the server. -/
lemma step_batcher (lib : Library) {t : ℚ} {a : Action Json} {b : InferenceBatcher args Json}
    (hnow : s.batcher.now ≤ s.now) (ht : s.now ≤ t) (ha : a.isInternal = true)
    (hb : InferenceBatcher.act { s.batcher with now := t } a = some b) :
    step lib s (t, .batcher a) = some { s with now := t, batcher := b } := by
  have hstep : s.batcher.step (t, a) = some b :=
    InferenceBatcher.step_eq_some.mpr ⟨hnow.trans ht, hb⟩
  rw [step, if_pos ht]
  simp only [act, ha, if_true, hstep, Option.map_some]

/-- A batcher that is not idle lets the server go on. -/
lemma exists_step_of_batcher (h : Serving lib s) (hmax : 1 ≤ args.maxConcurrentBatches)
    (hn : ¬ Idle s.batcher) :
    ∃ (e : ℚ × ServerAction) (s' : Server args),
      e.2.isProgress = true ∧ step lib s e = some s' := by
  obtain ⟨t₀, es, hrun⟩ := h.run
  obtain ⟨hnow, bs, hbs⟩ := batcher_run hrun
  have hpermits : PermitInv s.batcher := permits_exec hbs
  have halive : ∀ batch, s.batcher.worker ≠ .cancelled batch := workerAlive_exec hbs h.notStopped
  have hjson : Nonempty Json := ⟨.null⟩
  obtain ⟨t, a, b, ht, ha, hb⟩ := canGoOn_of_not_idle (s := { s.batcher with now := s.now })
    hpermits hmax halive h.started fun hi => hn ⟨hi.queue, hi.worker, hi.permits⟩
  exact ⟨(t, .batcher a), _, ha.1, step_batcher lib hnow ht (Action.isInternal_of_isProgress ha.1)
    (InferenceBatcher.step_eq_some.mp hb).2⟩

/-- A request that is not over can go on, unless it waits for a future without an answer.

**Proof sketch.** By its phase: a lookup may find nothing, and a request that has looked goes on. -/
lemma exists_act (lib : Library) {req : Request} (hreq : req ∈ s.requests) (hn : ¬ Over req)
    (hf : ∀ f, req.phase = .awaiting f →
      ∃ v, s.batcher.futures[f]? = some v ∧ v.answered = true) :
    ∃ a : ServerAction, a.isProgress = true ∧ (act lib s a).isSome = true := by
  obtain ⟨i, hi⟩ := List.mem_iff_getElem?.mp hreq
  obtain ⟨text, start, phase⟩ := req
  cases phase with
  | lookup => exact ⟨.lookup i (.ok none), rfl, by simp [act, Server.lookup, hi]⟩
  | looked cached =>
    refine ⟨.resume i, rfl, ?_⟩
    simp only [act, resume, hi]
    split_ifs
    · rfl
    · split <;> rfl
  | awaiting f =>
    obtain ⟨v, hv, ha⟩ := hf f rfl
    refine ⟨.complete i, rfl, ?_⟩
    cases v with
    | result row => simp [act, complete, hi, hv]
    | exception e => simp [act, complete, hi, hv]
    | pending => cases ha
    | cancelled => cases ha
  | answered response => exact absurd (.inl ⟨response, rfl⟩) hn
  | aborted => exact absurd (.inr rfl) hn

/-- A request that is not over lets the server go on, once the batcher is idle: then it has been
answered, as its future is not cancelled. -/
lemma exists_step_of_request (h : Serving lib s) (hidle : Idle s.batcher) {req : Request}
    (hreq : req ∈ s.requests) (hn : ¬ Over req) :
    ∃ (e : ℚ × ServerAction) (s' : Server args),
      e.2.isProgress = true ∧ step lib s e = some s' := by
  obtain ⟨t₀, es, hrun⟩ := h.run
  obtain ⟨-, bs, hbs⟩ := batcher_run hrun
  obtain ⟨i, hi⟩ := List.mem_iff_getElem?.mp hreq
  obtain ⟨a, ha, hact⟩ := exists_act lib hreq hn fun f hf => by
    have hw := waits_exec hrun
    obtain ⟨v, hv, hd⟩ := hidle.done (flowInv_exec hbs) (accounted_exec hbs) (permits_exec hbs)
      (hw.mem i req f hi hf)
    refine (hw.future (flowInv_exec hbs) hi hf).resolve_left fun hpending => ?_
    obtain rfl : v = .pending := Option.some.inj (hv.symm.trans hpending)
    cases hd
  exact exists_step ha hact

/-- What goes on detached can go on. -/
lemma exists_act_of_detached (lib : Library) (h : ¬ (s.writes = [] ∧ s.strays = [])) :
    ∃ a : ServerAction, a.isProgress = true ∧ (act lib s a).isSome = true := by
  by_cases hwrites : s.writes = []
  · have hstrays : 0 < s.strays.length := List.length_pos_iff.mpr fun hs => h ⟨hwrites, hs⟩
    exact ⟨.stray 0 (.ok none), rfl, by simp [act, Server.stray, hstrays]⟩
  · obtain ⟨w, ws, hw⟩ := List.exists_cons_of_ne_nil hwrites
    exact ⟨.write 0 false, rfl, by simp [act, Server.write, hw]⟩

/-- **The steps of the server come to an end, and they end where everything is served.** -/
theorem exhausting (hmax : 1 ≤ args.maxConcurrentBatches) :
    Machine.Exhausting (step lib) (fun (_ : Server args) e => e.2.isProgress = true) (Serving lib)
      Served work where
  keep s e s' hs he hstep := hs.step he hstep
  lower s e s' _ he hstep := (step_effect hstep).2.work_lt he
  progress s hs hn := by
    by_cases hidle : Idle s.batcher
    · by_cases hover : ∀ req ∈ s.requests, Over req
      · obtain ⟨a, ha, hact⟩ :=
          exists_act_of_detached lib fun hd => hn ⟨hover, hd.1, hd.2, hidle⟩
        exact exists_step ha hact
      · simp only [not_forall] at hover
        obtain ⟨req, hreq, hno⟩ := hover
        exact exists_step_of_request hs hidle hreq hno
    · exact exists_step_of_batcher hs hmax hidle

/-! ## Who is answered -/

/-- A request goes on, or stays as it is; no step of the server alone aborts it. -/
lemma Effect.request_cases (h : Effect lib s a s') {i : ℕ} {req : Request}
    (hi : s.requests[i]? = some req) :
    ∃ phase, s'.requests[i]? = some { req with phase := phase } ∧
      (phase = .aborted → req.phase = .aborted ∨ a.isProgress = false) := by
  have hkeep : ∀ rs : List Request, rs[i]? = some req → ∃ phase,
      rs[i]? = some { req with phase := phase } ∧
        (phase = .aborted → req.phase = .aborted ∨ a.isProgress = false) :=
    fun rs hrs => ⟨req.phase, hrs, .inl⟩
  -- request `j` goes on to `phase`
  have hmove : ∀ (j : ℕ) (old : Request) (new : RequestPhase), s.requests[j]? = some old →
      (new = .aborted → a.isProgress = false) → ∃ phase,
        (s.setPhase j new).requests[i]? = some { req with phase := phase } ∧
          (phase = .aborted → req.phase = .aborted ∨ a.isProgress = false) := by
    intro j old new hj hnew
    by_cases hji : j = i
    · subst hji
      exact ⟨new, setPhase_getElem? new hi, fun hn => .inr (hnew hn)⟩
    · exact hkeep _ ((setPhase_getElem?_ne new hji).trans hi)
  cases h with
  | arrive text =>
    exact hkeep _ ((List.getElem?_append_left (List.getElem?_eq_some_iff.mp hi).1).trans hi)
  | lookup j text start reply hj => exact hmove j _ _ hj (by simp)
  | hit j text start cached hj hc => exact hmove j _ _ hj (by simp)
  | reject j text start cached b e hj hc hp => exact hmove j _ _ hj (by simp)
  | accept j text start cached b f hj hc hp => exact hmove j _ _ hj (by simp)
  | result j text start f row hj hf => exact hmove j _ _ hj (by simp)
  | failed j text start f e hj hf => exact hmove j _ _ hj (by simp)
  | abortWaiting j text start f hj => exact hmove j _ _ hj fun _ => rfl
  | abort j old hj hp => exact hmove j _ _ hj fun _ => rfl
  | detach j text start hj => exact hmove j _ _ hj fun _ => rfl
  | _ => exact hkeep _ hi

/-- The steps of the server alone abort no request. -/
lemma not_aborted_exec {es : List (ℚ × ServerAction)} {i : ℕ} {req : Request}
    (hes : Machine.StepsSatisfy (step lib) (fun _ e => e.2.isProgress = true) s es)
    (hrun : Machine.exec (step lib) s es = some s') (hi : s.requests[i]? = some req)
    (hn : req.phase ≠ .aborted) :
    ∃ phase, s'.requests[i]? = some { req with phase := phase } ∧ phase ≠ .aborted := by
  refine Machine.exec_invariant_of_steps
    (I := fun s : Server args => ∃ phase, s.requests[i]? = some { req with phase := phase } ∧
      phase ≠ .aborted) ?_ ⟨req.phase, hi, hn⟩ hes hrun
  rintro s e s' ⟨phase, hphase, hne⟩ he hstep
  obtain ⟨-, heff⟩ := step_effect hstep
  obtain ⟨phase', hphase', hab⟩ := heff.request_cases hphase
  refine ⟨phase', hphase', fun ha => ?_⟩
  rcases hab ha with ha | ha
  · exact hne ha
  · rw [ha] at he
    cases he

/-- Everything that was there in `s` and was not aborted there has been answered in `s'`, nothing
goes on detached, and the batcher is idle. -/
def AnsweredIn (s s' : Server args) : Prop :=
  Idle s'.batcher ∧ s'.writes = [] ∧ s'.strays = [] ∧
    ∀ (i : ℕ) req, s.requests[i]? = some req → req.phase ≠ .aborted →
      ∃ req' response, s'.requests[i]? = some req' ∧ req'.text = req.text ∧
        req'.response = some response

/-- When everything is served, everything has been answered. -/
lemma Served.answeredIn (h : Served s') {es : List (ℚ × ServerAction)}
    (hes : Machine.StepsSatisfy (step lib) (fun _ e => e.2.isProgress = true) s es)
    (hrun : Machine.exec (step lib) s es = some s') : AnsweredIn s s' := by
  refine ⟨h.batcher, h.writes, h.strays, fun i req hi hn => ?_⟩
  obtain ⟨phase, hphase, hne⟩ := not_aborted_exec hes hrun hi hn
  rcases h.requests _ (List.mem_of_getElem? hphase) with ⟨response, hr⟩ | hab
  · exact ⟨_, response, hphase, rfl, hr⟩
  · exact absurd hab hne

/-- **Every request gets a response.** From every state of a run in which the batcher has been
started and not stopped: a run of the steps that the server takes by itself is no longer than
`work`; wherever it cannot go on, every request that was not aborted has its response, the writes to
the cache and the detached lookups are done, and the batcher is idle with all its permits; and there
is a run that leads there.

**Proof sketch.** `exhausting`: each step leaves less to do (`Effect.work_lt`). A batcher that is
not idle can move; when it is idle it has answered whoever waits (`Idle.done`), for no request waits
for a cancelled future (`Waits`); and a request that looks into the cache goes on by itself. -/
theorem every_request_answered (lib : Library) (args : BatcherArgs)
    (hmax : 1 ≤ args.maxConcurrentBatches) (t₀ : ℚ) (es : List (ℚ × ServerAction))
    (s : Server args) (hrun : Machine.exec (step lib) (new args t₀) es = some s)
    (hstart : s.batcher.worker ≠ .notStarted) (hstop : s.batcher.stopping = .notCalled) :
    (∀ fs s', (∀ e ∈ fs, e.2.isProgress = true) → Machine.exec (step lib) s fs = some s' →
      fs.length ≤ s.work ∧
        ((∀ e, e.2.isProgress = true → step lib s' e = none) → AnsweredIn s s')) ∧
    ∃ fs s', (∀ e ∈ fs, e.2.isProgress = true) ∧ Machine.exec (step lib) s fs = some s' ∧
      AnsweredIn s s' := by
  have hall : Machine.Exhausting (step lib) (fun (_ : Server args) e => e.2.isProgress = true)
      (Serving lib) Served work := exhausting hmax
  have hs : Serving lib s := ⟨⟨t₀, es, hrun⟩, hstart, hstop⟩
  constructor
  · intro fs s' hfs hexec
    have hK : Machine.StepsSatisfy (step lib) (fun _ e => e.2.isProgress = true) s fs :=
      Machine.stepsSatisfy_of_forall hfs
    have hlen := hall.length_add_work_le hs hK hexec
    exact ⟨by omega, fun hstuck => (hall.done_of_stuck hs hK hexec hstuck).answeredIn hK hexec⟩
  · obtain ⟨fs, s', hK, hexec, hdone⟩ := hall.exists_run hs
    exact ⟨fs, s', Machine.forall_of_stepsSatisfy hK hexec, hexec, hdone.answeredIn hK hexec⟩

/-- Two requests: one looks into the cache, the other one is in the queue. -/
def twoRequests : List (ℚ × ServerAction) :=
  [(0, .batcher .start), (0, .arrive "a"), (0, .arrive "b"), (0, .lookup 1 (.ok none)),
    (0, .resume 1)]

/-- Both of them get a response. -/
theorem every_request_answered_two :
    ∃ s, Machine.exec (step noLibrary) (new ⟨2, 20, 1, ⟨1, 1⟩⟩ 0) twoRequests = some s ∧
      ∃ fs s', Machine.exec (step noLibrary) s fs = some s' ∧
        ∀ (i : ℕ), i < 2 → ∃ req response, s'.requests[i]? = some req ∧
          req.response = some response := by
  obtain ⟨s, hs, hstart, hstop, ha, hb⟩ :
      ∃ s ∈ Machine.exec (step noLibrary) (new ⟨2, 20, 1, ⟨1, 1⟩⟩ 0) twoRequests,
        s.batcher.worker ≠ .notStarted ∧ s.batcher.stopping = .notCalled ∧
        s.requests[0]? = some ⟨"a", 0, .lookup⟩ ∧ s.requests[1]? = some ⟨"b", 0, .awaiting 0⟩ :=
    ⟨_, rfl, by simp [new, InferenceBatcher.new, setPhase], rfl, rfl, rfl⟩
  obtain ⟨-, fs, s', -, hexec, -, -, -, hanswer⟩ :=
    every_request_answered noLibrary _ (by decide) 0 twoRequests s hs hstart hstop
  refine ⟨s, hs, fs, s', hexec, fun i hi => ?_⟩
  obtain rfl | rfl : i = 0 ∨ i = 1 := by omega
  · obtain ⟨req, response, hreq, -, hresp⟩ := hanswer 0 _ ha (by simp)
    exact ⟨req, response, hreq, hresp⟩
  · obtain ⟨req, response, hreq, -, hresp⟩ := hanswer 1 _ hb (by simp)
    exact ⟨req, response, hreq, hresp⟩

end Server

end InferenceServer
