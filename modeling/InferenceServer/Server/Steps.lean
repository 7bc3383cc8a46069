import InferenceServer.Batcher.Answers
import InferenceServer.Server.Basic

set_option relaxedAutoImplicit false
set_option autoImplicit false

/-!
# What a step of the server does

The machine of `Server/Basic.lean` as rules, one for each branch of the code, and the batcher
inside it: every run of the server contains a run of the batcher.

## Main definitions

* `Server.Effect` — the rules.

## Main results

* `Server.step_effect`, `Server.act_of_effect` — every step is by a rule, and every rule is a step.
* `Server.batcher_run` — the batcher of a server has been through a run of the batcher.
-/

namespace InferenceServer

namespace Server

variable {args : BatcherArgs} {lib : Library} {s s' : Server args} {a : ServerAction}

/-! ## A request goes on -/

/-- The phase that request `i` has gone on to. -/
lemma setPhase_getElem? {i : ℕ} {req : Request} (phase : RequestPhase)
    (hi : s.requests[i]? = some req) :
    (s.setPhase i phase).requests[i]? = some { req with phase := phase } := by
  rw [setPhase, List.getElem?_modify, hi]
  simp

/-- Another request is not touched. -/
lemma setPhase_getElem?_ne {i j : ℕ} (phase : RequestPhase) (h : i ≠ j) :
    (s.setPhase i phase).requests[j]? = s.requests[j]? := by
  rw [setPhase, List.getElem?_modify_ne _ _ h]

/-! ## The rules -/

/-- The rules of the server: what each branch of the code requires and leaves. -/
inductive Effect (lib : Library) (s : Server args) : ServerAction → Server args → Prop
  | arrive (text : String) :
      Effect lib s (.arrive text) { s with requests := s.requests ++ [⟨text, s.now, .lookup⟩] }
  | lookup (i : ℕ) (text : String) (start : ℚ) (reply : RedisReply)
      (hi : s.requests[i]? = some ⟨text, start, .lookup⟩) :
      Effect lib s (.lookup i reply)
        { s.setPhase i (.looked (Cache.get lib s.metrics reply).2) with
          metrics := (Cache.get lib s.metrics reply).1 }
  | hit (i : ℕ) (text : String) (start : ℚ) (cached : Json)
      (hi : s.requests[i]? = some ⟨text, start, .looked cached⟩) (hc : cached.truthy = true) :
      Effect lib s (.resume i) (s.setPhase i (.answered (respond lib start s.now cached)))
  | reject (i : ℕ) (text : String) (start : ℚ) (cached : Json)
      (b : InferenceBatcher args Json) (e : PyException)
      (hi : s.requests[i]? = some ⟨text, start, .looked cached⟩) (hc : cached.truthy = false)
      (hp : { s.batcher with now := s.now }.predict text = (b, .error e)) :
      Effect lib s (.resume i) { s.setPhase i (.answered (failure e)) with batcher := b }
  | accept (i : ℕ) (text : String) (start : ℚ) (cached : Json)
      (b : InferenceBatcher args Json) (f : ℕ)
      (hi : s.requests[i]? = some ⟨text, start, .looked cached⟩) (hc : cached.truthy = false)
      (hp : { s.batcher with now := s.now }.predict text = (b, .ok f)) :
      Effect lib s (.resume i) { s.setPhase i (.awaiting f) with batcher := b }
  | result (i : ℕ) (text : String) (start : ℚ) (f : ℕ) (row : Json)
      (hi : s.requests[i]? = some ⟨text, start, .awaiting f⟩)
      (hf : s.batcher.futures[f]? = some (.result row)) :
      Effect lib s (.complete i)
        { s.setPhase i (.answered (respond lib start s.now row)) with
          writes := s.writes ++ [⟨text, row⟩] }
  | failed (i : ℕ) (text : String) (start : ℚ) (f : ℕ) (e : PyException)
      (hi : s.requests[i]? = some ⟨text, start, .awaiting f⟩)
      (hf : s.batcher.futures[f]? = some (.exception e)) :
      Effect lib s (.complete i) (s.setPhase i (.answered (failure e)))
  | abortWaiting (i : ℕ) (text : String) (start : ℚ) (f : ℕ)
      (hi : s.requests[i]? = some ⟨text, start, .awaiting f⟩) :
      Effect lib s (.abort i)
        { s.setPhase i .aborted with batcher := { s.batcher with now := s.now }.cancelCaller f }
  | abort (i : ℕ) (req : Request) (hi : s.requests[i]? = some req)
      (hp : req.phase = .lookup ∨ ∃ cached, req.phase = .looked cached) :
      Effect lib s (.abort i) (s.setPhase i .aborted)
  | detach (i : ℕ) (text : String) (start : ℚ)
      (hi : s.requests[i]? = some ⟨text, start, .lookup⟩) :
      Effect lib s (.detach i) { s.setPhase i .aborted with strays := s.strays ++ [text] }
  | stray (j : ℕ) (reply : RedisReply) (hj : j < s.strays.length) :
      Effect lib s (.stray j reply)
        { s with
          strays := s.strays.eraseIdx j
          metrics := (Cache.get lib s.metrics reply).1 }
  | write (j : ℕ) (w : CacheWrite) (cmd : SetEx) (hj : s.writes[j]? = some w)
      (hc : Cache.set lib w.text w.result = some cmd) :
      Effect lib s (.write j true)
        { s with
          writes := s.writes.eraseIdx j
          stored := fun key => if key = cmd.key then some cmd.value else s.stored key }
  | drop (j : ℕ) (w : CacheWrite) (effective : Bool) (hj : s.writes[j]? = some w)
      (hd : effective = false ∨ Cache.set lib w.text w.result = none) :
      Effect lib s (.write j effective) { s with writes := s.writes.eraseIdx j }
  | batcher (a : Action Json) (b : InferenceBatcher args Json) (ha : a.isInternal = true)
      (hb : s.batcher.step (s.now, a) = some b) :
      Effect lib s (.batcher a) { s with batcher := b }

/-- Every action that is possible is by a rule.

**Proof sketch.** One case for each action: split the branches of its definition. -/
lemma act_effect (h : act lib s a = some s') : Effect lib s a s' := by
  cases a with
  | arrive text =>
    obtain rfl := Option.some.inj h
    exact .arrive text
  | lookup i reply =>
    simp only [act, Server.lookup] at h
    split at h
    · obtain rfl := Option.some.inj h
      exact .lookup i _ _ reply ‹_›
    · cases h
  | resume i =>
    simp only [act, resume] at h
    split at h
    · split_ifs at h with hc
      · obtain rfl := Option.some.inj h
        exact .hit i _ _ _ ‹_› hc
      · rw [Bool.not_eq_true] at hc
        split at h <;> obtain rfl := Option.some.inj h
        · exact .reject i _ _ _ _ _ ‹_› hc ‹_›
        · exact .accept i _ _ _ _ _ ‹_› hc ‹_›
    · cases h
  | complete i =>
    simp only [act, complete] at h
    split at h
    · split at h
      · obtain rfl := Option.some.inj h
        exact .result i _ _ _ _ ‹_› ‹_›
      · obtain rfl := Option.some.inj h
        exact .failed i _ _ _ _ ‹_› ‹_›
      · cases h
    · cases h
  | abort i =>
    simp only [act, Server.abort] at h
    split at h
    · obtain rfl := Option.some.inj h
      exact .abortWaiting i _ _ _ ‹_›
    · obtain rfl := Option.some.inj h
      exact .abort i _ ‹_› (.inl rfl)
    · obtain rfl := Option.some.inj h
      exact .abort i _ ‹_› (.inr ⟨_, rfl⟩)
    · cases h
  | detach i =>
    simp only [act, Server.detach] at h
    split at h
    · obtain rfl := Option.some.inj h
      exact .detach i _ _ ‹_›
    · cases h
  | stray j reply =>
    simp only [act, Server.stray] at h
    split_ifs at h with hj
    obtain rfl := Option.some.inj h
    exact .stray j reply hj
  | write j effective =>
    simp only [act, Server.write] at h
    split at h
    · rename_i w hj
      split at h <;> obtain rfl := Option.some.inj h
      · exact .write j w _ hj ‹_›
      · rename_i hne
        refine .drop j w _ hj (or_iff_not_imp_left.mpr fun hn => ?_)
        exact Option.eq_none_iff_forall_ne_some.mpr fun cmd hc => hne cmd hc (by simpa using hn)
    · cases h
  | batcher a =>
    simp only [act] at h
    split_ifs at h with ha
    obtain ⟨b, hb, rfl⟩ := Option.map_eq_some_iff.mp h
    exact .batcher a b ha hb

/-- What a rule describes is possible.

**Proof sketch.** One case for each rule: its requirements choose the branch. -/
lemma act_of_effect (h : Effect lib s a s') : act lib s a = some s' := by
  cases h with
  | arrive text => rfl
  | lookup i text start reply hi => simp only [act, Server.lookup, hi]
  | hit i text start cached hi hc => simp only [act, resume, hi, hc, if_true]
  | reject i text start cached b e hi hc hp =>
    simp only [act, resume, hi, hc, Bool.false_eq_true, if_false, hp]
  | accept i text start cached b f hi hc hp =>
    simp only [act, resume, hi, hc, Bool.false_eq_true, if_false, hp]
  | result i text start f row hi hf => simp only [act, complete, hi, hf]
  | failed i text start f e hi hf => simp only [act, complete, hi, hf]
  | abortWaiting i text start f hi => simp only [act, Server.abort, hi]
  | abort i req hi hp =>
    obtain ⟨text, start, phase⟩ := req
    rcases hp with rfl | ⟨cached, rfl⟩
    · simp only [act, Server.abort, hi]
    · simp only [act, Server.abort, hi]
  | detach i text start hi => simp only [act, Server.detach, hi]
  | stray j reply hj => simp only [act, Server.stray, hj, if_true]
  | write j w cmd hj hc => simp only [act, Server.write, hj, hc]
  | drop j w effective hj hd =>
    simp only [act, Server.write, hj]
    rcases hd with rfl | hc
    · cases Cache.set lib w.text w.result <;> rfl
    · simp only [hc]
  | batcher a b ha hb => simp only [act, ha, if_true, hb, Option.map_some]

/-- **Every step is by a rule**, at a clock reading that is not before the latest one. -/
theorem step_effect {e : ℚ × ServerAction} (h : step lib s e = some s') :
    s.now ≤ e.1 ∧ Effect lib { s with now := e.1 } e.2 s' := by
  unfold step at h
  split_ifs at h with hle
  exact ⟨hle, act_effect h⟩

/-! ## The batcher inside -/

namespace Effect

/-- An action does not move the clock. -/
lemma now_eq (h : Effect lib s a s') : s'.now = s.now := by
  cases h <;> rfl

/-- The batcher stays as it is, or makes a step of its own machine. -/
lemma batcher_step (h : Effect lib s a s') (hnow : s.batcher.now ≤ s.now) :
    s'.batcher = s.batcher ∨ ∃ b, s.batcher.step (s.now, b) = some s'.batcher := by
  cases h with
  | reject i text start cached b e hi hc hp =>
    refine .inr ⟨.predict text, InferenceBatcher.step_eq_some.mpr ⟨hnow, ?_⟩⟩
    simp [InferenceBatcher.act, hp]
  | accept i text start cached b f hi hc hp =>
    refine .inr ⟨.predict text, InferenceBatcher.step_eq_some.mpr ⟨hnow, ?_⟩⟩
    simp [InferenceBatcher.act, hp]
  | abortWaiting i text start f hi =>
    exact .inr ⟨.cancel f, InferenceBatcher.step_eq_some.mpr ⟨hnow, rfl⟩⟩
  | batcher a b ha hb => exact .inr ⟨a, hb⟩
  | _ => exact .inl rfl

end Effect

/-- **Every run of the server contains a run of the batcher**, which has led to the batcher of
the server at a time that is not after the server's.

**Proof sketch.** Induction on the run: a step of the server is no step of the batcher or one
(`Effect.batcher_step`). -/
theorem batcher_run {t₀ : ℚ} {es : List (ℚ × ServerAction)}
    (hrun : Machine.exec (step lib) (new args t₀) es = some s) :
    s.batcher.now ≤ s.now ∧
      ∃ bs, Machine.exec InferenceBatcher.step (.new args Json t₀) bs = some s.batcher := by
  refine Machine.exec_invariant (I := fun s : Server args => s.batcher.now ≤ s.now ∧
    ∃ bs, Machine.exec InferenceBatcher.step (.new args Json t₀) bs = some s.batcher)
    ?_ ⟨le_rfl, [], rfl⟩ hrun
  rintro s e s' ⟨hnow, bs, hbs⟩ hstep
  obtain ⟨hle, heff⟩ := step_effect hstep
  rw [heff.now_eq]
  rcases heff.batcher_step (hnow.trans hle) with hb | ⟨b, hb⟩
  · rw [hb]
    exact ⟨hnow.trans hle, bs, hbs⟩
  · refine ⟨?_, bs ++ [(e.1, b)], Machine.exec_snoc_eq_some.mpr ⟨s.batcher, hbs, hb⟩⟩
    rw [(InferenceBatcher.step_effect hb).2.now_eq]

end Server

end InferenceServer
