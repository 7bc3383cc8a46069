import InferenceServer.Server.Freshness

set_option relaxedAutoImplicit false
set_option autoImplicit false

/-!
# A dead model still serves what it has answered

A cache hit does not come to the gate of the batcher. So while the entry for a text is there,
requests for the text are answered from it, whatever has become of the model and of the breaker.

## Main definitions

* `CachedServer.RedisKeeps` — what is assumed of Redis: it answers from the entry for a text.
* `CachedServer.Steady` — what is assumed of the clients, and of the rows that are written.
* `CachedServer.Serves` — the invariant: the entry is there, and serves the requests for the text.

## Main results

* `CachedServer.stored_answers_served` — once a row has been written, the requests for its text get
  their 200 from it, past the batcher and its breaker.
-/

namespace InferenceServer

open InferenceBatcher

namespace CachedServer

variable {args : BatcherArgs} {lib : Library} {s s' : CachedServer args} {e : ℚ × ServerAction}

section Served

variable (lib) (V : Json → Prop) (text : String) (n : ℕ) (w : ℚ)

/-- The string decodes to a value in `V`. -/
def Decodes (raw : String) : Prop := raw ≠ "" ∧ ∃ v, lib.loads raw = some v ∧ V v

/-- Redis answers a lookup of `text` with the entry for it, before its deadline. -/
def RedisKeeps (s : CachedServer args) (e : ℚ × ServerAction) : Prop :=
  match e.2 with
  | .lookup i reply => ∀ req ∈ s.server.requests[i]?, req.text = text →
      ∀ entry ∈ s.entries (Cache.makeKey lib text), e.1 < entry.deadline →
        reply = .ok (some entry.value)
  | _ => True

instance (s : CachedServer args) (e : ℚ × ServerAction) : Decidable (RedisKeeps lib text s e) :=
  match e with
  | (t, .lookup i reply) => inferInstanceAs (Decidable (∀ req ∈ s.server.requests[i]?,
      req.text = text → ∀ entry ∈ s.entries (Cache.makeKey lib text), t < entry.deadline →
        reply = .ok (some entry.value)))
  | (_, .arrive _) | (_, .resume _) | (_, .complete _) | (_, .abort _) | (_, .detach _)
  | (_, .stray _ _) | (_, .write _ _) | (_, .batcher _) => .isTrue trivial

/-- A lookup of `text` is made less than `TTL` after `w`, and what is written under its key decodes
to a value in `V`. -/
def Steady (s : CachedServer args) (e : ℚ × ServerAction) : Prop :=
  (∀ i reply, e.2 = .lookup i reply → ∀ req ∈ s.server.requests[i]?, req.text = text →
    e.1 < w + Cache.ttl) ∧
  ∀ cmd ∈ s.setex lib e.2, cmd.key = Cache.makeKey lib text → Decodes lib V cmd.value

/-- Where a request for `text` stands that is served from the cache. -/
def ServedPhase (req : Request) : Prop :=
  req.phase = .lookup ∨ req.phase = .aborted ∨ (∃ v, req.phase = .looked v ∧ V v) ∨
    ∃ v now body, V v ∧ respond lib req.start now v = .ok body ∧ req.phase = .answered (.ok body)

/-- The invariant: the entry for `text` is there, and serves the requests from number `n` on. -/
structure Serves (s : CachedServer args) : Prop where
  entry : ∃ entry, s.entries (Cache.makeKey lib text) = some entry ∧
    w + Cache.ttl ≤ entry.deadline ∧ Decodes lib V entry.value
  now : w ≤ s.server.now
  later : n ≤ s.server.requests.length
  requests : ∀ (i : ℕ) req, n ≤ i → s.server.requests[i]? = some req → req.text = text →
    ServedPhase lib V req

variable {lib V text n w}

/-- What `cache.get` returns for a string that decodes. -/
lemma get_of_decodes {raw : String} (h : Decodes lib V raw) (m : CacheMetrics) :
    V (Cache.get lib m (.ok (some raw))).2 := by
  obtain ⟨hne, v, hloads, hv⟩ := h
  simp only [Cache.get, hloads]
  rw [if_pos hne]
  exact hv

/-- A request that is served has found a value in `V`. -/
lemma ServedPhase.looked {text : String} {start : ℚ} {cached : Json}
    (h : ServedPhase lib V ⟨text, start, .looked cached⟩) : V cached := by
  obtain hp | hp | ⟨v, hp, hv⟩ | ⟨v, now, body, -, -, hp⟩ := h
  · cases hp
  · cases hp
  · obtain rfl : cached = v := RequestPhase.looked.inj hp
    exact hv
  · cases hp

/-- A request that is served does not wait for the batcher. -/
lemma ServedPhase.not_awaiting {req : Request} (h : ServedPhase lib V req) (f : ℕ) :
    req.phase ≠ .awaiting f := by
  intro hf
  obtain hp | hp | ⟨v, hp, -⟩ | ⟨v, now, body, -, -, hp⟩ := h <;> cases hf.symm.trans hp

/-- A request that is served is answered from a value in `V`. -/
lemma ServedPhase.response {req : Request} {response : Response} (h : ServedPhase lib V req)
    (hr : req.response = some response) :
    ∃ v now body, V v ∧ respond lib req.start now v = .ok body ∧ response = .ok body := by
  have hphase := Request.response_eq_some_iff.mp hr
  obtain hp | hp | ⟨v, hp, -⟩ | ⟨v, now, body, hv, hb, hp⟩ := h
  · cases hphase.symm.trans hp
  · cases hphase.symm.trans hp
  · cases hphase.symm.trans hp
  · exact ⟨v, now, body, hv, hb, RequestPhase.answered.inj (hphase.symm.trans hp)⟩

/-- The entry stands. -/
lemma Serves.entry_step (h : Serves lib V text n w s) (he : Steady lib V text w s e)
    (hstep : step lib s e = some s') :
    ∃ entry, s'.entries (Cache.makeKey lib text) = some entry ∧ w + Cache.ttl ≤ entry.deadline ∧
      Decodes lib V entry.value := by
  obtain ⟨hserver, hentries⟩ := step_eq_some.mp hstep
  have hle := (Server.step_effect hserver).1
  rw [hentries]
  by_cases hw : ∃ cmd, s.setex lib e.2 = some cmd ∧ cmd.key = Cache.makeKey lib text
  · obtain ⟨cmd, hset, hkey⟩ := hw
    obtain ⟨j, wr, -, -, hcmd⟩ := setex_eq_some.mp hset
    have httl : cmd.ttl = Cache.ttl := by
      obtain ⟨value, -, rfl⟩ := Option.map_eq_some_iff.mp hcmd
      rfl
    refine ⟨⟨cmd.value, e.1 + cmd.ttl⟩, ?_, ?_, he.2 cmd hset hkey⟩
    · rw [← hkey]
      exact entriesAfter_self hset
    · rw [httl]
      linarith [h.now]
  · rw [entriesAfter_of_ne fun cmd hset hkey => hw ⟨cmd, hset, hkey⟩]
    exact h.entry

/-- **The requests for the text are served.**

**Proof sketch.** One case for each way in which a request comes to where it stands. A lookup sees
the entry, which has not expired; a request that has found a value in `V` is answered from it, and
does not go on to the batcher; so none waits there. -/
theorem Serves.requests_step (hV : ∀ v, V v → Prediction lib v) (h : Serves lib V text n w s)
    (hk : RedisKeeps lib text s e) (he : Steady lib V text w s e)
    (hstep : step lib s e = some s') :
    ∀ (i : ℕ) req, n ≤ i → s'.server.requests[i]? = some req → req.text = text →
      ServedPhase lib V req := by
  intro i req hni hreq htext
  have hheff := (Server.step_effect (step_eq_some.mp hstep).1).2
  have hold : ∀ {req}, s.server.requests[i]? = some req → req.text = text →
      ServedPhase lib V req := fun hi ht => h.requests i _ hni hi ht
  obtain ⟨time, a⟩ := e
  cases hheff.comes hreq with
  | stay a req hi => exact hold hi htext
  | arrive text hi => exact .inl rfl
  | lookup text' start reply hi =>
    obtain rfl : text' = text := htext
    have ht : time < w + Cache.ttl := he.1 i reply rfl _ hi rfl
    obtain ⟨entry, hentry, hd, hraw⟩ := h.entry
    obtain rfl : reply = .ok (some entry.value) := hk _ hi rfl entry hentry (ht.trans_le hd)
    exact .inr (.inr (.inl ⟨_, rfl, get_of_decodes hraw _⟩))
  | hit text' start cached hi hc =>
    have hv := (hold hi htext).looked
    obtain ⟨body, hbody⟩ : ∃ body, respond lib start time cached = .ok body :=
      respond_ok_iff.mpr (hV _ hv)
    exact .inr (.inr (.inr ⟨cached, time, body, hv, hbody, congrArg RequestPhase.answered hbody⟩))
  | reject text' start cached x hi hc =>
    rw [truthy_of_prediction (hV _ (hold hi htext).looked)] at hc
    cases hc
  | accept text' start cached f hi hc =>
    rw [truthy_of_prediction (hV _ (hold hi htext).looked)] at hc
    cases hc
  | result text' start f row hi hf => exact absurd rfl ((hold hi htext).not_awaiting f)
  | failed text' start f x hi hf => exact absurd rfl ((hold hi htext).not_awaiting f)
  | abort a req hi => exact .inr (.inl rfl)

/-- The action is a write that takes effect. -/
def writes : ServerAction → Bool
  | .write _ true => true
  | _ => false

/-- Any other is a step of the kind, in time. -/
lemma steady_of_not_writes (h : writes e.2 = false) (ht : e.1 < w + Cache.ttl) :
    Steady lib V text w s e := by
  refine ⟨fun i reply _ req _ _ => ht, fun cmd hcmd => ?_⟩
  obtain ⟨j, wr, hwrite, -⟩ := setex_eq_some.mp hcmd
  rw [hwrite] at h
  cases h

/-- **A step of the kind keeps it so.** -/
theorem Serves.step (hV : ∀ v, V v → Prediction lib v) (h : Serves lib V text n w s)
    (hk : RedisKeeps lib text s e) (he : Steady lib V text w s e)
    (hstep : step lib s e = some s') : Serves lib V text n w s' := by
  obtain ⟨hle, heff⟩ := Server.step_effect (step_eq_some.mp hstep).1
  have hnow : s'.server.now = e.1 := heff.now_eq
  have hlength : s.server.requests.length ≤ s'.server.requests.length := heff.requests_length
  exact ⟨h.entry_step he hstep, h.now.trans (hle.trans hnow.ge), h.later.trans hlength,
    h.requests_step hV hk he hstep⟩

/-- **What has been stored is served, whatever becomes of the model.** A row for `text` takes effect
in Redis at time `w`. From there on anything may happen: batches fail, the breaker opens, the
batcher is stopped. As long as Redis answers from the entry, `text` is looked up within 3600
seconds, and the rows that are written under its key are in `V`, no request for `text` that arrives
waits for the batcher, and each of them that is answered is answered with 200, with the label and
the score of a row in `V`.

**Proof sketch.** The write is where `Serves` begins to hold, and every step of the kind keeps it
(`Serves.step`). -/
theorem stored_answers_served (lib : Library) (args : BatcherArgs) (V : Json → Prop)
    (hV : ∀ v, V v → Prediction lib v) (s s₁ s₂ : CachedServer args) (w : ℚ) (j : ℕ)
    (text : String) (row : Json) (raw : String)
    (hj : s.server.writes[j]? = some ⟨text, row⟩) (hdumps : lib.dumps row = some raw)
    (hraw : Decodes lib V raw) (hwrite : step lib s (w, .write j true) = some s₁)
    (fs : List (ℚ × ServerAction)) (hrun : Machine.exec (step lib) s₁ fs = some s₂)
    (hkeeps : Machine.StepsSatisfy (step lib) (RedisKeeps lib text) s₁ fs)
    (hsteady : Machine.StepsSatisfy (step lib) (Steady lib V text w) s₁ fs) :
    ∀ (i : ℕ) req, s₁.server.requests.length ≤ i → s₂.server.requests[i]? = some req →
      req.text = text → (∀ f, req.phase ≠ .awaiting f) ∧
        ∀ response, req.response = some response → ∃ v now body, V v ∧
          respond lib req.start now v = .ok body ∧ response = .ok body := by
  have hset : s.setex lib (.write j true) = some ⟨Cache.makeKey lib text, Cache.ttl, raw⟩ := by
    refine setex_eq_some.mpr ⟨j, ⟨text, row⟩, rfl, hj, ?_⟩
    rw [Cache.set, hdumps]
    rfl
  have hbegin : Serves lib V text s₁.server.requests.length w s₁ := by
    obtain ⟨hserver, hentries⟩ := step_eq_some.mp hwrite
    have hnow : s₁.server.now = w := (Server.step_effect hserver).2.now_eq
    refine ⟨⟨⟨raw, w + Cache.ttl⟩, ?_, le_rfl, hraw⟩, hnow.ge, le_rfl, ?_⟩
    · rw [hentries]
      exact entriesAfter_self (e := (w, .write j true)) hset
    · intro i req hi hreq
      have hlt := (List.getElem?_eq_some_iff.mp hreq).1
      omega
  have hend : Serves lib V text s₁.server.requests.length w s₂ := by
    refine Machine.exec_invariant_of_steps
      (C := fun s e => RedisKeeps lib text s e ∧ Steady lib V text w s e)
      (fun _ _ _ h he hstep => h.step hV he.1 he.2 hstep) hbegin ?_ hrun
    exact fun pre e t hpre ht => ⟨hkeeps pre e t hpre ht, hsteady pre e t hpre ht⟩
  intro i req hi hreq htext
  have hserved := hend.requests i req hi hreq htext
  exact ⟨hserved.not_awaiting, fun response hr => hserved.response hr⟩

/-- A request for `bad` fails, which opens the breaker; a second one is rejected, and a request for
`good` is not. -/
def deadRun : List (ℚ × ServerAction) :=
  computeRun 1 1 "bad" (.raised ⟨.other, "boom"⟩) ++
    [(1 / 2, .arrive "bad"), (1 / 2, .lookup 2 (.ok none)), (1 / 2, .resume 2),
      (1 / 2, .arrive "good"), (1 / 2, .lookup 3 (.ok (some Server.goodRaw))),
      (1 / 2, .resume 3)]

/-- The breaker is open, and what has been stored is served. -/
theorem stored_answers_served_dead :
    ∃ s s₁ s₂ : CachedServer ⟨1, 0, 1, ⟨1, 1⟩⟩,
      Machine.exec (step Server.goodLibrary) (new _ 0) computedRun = some s ∧
      step Server.goodLibrary s (0, .write 0 true) = some s₁ ∧
      Machine.exec (step Server.goodLibrary) s₁ deadRun = some s₂ ∧
      s₂.server.batcher.circuitBreaker.state = .OPEN ∧
      ∃ bad ∈ s₂.server.requests[2]?, ∃ good ∈ s₂.server.requests[3]?,
        bad.response.map Response.status = some 503 ∧
        ∃ now body, good.response = some (.ok body) ∧
          respond Server.goodLibrary (1 / 2) now Server.goodRow = .ok body := by
  obtain ⟨s, hs, w, hw, hwtext, hdumps⟩ :
      ∃ s ∈ Machine.exec (step Server.goodLibrary) (new ⟨1, 0, 1, ⟨1, 1⟩⟩ 0) computedRun,
        ∃ w ∈ s.server.writes[0]?, w.text = "good" ∧
          Server.goodLibrary.dumps w.result = some Server.goodRaw := by
    decide +kernel
  obtain ⟨s₁, hs₁, hlen, hkeeps⟩ :
      ∃ s₁ ∈ Machine.exec (step Server.goodLibrary) (new ⟨1, 0, 1, ⟨1, 1⟩⟩ 0)
          (computedRun ++ [(0, .write 0 true)]),
        s₁.server.requests.length = 1 ∧ Machine.StepsSatisfy (step Server.goodLibrary)
          (RedisKeeps Server.goodLibrary "good") s₁ deadRun := by
    decide +kernel
  obtain ⟨s₂, hs₂, hopen, bad, hbad, hstatus, good, hgood, htext, hstart, hanswered⟩ :
      ∃ s₂ ∈ Machine.exec (step Server.goodLibrary) (new ⟨1, 0, 1, ⟨1, 1⟩⟩ 0)
          (computedRun ++ [(0, .write 0 true)] ++ deadRun),
        s₂.server.batcher.circuitBreaker.state = .OPEN ∧
        ∃ bad ∈ s₂.server.requests[2]?, bad.response.map Response.status = some 503 ∧
        ∃ good ∈ s₂.server.requests[3]?, good.text = "good" ∧ good.start = 1 / 2 ∧
          good.response.isSome = true := by
    decide +kernel
  obtain ⟨m, hm, hs₂⟩ := Machine.exec_append_eq_some.mp hs₂
  obtain rfl : s₁ = m := Option.some.inj (hs₁.symm.trans hm)
  obtain ⟨m', hm', hwrite⟩ := Machine.exec_snoc_eq_some.mp hs₁
  obtain rfl : s = m' := Option.some.inj (hs.symm.trans hm')
  have hj : s.server.writes[0]? = some ⟨"good", w.result⟩ := by
    rw [← hwtext]
    exact hw
  have hsteady : Machine.StepsSatisfy (step Server.goodLibrary)
      (Steady Server.goodLibrary (· = Server.goodRow) "good" 0) s₁ deadRun := by
    have hread : ∀ e ∈ deadRun, writes e.2 = false ∧ e.1 < 0 + Cache.ttl := by
      decide +kernel
    intro pre e t hpre _
    obtain ⟨hr, ht⟩ := hread e (hpre.subset (by simp))
    exact steady_of_not_writes hr ht
  have hraw : Decodes Server.goodLibrary (· = Server.goodRow) Server.goodRaw :=
    ⟨by decide, Server.goodRow, by simp [Server.goodLibrary, Library.plain], rfl⟩
  have hV : ∀ v, v = Server.goodRow → Prediction Server.goodLibrary v := by
    rintro v rfl
    exact ⟨_, "POSITIVE", .finite (9998 / 10000), rfl, rfl, rfl⟩
  obtain ⟨-, hserved⟩ := stored_answers_served Server.goodLibrary _ (· = Server.goodRow) hV s s₁ s₂
    0 0 "good" w.result Server.goodRaw hj hdumps hraw hwrite deadRun hs₂ hkeeps hsteady 3 good
    (by omega) hgood htext
  obtain ⟨response, hresponse⟩ := Option.isSome_iff_exists.mp hanswered
  obtain ⟨v, now, body, rfl, hbody, rfl⟩ := hserved response hresponse
  rw [hstart] at hbody
  exact ⟨s, s₁, s₂, hs, hwrite, hs₂, hopen, bad, hbad, good, hgood, hstatus, now, body, hresponse,
    hbody⟩

end Served

end CachedServer

end InferenceServer
