import InferenceServer.Server.Steps

set_option relaxedAutoImplicit false
set_option autoImplicit false

/-!
# Response integrity

A row goes from `predict_fn` through a future into a response, and on a second way through the
cache into responses to later requests. On neither way does it reach a request for another text.

## Main definitions

* `Server.RedisHonest` — what is assumed of Redis: a value that it returns is the one stored last.
* `Server.Source` — a value that was computed for a text, or decoded from what was stored for it.
* `Server.Integrity` — the invariant.

## Main results

* `Server.integrity_exec` — the invariant holds after every run with an honest Redis.
* `Server.response_integrity` — a response carries a row that was computed for its text.

## Design

The invariant needs no assumption on the digests and the codec: what is stored under a key was
computed for some text with that key, and what a lookup finds was decoded from it. That this text
is the one asked for, and the decoded value the row, is concluded at the end.
-/

namespace InferenceServer

open InferenceBatcher

namespace Server

variable {args : BatcherArgs} {lib : Library} {s s' : Server args} {a : ServerAction}

/-- The request whose lookup Redis answers with a string, and the string. -/
def found : ServerAction → Option (ℕ × String)
  | .lookup i (.ok (some raw)) => some (i, raw)
  | _ => none

/-- A string that Redis returns to a lookup is the one that was stored last under its key. -/
def RedisHonest (lib : Library) (s : Server args) (e : ℚ × ServerAction) : Prop :=
  ∀ p ∈ found e.2, ∀ req ∈ s.requests[p.1]?, s.stored (Cache.makeKey lib req.text) = some p.2

instance (lib : Library) (s : Server args) (e : ℚ × ServerAction) :
    Decidable (RedisHonest lib s e) :=
  inferInstanceAs (Decidable (∀ p ∈ found e.2, _))

/-! ## The invariant -/

/-- The value `v` was computed for `text`, or decoded from the encoding of a row that was computed
for a text with the same key. -/
def Source (lib : Library) (b : InferenceBatcher args Json) (text : String) (v : Json) : Prop :=
  ∃ text' row, b.RowFor text' row ∧
    (text' = text ∧ v = row ∨
      Cache.makeKey lib text' = Cache.makeKey lib text ∧
        ∃ raw, lib.dumps row = some raw ∧ lib.loads raw = some v)

/-- What a request holds. While it waits, its future was created for its text; a true value from
the cache, and the value behind a response, have a source. -/
def Holds (lib : Library) (b : InferenceBatcher args Json) (req : Request) : Prop :=
  match req.phase with
  | .looked cached => cached.truthy = true → Source lib b req.text cached
  | .awaiting f => ⟨req.text, f⟩ ∈ items b.calls
  | .answered (.ok body) =>
    ∃ v now, Source lib b req.text v ∧ respond lib req.start now v = .ok body
  | _ => True

/-- The invariant. -/
structure Integrity (lib : Library) (s : Server args) : Prop where
  requests : ∀ req ∈ s.requests, Holds lib s.batcher req
  texts : ∀ it ∈ items s.batcher.calls, ∃ req ∈ s.requests, req.text = it.text
  writes : ∀ w ∈ s.writes, s.batcher.RowFor w.text w.result
  stored : ∀ key raw, s.stored key = some raw →
    ∃ text row, Cache.makeKey lib text = key ∧ s.batcher.RowFor text row ∧
      lib.dumps row = some raw

/-- The batcher `b'` knows all that `b` knows: the rows computed, and the requests admitted. -/
structure Extends (b b' : InferenceBatcher args Json) : Prop where
  rows : ∀ text row, b.RowFor text row → b'.RowFor text row
  items : ∀ it ∈ items b.calls, it ∈ items b'.calls

/-- A step of the server only adds to what its batcher knows. -/
lemma Effect.extends (h : Effect lib s a s') (hnow : s.batcher.now ≤ s.now) :
    Extends s.batcher s'.batcher := by
  rcases h.batcher_step hnow with hb | ⟨b, hb⟩
  · rw [hb]
    exact ⟨fun _ _ h => h, fun _ h => h⟩
  · obtain ⟨-, heff⟩ := InferenceBatcher.step_effect hb
    refine ⟨fun text row hr => RowFor.mono (s := { s.batcher with now := s.now }) hr heff,
      fun it hit => ?_⟩
    rw [heff.calls_eq, items_append]
    exact List.mem_append_left _ hit

namespace Extends

variable {b b' : InferenceBatcher args Json}

/-- A source stays one. -/
lemma source (h : Extends b b') {text : String} {v : Json} (hs : Source lib b text v) :
    Source lib b' text v := by
  obtain ⟨text', row, hrow, hv⟩ := hs
  exact ⟨text', row, h.rows _ _ hrow, hv⟩

/-- What a request holds it keeps. -/
lemma holds (h : Extends b b') {req : Request} (hr : Holds lib b req) : Holds lib b' req := by
  obtain ⟨text, start, phase⟩ := req
  cases phase with
  | looked cached => exact fun hc => h.source (hr hc)
  | awaiting f => exact h.items _ hr
  | answered response =>
    cases response with
    | ok body =>
      obtain ⟨v, now, hs, hb⟩ := hr
      exact ⟨v, now, h.source hs, hb⟩
    | error status detail => trivial
  | _ => trivial

end Extends

/-- A request is one of those before, or the one that went on. -/
lemma mem_setPhase {i : ℕ} {phase : RequestPhase} {req : Request}
    (h : req ∈ (s.setPhase i phase).requests) :
    req ∈ s.requests ∨ ∃ old, s.requests[i]? = some old ∧ req = { old with phase := phase } := by
  obtain ⟨j, hj⟩ := List.mem_iff_getElem?.mp h
  by_cases hij : i = j
  · subst hij
    rcases hi : s.requests[i]? with _ | old
    · simp [setPhase, hi] at hj
    · rw [setPhase_getElem? phase hi] at hj
      exact .inr ⟨old, rfl, (Option.some.inj hj).symm⟩
  · rw [setPhase_getElem?_ne phase hij] at hj
    exact .inl (List.mem_of_getElem? hj)

/-- A request that goes on keeps its text. -/
lemma setPhase_text {i : ℕ} {phase : RequestPhase} {req : Request} (h : req ∈ s.requests) :
    ∃ req' ∈ (s.setPhase i phase).requests, req'.text = req.text := by
  obtain ⟨j, hj⟩ := List.mem_iff_getElem?.mp h
  by_cases hij : i = j
  · subst hij
    exact ⟨_, List.mem_of_getElem? (setPhase_getElem? phase hj), rfl⟩
  · refine ⟨req, List.mem_of_getElem? (i := j) ?_, rfl⟩
    rw [setPhase_getElem?_ne phase hij, hj]

/-- An exception is never answered with 200. -/
lemma failure_ne_ok (e : PyException) (body : PredictResponse) : failure e ≠ .ok body := by
  unfold failure internalError
  split_ifs <;> simp

/-- What an admitted call leaves in the log. -/
lemma predict_ok {b b' : InferenceBatcher args Json} {text : String} {f : ℕ}
    (h : b.predict text = (b', .ok f)) : items b'.calls = items b.calls ++ [⟨text, f⟩] := by
  unfold InferenceBatcher.predict at h
  split at h
  · cases h
  · obtain ⟨rfl, hf⟩ := Prod.mk.inj h
    obtain rfl := Except.ok.inj hf
    simp [items]

/-- A rejected call leaves no item. -/
lemma predict_error {b b' : InferenceBatcher args Json} {text : String} {e : PyException}
    (h : b.predict text = (b', .error e)) : items b'.calls = items b.calls := by
  unfold InferenceBatcher.predict at h
  split at h
  · obtain ⟨rfl, -⟩ := Prod.mk.inj h
    simp [items]
  · cases h

/-- The batcher admits nobody by itself. -/
lemma internal_items {b b' : InferenceBatcher args Json} {e : ℚ × Action Json}
    (hi : e.2.isInternal = true) (h : b.step e = some b') : items b'.calls = items b.calls := by
  obtain ⟨-, heff⟩ := InferenceBatcher.step_effect h
  rw [heff.calls_eq, items_append]
  cases ha : e.2 with
  | predict text => simp [ha, Action.isInternal] at hi
  | _ => exact List.append_nil _

/-- A request with a given future is the only one. -/
lemma item_unique {b : InferenceBatcher args Json} (hb : FlowInv b) {it it' : Item}
    (h : it ∈ items b.calls) (h' : it' ∈ items b.calls) (he : it.future = it'.future) :
    it = it' := by
  have hnd : ((items b.calls).map Item.future).Nodup := by
    rw [hb.fresh]
    exact List.nodup_range
  exact List.inj_on_of_nodup_map hnd h h' he

/-- The row in a future was computed for the text of the request that waits for it: the future was
created for this request, and there is no other one with that future. -/
lemma Integrity.row (hI : Integrity lib s) (hb : FlowInv s.batcher)
    (hm : ResultsMatch s.batcher) {i f : ℕ} {text : String} {start : ℚ} {row : Json}
    (hi : s.requests[i]? = some ⟨text, start, .awaiting f⟩)
    (hf : s.batcher.futures[f]? = some (.result row)) : s.batcher.RowFor text row := by
  have hown : ⟨text, f⟩ ∈ items s.batcher.calls := hI.requests _ (List.mem_of_getElem? hi)
  obtain ⟨it, hit, hfut, hrow⟩ := hm f row hf
  have heq : it = ⟨text, f⟩ := item_unique hb hit hown hfut
  rw [heq] at hrow
  exact hrow

namespace Effect

/-- **What the requests hold after an action.**

**Proof sketch.** One case for each rule; a request that did not move holds what it held. A lookup
finds what was stored, with an honest Redis; a hit answers from what the lookup found; an admission
creates the future for the text; and a result is a row that was computed for the text
(`Integrity.row`). -/
theorem integrity_requests (h : Effect lib s a s') (hb : FlowInv s.batcher)
    (hm : ResultsMatch s.batcher) (hnow : s.batcher.now ≤ s.now)
    (hr : RedisHonest lib s (s.now, a)) (hI : Integrity lib s) :
    ∀ req ∈ s'.requests, Holds lib s'.batcher req := by
  have hext := h.extends hnow
  have hold : ∀ req ∈ s.requests, Holds lib s'.batcher req :=
    fun req hreq => hext.holds (hI.requests req hreq)
  -- a request `i` that stands at `old` goes on to `phase`, where it holds what it must
  have hmove : ∀ i old phase, s.requests[i]? = some old →
      Holds lib s'.batcher { old with phase := phase } →
      ∀ req ∈ (s.setPhase i phase).requests, Holds lib s'.batcher req := by
    intro i old phase hi hnew req hreq
    rcases mem_setPhase hreq with hreq | ⟨old', hi', rfl⟩
    · exact hold req hreq
    · obtain rfl : old' = old := Option.some.inj (hi'.symm.trans hi)
      exact hnew
  have hanswer : ∀ text start v, Source lib s'.batcher text v →
      Holds lib s'.batcher ⟨text, start, .answered (respond lib start s.now v)⟩ := by
    intro text start v hs
    unfold Holds
    cases hresp : respond lib start s.now v with
    | ok body => exact ⟨v, s.now, hs, hresp⟩
    | error status detail => trivial
  have hfail : ∀ text start e,
      Holds lib s'.batcher ⟨text, start, .answered (failure e)⟩ := by
    intro text start e
    unfold Holds
    cases hresp : failure e with
    | ok body => exact absurd hresp (failure_ne_ok e body)
    | error status detail => trivial
  cases h with
  | arrive text =>
    intro req hreq
    rcases List.mem_append.mp hreq with hreq | hreq
    · exact hold req hreq
    · obtain rfl := List.mem_singleton.mp hreq
      trivial
  | lookup i text start reply hi =>
    apply hmove i _ _ hi
    intro hc
    obtain ⟨raw, rfl, hraw⟩ := Cache.get_truthy lib hc
    obtain ⟨text', row, hkey, hrow, hdumps⟩ := hI.stored _ raw (hr (i, raw) rfl _ hi)
    exact ⟨text', row, hrow, .inr ⟨hkey, raw, hdumps, hraw⟩⟩
  | hit i text start cached hi hc =>
    refine hmove i _ _ hi (hanswer text start cached ?_)
    exact hI.requests _ (List.mem_of_getElem? hi) hc
  | reject i text start cached b e hi hc hp => exact hmove i _ _ hi (hfail text start e)
  | accept i text start cached b f hi hc hp =>
    apply hmove i _ _ hi
    show ⟨text, f⟩ ∈ items b.calls
    rw [predict_ok hp]
    exact List.mem_append_right _ (List.mem_singleton.mpr rfl)
  | result i text start f row hi hf =>
    have hrow : s.batcher.RowFor text row := hI.row hb hm hi hf
    exact hmove i _ _ hi (hanswer text start row ⟨text, row, hrow, .inl ⟨rfl, rfl⟩⟩)
  | failed i text start f e hi hf => exact hmove i _ _ hi (hfail text start e)
  | abortWaiting i text start f hi => exact hmove i _ _ hi trivial
  | abort i req hi hp => exact hmove i _ _ hi trivial
  | detach i text start hi => exact hmove i _ _ hi trivial
  | _ => exact hold

/-- Whoever is admitted has been requested. -/
lemma integrity_texts (h : Effect lib s a s')
    (hI : ∀ it ∈ items s.batcher.calls, ∃ req ∈ s.requests, req.text = it.text) :
    ∀ it ∈ items s'.batcher.calls, ∃ req ∈ s'.requests, req.text = it.text := by
  have hmove : ∀ i phase, ∀ it ∈ items s.batcher.calls,
      ∃ req ∈ (s.setPhase i phase).requests, req.text = it.text := by
    intro i phase it hit
    obtain ⟨req, hreq, ht⟩ := hI it hit
    rw [← ht]
    exact setPhase_text hreq
  intro it hit
  cases h with
  | arrive text =>
    obtain ⟨req, hreq, ht⟩ := hI it hit
    exact ⟨req, List.mem_append_left _ hreq, ht⟩
  | reject i text start cached b e hi hc hp =>
    have hsame : it ∈ items s.batcher.calls := predict_error hp ▸ hit
    exact hmove i _ it hsame
  | accept i text start cached b f hi hc hp =>
    have hlonger : it ∈ items s.batcher.calls ++ [⟨text, f⟩] := predict_ok hp ▸ hit
    rcases List.mem_append.mp hlonger with hit | hit
    · exact hmove i _ it hit
    · obtain rfl := List.mem_singleton.mp hit
      exact setPhase_text (List.mem_of_getElem? hi)
  | batcher a b ha hb =>
    have hsame : it ∈ items s.batcher.calls := internal_items ha hb ▸ hit
    exact hI it hsame
  | lookup i text start reply hi => exact hmove i _ it hit
  | hit i text start cached hi hc => exact hmove i _ it hit
  | result i text start f row hi hf => exact hmove i _ it hit
  | failed i text start f e hi hf => exact hmove i _ it hit
  | abortWaiting i text start f hi => exact hmove i _ it hit
  | abort i req hi hp => exact hmove i _ it hit
  | detach i text start hi => exact hmove i _ it hit
  | _ => exact hI it hit

/-- What waits to be written to the cache was computed for its text. -/
lemma integrity_writes (h : Effect lib s a s') (hb : FlowInv s.batcher)
    (hm : ResultsMatch s.batcher) (hnow : s.batcher.now ≤ s.now) (hI : Integrity lib s) :
    ∀ w ∈ s'.writes, s'.batcher.RowFor w.text w.result := by
  have hext := h.extends hnow
  have hold : ∀ w ∈ s.writes, s'.batcher.RowFor w.text w.result :=
    fun w hw => hext.rows _ _ (hI.writes w hw)
  cases h with
  | result i text start f row hi hf =>
    intro w hw
    rcases List.mem_append.mp hw with hw | hw
    · exact hold w hw
    · obtain rfl := List.mem_singleton.mp hw
      exact hI.row hb hm hi hf
  | write j w cmd hj hc => exact fun w' hw' => hold w' (List.mem_of_mem_eraseIdx hw')
  | drop j w effective hj hd => exact fun w' hw' => hold w' (List.mem_of_mem_eraseIdx hw')
  | _ => exact hold

/-- What is stored under a key encodes a row that was computed for a text with this key. -/
lemma integrity_stored (h : Effect lib s a s') (hnow : s.batcher.now ≤ s.now)
    (hI : Integrity lib s) :
    ∀ key raw, s'.stored key = some raw → ∃ text row, Cache.makeKey lib text = key ∧
      s'.batcher.RowFor text row ∧ lib.dumps row = some raw := by
  have hext := h.extends hnow
  have hold : ∀ key raw, s.stored key = some raw → ∃ text row, Cache.makeKey lib text = key ∧
      s'.batcher.RowFor text row ∧ lib.dumps row = some raw := by
    intro key raw hk
    obtain ⟨text, row, hkey, hrow, hd⟩ := hI.stored key raw hk
    exact ⟨text, row, hkey, hext.rows _ _ hrow, hd⟩
  cases h with
  | write j w cmd hj hc =>
    intro key raw hk
    obtain ⟨value, hd, rfl⟩ := Option.map_eq_some_iff.mp hc
    dsimp only at hk
    split_ifs at hk with hkey
    · obtain rfl := Option.some.inj hk
      exact ⟨w.text, w.result, hkey.symm, hI.writes w (List.mem_of_getElem? hj), hd⟩
    · exact hold key raw hk
  | _ => exact hold

end Effect

/-- A new server holds nothing. -/
lemma integrity_new (t₀ : ℚ) : Integrity lib (new args t₀) where
  requests := by simp [new]
  texts := by simp [new, InferenceBatcher.new, items]
  writes := by simp [new]
  stored := by simp [new]

/-- **The invariant holds after every run with an honest Redis.**

**Proof sketch.** Induction on the run. The batcher of the server has been through a run of the
batcher (`batcher_run`), so its futures are fresh (`flowInv_exec`) and hold rows computed for their
requests (`results_exec`); each part of the invariant is then kept by each rule. -/
theorem integrity_exec {t₀ : ℚ} {es : List (ℚ × ServerAction)}
    (hrun : Machine.exec (step lib) (new args t₀) es = some s)
    (hredis : Machine.StepsSatisfy (step lib) (RedisHonest lib) (new args t₀) es) :
    Integrity lib s := by
  refine Machine.exec_induction
    (P := fun es s => Machine.StepsSatisfy (step lib) (RedisHonest lib) (new args t₀) es →
      Integrity lib s) (fun _ => integrity_new t₀) ?_ es s hrun hredis
  intro es e s s' hs ih hstep hredis
  have hI := ih (hredis.of_prefix (List.prefix_append es [e]))
  obtain ⟨hnow, bs, hbs⟩ := batcher_run hs
  obtain ⟨hle, heff⟩ := step_effect hstep
  have hnow' : s.batcher.now ≤ e.1 := hnow.trans hle
  have hI' : Integrity lib { s with now := e.1 } :=
    ⟨hI.requests, hI.texts, hI.writes, hI.stored⟩
  have hr := hredis.last hs
  exact ⟨heff.integrity_requests (flowInv_exec hbs) (results_exec hbs) hnow' hr hI',
    heff.integrity_texts hI.texts,
    heff.integrity_writes (flowInv_exec hbs) (results_exec hbs) hnow' hI',
    heff.integrity_stored hnow' hI'⟩

/-- A text for which a row was computed has been requested. -/
lemma Integrity.requested (hI : Integrity lib s) (hb : FlowInv s.batcher) {text : String}
    {row : Json} (hrow : s.batcher.RowFor text row) : ∃ req ∈ s.requests, req.text = text := by
  obtain ⟨t, ht, -, -, -, i, it, hit, rfl, -⟩ := hrow
  obtain ⟨k, hk⟩ := List.mem_iff_getElem?.mp ht
  have hmem : it ∈ items s.batcher.calls := hb.task_mem hk (List.mem_of_getElem? hit)
  exact hI.texts it hmem

/-- Without collisions, and with a codec that gives rows back, a source of a value for a requested
text is a computation of the value for this text.

**Proof sketch.** A value that was decoded comes from a row for a text with the same key. That
text was requested, so it is the same one, and the decoded value is the row. -/
lemma Integrity.row_of_source (hI : Integrity lib s) (hb : FlowInv s.batcher)
    (hsha : ∀ p ∈ s.requests, ∀ q ∈ s.requests, lib.sha256 p.text = lib.sha256 q.text →
      p.text = q.text)
    (hjson : ∀ text row, s.batcher.RowFor text row → ∀ raw, lib.dumps row = some raw →
      lib.loads raw = some row)
    {req : Request} (hreq : req ∈ s.requests) {v : Json}
    (hv : Source lib s.batcher req.text v) : s.batcher.RowFor req.text v := by
  obtain ⟨text, row, hrow, ⟨rfl, rfl⟩ | ⟨hkey, raw, hdumps, hloads⟩⟩ := hv
  · exact hrow
  · obtain ⟨p, hp, rfl⟩ := hI.requested hb hrow
    have htext : p.text = req.text := hsha p hp req hreq (Cache.makeKey_inj lib hkey)
    have hback : lib.loads raw = some row := hjson p.text row hrow raw hdumps
    have hval : row = v := Option.some.inj (hback.symm.trans hloads)
    rw [← htext, ← hval]
    exact hrow

/-- **Response integrity of `/predict`.** Redis returns nothing, an exception or the string stored
last; the digests of the requested texts do not collide; `json.loads` undoes `json.dumps` on the
rows that were computed. Then after every run each 200 response to a request for `text` carries the
label and the score of a row that `predict_fn` computed for `text`.

**Proof sketch.** By the invariant the value behind the response has a source
(`integrity_exec`), and so it is a row computed for the text (`Integrity.row_of_source`), whose
label and score the response carries (`respond_eq_ok`). -/
theorem response_integrity (lib : Library) (args : BatcherArgs) (t₀ : ℚ)
    (es : List (ℚ × ServerAction)) (s : Server args)
    (hrun : Machine.exec (step lib) (new args t₀) es = some s)
    (hredis : Machine.StepsSatisfy (step lib) (RedisHonest lib) (new args t₀) es)
    (hsha : ∀ p ∈ s.requests, ∀ q ∈ s.requests, lib.sha256 p.text = lib.sha256 q.text →
      p.text = q.text)
    (hjson : ∀ text row, s.batcher.RowFor text row → ∀ raw, lib.dumps row = some raw →
      lib.loads raw = some row) :
    ∀ req ∈ s.requests, ∀ body, req.response = some (.ok body) →
      ∃ fields, s.batcher.RowFor req.text (.obj fields) ∧
        dictGet fields "label" = some (.str body.label) ∧
        (dictGet fields "score").bind lib.floatField = some body.score := by
  intro req hreq body hbody
  have hI := integrity_exec hrun hredis
  obtain ⟨-, bs, hbs⟩ := batcher_run hrun
  have hb : FlowInv s.batcher := flowInv_exec hbs
  have hphase : req.phase = .answered (.ok body) := Request.response_eq_some_iff.mp hbody
  have hholds := hI.requests req hreq
  unfold Holds at hholds
  rw [hphase] at hholds
  obtain ⟨v, now, hv, hresp⟩ := hholds
  obtain ⟨fields, rfl, hlabel, hscore⟩ := respond_eq_ok hresp
  exact ⟨fields, hI.row_of_source hb hsha hjson hreq hv, hlabel, hscore⟩

/-- A row, as `predict_batch` returns it. -/
def goodRow : Json :=
  .obj [("label", .str "POSITIVE"), ("score", .float (.finite (9998 / 10000)))]

/-- A response with the row. -/
def goodBody (latencyMs : ℚ) : PredictResponse :=
  ⟨"POSITIVE", .finite (9998 / 10000), .finite latencyMs⟩

/-- The encoding of the row. -/
def goodRaw : String := "\x7b\"label\": \"POSITIVE\", \"score\": 0.9998\x7d"

/-- The digest of the text `good`. -/
def goodSha256 (text : String) : String :=
  if text = "good" then "770e607624d689265ca6c44884d0807d9b054d23c473c106c72be9de08b7376c" else ""

/-- The encoding of the row, and of nothing else. -/
def goodDumps : Json → Option String
  | .obj [(k₁, .str label), (k₂, .float (.finite score))] =>
    if k₁ = "label" ∧ label = "POSITIVE" ∧ k₂ = "score" ∧ score = 9998 / 10000 then some goodRaw
    else none
  | _ => none

/-- The library functions on the text `good` and its row. -/
def goodLibrary : Library :=
  .plain goodSha256 goodDumps fun raw => if raw = goodRaw then some goodRow else none

/-- What `goodLibrary` encodes, it decodes. -/
lemma goodLibrary_loads {v : Json} {raw : String} (h : goodLibrary.dumps v = some raw) :
    goodLibrary.loads raw = some v := by
  simp only [goodLibrary, Library.plain, goodDumps] at h ⊢
  split at h
  · split_ifs at h with hc
    obtain ⟨rfl, rfl, rfl, rfl⟩ := hc
    obtain rfl := Option.some.inj h
    rfl
  · cases h

/-- Two requests for one text: the first is computed and stored, the second is answered from the
cache. -/
def cachedRun : List (ℚ × ServerAction) :=
  [(0, .batcher .start), (0, .arrive "good"), (0, .lookup 0 (.ok none)), (0, .resume 0),
    (0, .batcher .collectFirst), (0, .batcher .loopTest), (0, .batcher .acquire),
    (0, .batcher .dispatch), (0, .batcher (.callPredictFn 0)),
    (0, .batcher (.finish 0 (.returned [goodRow]))), (0, .complete 0), (0, .write 0 true),
    (1, .arrive "good"), (1, .lookup 1 (.ok (some goodRaw))), (1, .resume 1)]

/-- The second response carries the row, too. -/
theorem response_integrity_cached :
    ∃ s, Machine.exec (step goodLibrary) (new ⟨1, 0, 1, ⟨1, 1⟩⟩ 0) cachedRun = some s ∧
      ∃ req ∈ s.requests[1]?, req.response = some (.ok (goodBody 0)) ∧
        ∃ fields, s.batcher.RowFor req.text (.obj fields) ∧
          dictGet fields "label" = some (.str "POSITIVE") := by
  obtain ⟨s, hs, htexts, req, hreq, hresp⟩ :
      ∃ s ∈ Machine.exec (step goodLibrary) (new ⟨1, 0, 1, ⟨1, 1⟩⟩ 0) cachedRun,
        (∀ p ∈ s.requests, p.text = "good") ∧
        ∃ req ∈ s.requests[1]?, req.response = some (.ok (goodBody 0)) := by
    decide +kernel
  obtain ⟨fields, hrow, hlabel, -⟩ := response_integrity goodLibrary _ 0 cachedRun s hs
    (by decide +kernel) (fun p hp q hq _ => (htexts p hp).trans (htexts q hq).symm)
    (fun _ row _ raw hd => goodLibrary_loads hd) req (List.mem_of_getElem? hreq) _ hresp
  exact ⟨s, hs, req, hreq, hresp, fields, hrow, hlabel⟩

end Server

end InferenceServer
