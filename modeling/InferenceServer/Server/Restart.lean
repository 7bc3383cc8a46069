import InferenceServer.Server.FailOpen
import InferenceServer.Server.Redis

set_option relaxedAutoImplicit false
set_option autoImplicit false

/-!
# A restart over a cache that is not empty

Redis outlives the server. A server that is started anew, with another model perhaps, finds the
entries of the last one, and answers from them until they expire. Nothing else of them is left: they
reach neither the batcher, nor what the new server writes to the cache.

## Main definitions

* `CachedServer.restarted` — a new server over what Redis has.
* `Server.ShadowPhase`, `Server.Shadow` — the server that has never seen the old entries: there the
  clients of the requests that are answered from one have gone.

## Main results

* `Server.Effect.shadow`, `CachedServer.Shadow.step` — each step has its counterpart there.
* `CachedServer.restart_forgets` — where the answers after a restart come from.

## Design

The shadow is a server over a Redis that was empty at its start, so all that is known of such a
server holds of it. A lookup that sees an old entry fails there, and when the request is answered
its client goes.
-/

namespace InferenceServer

open InferenceBatcher

namespace Server

variable {args : BatcherArgs} {lib : Library} {old : String → Option RedisEntry}
  {s s' t : Server args} {a : ServerAction} {text : String} {start : ℚ} {p q : RequestPhase}

/-! ## The shadow of a server -/

/-- The value `v` is in an old entry for `text`, which has not expired before `start`. -/
def OldValue (lib : Library) (old : String → Option RedisEntry) (text : String) (start : ℚ)
    (v : Json) : Prop :=
  ∃ raw d, old (Cache.makeKey lib text) = some ⟨raw, d⟩ ∧ lib.loads raw = some v ∧ start ≤ d

/-- Where a request that stands at the first phase stands in the shadow: at the same, unless it has
found an old value, or has been answered from one. -/
inductive ShadowPhase (lib : Library) (old : String → Option RedisEntry) (text : String)
    (start : ℚ) : RequestPhase → RequestPhase → Prop
  | same (phase : RequestPhase) : ShadowPhase lib old text start phase phase
  | found (v : Json) (hv : OldValue lib old text start v) :
      ShadowPhase lib old text start (.looked v) (.looked .null)
  | answered (v : Json) (now : ℚ) (hv : OldValue lib old text start v) :
      ShadowPhase lib old text start (.answered (respond lib start now v)) .aborted

/-- The server `t` is the shadow of `s`. -/
structure Shadow (lib : Library) (old : String → Option RedisEntry) (s t : Server args) : Prop where
  batcher : t.batcher = s.batcher
  writes : t.writes = s.writes
  strays : t.strays = s.strays
  now : t.now = s.now
  length : t.requests.length = s.requests.length
  starts : ∀ req ∈ s.requests, req.start ≤ s.now
  requests : ∀ (i : ℕ) text start p, s.requests[i]? = some ⟨text, start, p⟩ →
    ∃ q, t.requests[i]? = some ⟨text, start, q⟩ ∧ ShadowPhase lib old text start p q

/-- A request goes on, and so does its shadow. -/
lemma Shadow.setPhase {i : ℕ} (h : Shadow lib old s t)
    (hi : s.requests[i]? = some ⟨text, start, p⟩) {p' q' : RequestPhase}
    (hp : ShadowPhase lib old text start p' q') :
    Shadow lib old (s.setPhase i p') (t.setPhase i q') where
  batcher := h.batcher
  writes := h.writes
  strays := h.strays
  now := h.now
  length := by simp [Server.setPhase, h.length]
  starts req hreq := by
    rcases mem_setPhase hreq with hreq | ⟨req', hreq', rfl⟩
    · exact h.starts req hreq
    · exact h.starts req' (List.mem_of_getElem? hreq')
  requests j text' start' p'' hj := by
    by_cases hij : i = j
    · subst hij
      obtain ⟨q, hq, -⟩ := h.requests i text start p hi
      rw [setPhase_getElem? p' hi] at hj
      obtain ⟨rfl, rfl, rfl⟩ := Request.mk.inj (Option.some.inj hj)
      exact ⟨q', by rw [setPhase_getElem? q' hq], hp⟩
    · rw [setPhase_getElem?_ne p' hij] at hj
      rw [setPhase_getElem?_ne q' hij]
      exact h.requests j text' start' p'' hj

/-- A request that has not found anything is the same in the shadow. -/
lemma Shadow.same {i : ℕ} (h : Shadow lib old s t) (hi : s.requests[i]? = some ⟨text, start, p⟩)
    (hp : ∀ q, ShadowPhase lib old text start p q → q = p) :
    t.requests[i]? = some ⟨text, start, p⟩ := by
  obtain ⟨q, hq, hphase⟩ := h.requests i text start p hi
  rw [hq, hp q hphase]

/-- A request that waits for its answer is the same in the shadow. -/
lemma Shadow.awaiting {i f : ℕ} (h : Shadow lib old s t)
    (hi : s.requests[i]? = some ⟨text, start, .awaiting f⟩) :
    t.requests[i]? = some ⟨text, start, .awaiting f⟩ := by
  apply h.same hi
  rintro q ⟨⟩
  rfl

/-- A request that has not looked up its text is the same in the shadow. -/
lemma Shadow.lookup {i : ℕ} (h : Shadow lib old s t)
    (hi : s.requests[i]? = some ⟨text, start, .lookup⟩) :
    t.requests[i]? = some ⟨text, start, .lookup⟩ := by
  apply h.same hi
  rintro q ⟨⟩
  rfl

/-- **Each action but a lookup has its counterpart in the shadow.**

**Proof sketch.** One case for each rule. A request that has found a true value in an old entry is
answered from it, and its client goes in the shadow; one that has found a false value goes on as if
it had found nothing, which is what it has in the shadow. -/
theorem Effect.shadow (heff : Effect lib s a s') (h : Shadow lib old s t)
    (ha : ∀ i reply, a ≠ .lookup i reply) :
    ∃ a' t', Effect lib t a' t' ∧ Shadow lib old s' t' ∧
      (a' = a ∨ (∃ i, a = .resume i) ∧ ∃ i, a' = .abort i) := by
  have hb : { t.batcher with now := t.now } = { s.batcher with now := s.now } := by
    rw [h.batcher, h.now]
  -- a false value that was found is false in the shadow, too
  have hfalse : ∀ {i : ℕ} {text start} {cached : Json},
      s.requests[i]? = some ⟨text, start, .looked cached⟩ →
      cached.truthy = false → ∃ cached', t.requests[i]? = some ⟨text, start, .looked cached'⟩ ∧
        cached'.truthy = false := by
    intro i text start cached hi hc
    obtain ⟨q, hq, hphase⟩ := h.requests i text start _ hi
    cases hphase with
    | same => exact ⟨cached, hq, hc⟩
    | found v hv => exact ⟨.null, hq, rfl⟩
  cases heff with
  | arrive text =>
    refine ⟨_, _, .arrive text, ⟨h.batcher, h.writes, h.strays, h.now, by simp [h.length], ?_, ?_⟩,
      .inl rfl⟩
    · intro req hreq
      rcases List.mem_append.mp hreq with hreq | hreq
      · exact h.starts req hreq
      · rw [List.mem_singleton.mp hreq]
    · intro i text' start' p hi
      rw [h.now]
      by_cases hlt : i < s.requests.length
      · rw [List.getElem?_append_left hlt] at hi
        rw [List.getElem?_append_left (by rw [h.length]; exact hlt)]
        exact h.requests i text' start' p hi
      · rw [List.getElem?_append_right (not_lt.mp hlt)] at hi
        rw [List.getElem?_append_right (by rw [h.length]; exact not_lt.mp hlt), h.length]
        exact ⟨p, hi, .same p⟩
  | lookup i text start reply hi => exact absurd rfl (ha i reply)
  | hit i text start cached hi hc =>
    obtain ⟨q, hq, hphase⟩ := h.requests i text start _ hi
    cases hphase with
    | same =>
      refine ⟨_, _, .hit i text start cached hq hc, ?_, .inl rfl⟩
      rw [h.now]
      exact h.setPhase hi (.same _)
    | found v hv =>
      exact ⟨_, _, .abort i _ hq (.inr ⟨.null, rfl⟩), h.setPhase hi (.answered cached s.now hv),
        .inr ⟨⟨i, rfl⟩, i, rfl⟩⟩
  | reject i text start cached b e hi hc hp =>
    obtain ⟨cached', hi', hc'⟩ := hfalse hi hc
    rw [← hb] at hp
    have hnext := h.setPhase hi (.same (.answered (failure e)))
    exact ⟨_, _, .reject i text start cached' b e hi' hc' hp, { hnext with batcher := rfl },
      .inl rfl⟩
  | accept i text start cached b f hi hc hp =>
    obtain ⟨cached', hi', hc'⟩ := hfalse hi hc
    rw [← hb] at hp
    have hnext := h.setPhase hi (.same (.awaiting f))
    exact ⟨_, _, .accept i text start cached' b f hi' hc' hp, { hnext with batcher := rfl },
      .inl rfl⟩
  | result i text start f row hi hf =>
    have hnext := h.setPhase hi (.same (.answered (respond lib start s.now row)))
    refine ⟨_, _, .result i text start f row (h.awaiting hi) (by rw [h.batcher, hf]), ?_, .inl rfl⟩
    rw [h.now]
    exact { hnext with writes := by rw [h.writes] }
  | failed i text start f e hi hf =>
    exact ⟨_, _, .failed i text start f e (h.awaiting hi) (by rw [h.batcher, hf]),
      h.setPhase hi (.same _), .inl rfl⟩
  | abortWaiting i text start f hi =>
    have hnext := h.setPhase hi (.same .aborted)
    exact ⟨_, _, .abortWaiting i text start f (h.awaiting hi),
      { hnext with batcher := congrArg (fun b => b.cancelCaller f) hb }, .inl rfl⟩
  | abort i req hi hp =>
    obtain ⟨text, start, p⟩ := req
    obtain ⟨q, hq, hphase⟩ := h.requests i text start p hi
    refine ⟨_, _, .abort i _ hq ?_, h.setPhase hi (.same .aborted), .inl rfl⟩
    rcases hp with hp | ⟨cached, hp⟩ <;> obtain rfl := hp <;> cases hphase
    · exact .inl rfl
    · exact .inr ⟨_, rfl⟩
    · exact .inr ⟨_, rfl⟩
  | detach i text start hi =>
    have hnext := h.setPhase hi (.same .aborted)
    exact ⟨_, _, .detach i text start (h.lookup hi),
      { hnext with strays := by rw [h.strays] }, .inl rfl⟩
  | stray j reply hj =>
    exact ⟨_, _, .stray j reply (by rw [h.strays]; exact hj),
      { h with strays := by rw [h.strays] }, .inl rfl⟩
  | write j w cmd hj hc =>
    exact ⟨_, _, .write j w cmd (by rw [h.writes, hj]) hc,
      { h with writes := by rw [h.writes] }, .inl rfl⟩
  | drop j w effective hj hd =>
    exact ⟨_, _, .drop j w effective (by rw [h.writes, hj]) hd,
      { h with writes := by rw [h.writes] }, .inl rfl⟩
  | batcher a b hinternal hb' =>
    exact ⟨_, _, .batcher a b hinternal (by rw [h.batcher, h.now, hb']),
      { h with batcher := rfl }, .inl rfl⟩

/-- A lookup that finds nothing, or something in an entry. -/
lemma found_cases (lib : Library) (reply : RedisReply) :
    Cache.found lib reply = .null ∨
      ∃ raw, reply = .ok (some raw) ∧ lib.loads raw = some (Cache.found lib reply) := by
  unfold Cache.found Cache.get
  split
  · rename_i raw
    split_ifs
    · split
      · rename_i v hv
        exact .inr ⟨raw, rfl, hv⟩
      · exact .inl rfl
    · exact .inl rfl
  all_goals exact .inl rfl

/-- A lookup and its counterpart in the shadow. -/
lemma Shadow.looked {i : ℕ} {r r' : RedisReply} (h : Shadow lib old s t)
    (hi : s.requests[i]? = some ⟨text, start, .lookup⟩)
    (hp : ShadowPhase lib old text start (.looked (Cache.found lib r))
      (.looked (Cache.found lib r'))) :
    ∃ t', Effect lib t (.lookup i r') t' ∧
      Shadow lib old
        { s.setPhase i (.looked (Cache.get lib s.metrics r).2) with
          metrics := (Cache.get lib s.metrics r).1 } t' := by
  refine ⟨_, .lookup i text start r' (h.lookup hi), ?_⟩
  rw [Cache.get_eq_found, Cache.get_eq_found]
  exact { h.setPhase hi hp with }

/-- Only a lookup is told a string. -/
lemma found_eq_none (ha : ∀ i reply, a ≠ .lookup i reply) : found a = none := by
  cases a with
  | lookup i reply => exact absurd rfl (ha i reply)
  | _ => rfl

/-- Time passes for both. -/
lemma Shadow.tick {now : ℚ} (h : Shadow lib old s t) (hle : s.now ≤ now) :
    Shadow lib old { s with now := now } { t with now := now } :=
  { h with now := rfl, starts := fun req hreq => (h.starts req hreq).trans hle }

/-- What a rule describes is a step. -/
lemma step_of_effect {e : ℚ × ServerAction} (hle : s.now ≤ e.1)
    (h : Effect lib { s with now := e.1 } e.2 s') : step lib s e = some s' := by
  rw [step, if_pos hle]
  exact act_of_effect h

end Server

/-! ## A restart -/

namespace CachedServer

variable {args : BatcherArgs} {lib : Library} {old : String → Option RedisEntry}
  {s s' t : CachedServer args} {e e' : ℚ × ServerAction}

/-- A server after its start, over a Redis with the entries of the last one. -/
def restarted (args : BatcherArgs) (now : ℚ) (old : String → Option RedisEntry) :
    CachedServer args := ⟨.new args now, old⟩

/-- The server `t` and its book are the shadow of `s` and its book: there each entry is, but for the
old ones. -/
structure Shadow (lib : Library) (old : String → Option RedisEntry) (s t : CachedServer args) :
    Prop where
  server : Server.Shadow lib old s.server t.server
  entries : ∀ key entry, s.entries key = some entry →
    t.entries key = some entry ∨ old key = some entry

/-- A new server is its own shadow. -/
lemma shadow_restarted (t₀ : ℚ) : Shadow lib old (restarted args t₀ old) (new args t₀) where
  server :=
    ⟨rfl, rfl, rfl, rfl, rfl, by simp [restarted, Server.new], by simp [restarted, Server.new]⟩
  entries key entry hkey := .inr hkey

/-- At one time, both make Redis execute the same. -/
lemma Shadow.entries_after (h : Shadow lib old s t) (htime : e'.1 = e.1)
    (hset : t.setex lib e'.2 = s.setex lib e.2) {key : String} {entry : RedisEntry}
    (hkey : s.entriesAfter lib e key = some entry) :
    t.entriesAfter lib e' key = some entry ∨ old key = some entry := by
  rcases entriesAfter_cases hkey with ⟨cmd, hcmd, rfl, rfl⟩ | ⟨hkey, hne⟩
  · rw [← hset] at hcmd
    rw [entriesAfter_self hcmd, htime]
    exact .inl rfl
  · rw [← hset] at hne
    rw [entriesAfter_of_ne hne]
    exact h.entries key entry hkey

/-- A lookup in the shadow has this reply, or fails, so that the request finds what it may. -/
lemma Shadow.reply {now : ℚ} {i : ℕ} {text : String} {start : ℚ} {reply : RedisReply}
    (h : Shadow lib old s t) (hredis : RedisExpires lib s (now, .lookup i reply))
    (hi : s.server.requests[i]? = some ⟨text, start, .lookup⟩) (hnow : start ≤ now) :
    ∃ reply', RedisExpires lib t (now, .lookup i reply') ∧ Server.ShadowPhase lib old text start
      (.looked (Cache.found lib reply)) (.looked (Cache.found lib reply')) := by
  have hlost : RedisExpires lib t (now, .lookup i (.error ⟨.other, "lost"⟩)) := by
    rintro p ⟨⟩
  rcases Server.found_cases lib reply with hnull | ⟨raw, rfl, hloads⟩
  · refine ⟨_, hlost, ?_⟩
    rw [hnull]
    exact .same _
  · obtain ⟨d, hentry, hd⟩ := hredis.entry hi
    rcases h.entries _ _ hentry with hentry' | hold
    · refine ⟨.ok (some raw), ?_, .same _⟩
      rintro p ⟨⟩ req hreq
      obtain rfl : req = ⟨text, start, .lookup⟩ :=
        Option.some.inj (hreq.symm.trans (h.server.lookup hi))
      exact ⟨_, hentry', rfl, hd⟩
    · exact ⟨_, hlost, .found _ ⟨raw, d, hold, hloads, hnow.trans hd⟩⟩

/-- A step of the shadow's server, with what it writes, is a counterpart. -/
lemma Shadow.counterpart {server : Server args} {a : ServerAction} (h : Shadow lib old s t)
    (hentries : s'.entries = s.entriesAfter lib e) (hle : t.server.now ≤ e.1)
    (heff : Server.Effect lib { t.server with now := e.1 } a server)
    (hshadow : Server.Shadow lib old s'.server server) (hset : t.setex lib a = s.setex lib e.2)
    (hredis : RedisExpires lib t (e.1, a)) :
    ∃ e' t', CachedServer.step lib t e' = some t' ∧ RedisExpires lib t e' ∧
      Shadow lib old s' t' := by
  refine ⟨(e.1, a), ⟨server, t.entriesAfter lib (e.1, a)⟩, ?_, hredis, hshadow, ?_⟩
  · exact step_eq_some.mpr ⟨Server.step_of_effect hle heff, rfl⟩
  · intro key entry hkey
    rw [hentries] at hkey
    refine h.entries_after ?_ hset hkey
    rfl

/-- **Each step has its counterpart in the shadow.**

**Proof sketch.** The server has one (`Server.Effect.shadow`), and what is written there is written
here. A lookup that sees an entry sees it in the shadow, too, or it is an old one, and the lookup
fails there. -/
theorem Shadow.step (h : Shadow lib old s t) (hredis : RedisExpires lib s e)
    (hstep : CachedServer.step lib s e = some s') :
    ∃ e' t', CachedServer.step lib t e' = some t' ∧ RedisExpires lib t e' ∧
      Shadow lib old s' t' := by
  obtain ⟨hserver, hentries⟩ := step_eq_some.mp hstep
  obtain ⟨hle, heff⟩ := Server.step_effect hserver
  have htick := h.server.tick hle
  have hle' : t.server.now ≤ e.1 := h.server.now.trans_le hle
  by_cases ha : ∃ i reply, e.2 = .lookup i reply
  · obtain ⟨i, reply, ha⟩ := ha
    have hlookup : RedisExpires lib s (e.1, .lookup i reply) := by
      rw [← ha]
      exact hredis
    rw [ha] at heff
    generalize hs' : s'.server = server at heff
    cases heff with
    | lookup _ text start _ hi =>
      have hnow : start ≤ e.1 := (h.server.starts _ (List.mem_of_getElem? hi)).trans hle
      obtain ⟨reply', hredis', hphase⟩ := h.reply hlookup hi hnow
      obtain ⟨server', heff', hshadow⟩ := htick.looked hi hphase
      rw [← hs'] at hshadow
      refine h.counterpart hentries hle' heff' hshadow ?_ hredis'
      rw [ha]
      rfl
  · have hnot : ∀ i reply, e.2 ≠ .lookup i reply := fun i reply hlookup => ha ⟨i, reply, hlookup⟩
    obtain ⟨a', server', heff', hshadow, hcase⟩ := heff.shadow htick hnot
    refine h.counterpart hentries hle' heff' hshadow ?_ ?_
    · rcases hcase with rfl | ⟨⟨i, hi⟩, j, rfl⟩
      · unfold setex
        rw [h.server.writes]
      · rw [hi]
        rfl
    · have hfound : Server.found a' = none := by
        rcases hcase with rfl | ⟨-, j, rfl⟩
        · exact Server.found_eq_none hnot
        · rfl
      intro p hp
      rw [hfound] at hp
      cases hp

/-- The shadow has been through a run over an empty Redis.

**Proof sketch.** Induction on the run: `Shadow.step`. -/
lemma shadow_exec {t₀ : ℚ} {es : List (ℚ × ServerAction)}
    (hrun : Machine.exec (CachedServer.step lib) (restarted args t₀ old) es = some s)
    (hredis : Machine.StepsSatisfy (CachedServer.step lib) (RedisExpires lib)
      (restarted args t₀ old) es) :
    ∃ fs t, Machine.exec (CachedServer.step lib) (new args t₀) fs = some t ∧
      Machine.StepsSatisfy (CachedServer.step lib) (RedisExpires lib) (new args t₀) fs ∧
      Shadow lib old s t := by
  refine Machine.exec_invariant_of_steps (I := fun s : CachedServer args =>
    ∃ fs t, Machine.exec (CachedServer.step lib) (new args t₀) fs = some t ∧
      Machine.StepsSatisfy (CachedServer.step lib) (RedisExpires lib) (new args t₀) fs ∧
      Shadow lib old s t) ?_ ⟨[], _, rfl, Machine.stepsSatisfy_nil _, shadow_restarted t₀⟩
    hredis hrun
  rintro s e s' ⟨fs, t, hfs, hall, hshadow⟩ hredis hstep
  obtain ⟨e', t', hstep', hredis', hshadow'⟩ := hshadow.step hredis hstep
  exact ⟨fs ++ [e'], t', Machine.exec_snoc_eq_some.mpr ⟨t, hfs, hstep'⟩,
    (Machine.stepsSatisfy_snoc hfs).mpr ⟨hall, hredis'⟩, hshadow'⟩

/-- The requests of the shadow are for the same texts. -/
lemma Shadow.texts (h : Shadow lib old s t) {req : Request} (hreq : req ∈ t.server.requests) :
    ∃ req' ∈ s.server.requests, req'.text = req.text := by
  obtain ⟨i, hi⟩ := List.mem_iff_getElem?.mp hreq
  have hlt : i < s.server.requests.length := by
    rw [← h.server.length]
    exact (List.getElem?_eq_some_iff.mp hi).1
  have hget := List.getElem?_eq_getElem hlt
  obtain ⟨q, hq, -⟩ := h.server.requests i _ _ _ hget
  refine ⟨_, List.getElem_mem hlt, ?_⟩
  rw [hi] at hq
  rw [Option.some.inj hq]
  rfl

/-- **What a restart forgets.** A server is started over a Redis with any entries in it, which no
one else writes to. Redis returns to a lookup nothing, an exception, or the entry that was written
last under its key, or was there before, at its deadline at the latest. The digests of the requested
texts do not collide, and `json.loads` undoes `json.dumps` on the rows that are computed. Then each
200 response of `/predict` carries the label and the score of a row that this server has computed
for its text; or of what an entry for its text held before the start, and then the request came at
the deadline of that entry at the latest.

**Proof sketch.** The shadow of the server has been through a run over an empty Redis
(`shadow_exec`), so its responses carry rows computed for their texts, and by the same batcher. A
request that the shadow does not answer has been answered from an old entry. -/
theorem restart_forgets (lib : Library) (args : BatcherArgs) (t₀ : ℚ)
    (old : String → Option RedisEntry) (es : List (ℚ × ServerAction)) (s : CachedServer args)
    (hrun : Machine.exec (CachedServer.step lib) (restarted args t₀ old) es = some s)
    (hredis : Machine.StepsSatisfy (CachedServer.step lib) (RedisExpires lib)
      (restarted args t₀ old) es)
    (hsha : ∀ p ∈ s.server.requests, ∀ q ∈ s.server.requests,
      lib.sha256 p.text = lib.sha256 q.text → p.text = q.text)
    (hjson : ∀ text row, s.server.batcher.RowFor text row → ∀ raw, lib.dumps row = some raw →
      lib.loads raw = some row) :
    ∀ (i : ℕ) req body, s.server.requests[i]? = some req → req.response = some (.ok body) →
      ∃ fields, dictGet fields "label" = some (.str body.label) ∧
        (dictGet fields "score").bind lib.floatField = some body.score ∧
        (s.server.batcher.RowFor req.text (.obj fields) ∨
          ∃ raw d, old (Cache.makeKey lib req.text) = some ⟨raw, d⟩ ∧
            lib.loads raw = some (.obj fields) ∧ req.start ≤ d) := by
  intro i req body hi hbody
  obtain ⟨fs, t, hfs, hall, hshadow⟩ := shadow_exec hrun hredis
  obtain ⟨hgs, hhonest⟩ := server_run hfs hall
  have hI := Server.integrity_exec hgs hhonest
  obtain ⟨-, bs, hbs⟩ := Server.batcher_run hgs
  obtain ⟨text, start, p⟩ := req
  obtain rfl : p = .answered (.ok body) := Request.response_eq_some_iff.mp hbody
  obtain ⟨q, hq, hphase⟩ := hshadow.server.requests i text start _ hi
  generalize hp : RequestPhase.answered (.ok body) = p at hphase
  cases hphase with
  | found v hv => cases hp
  | answered v now hv =>
    obtain ⟨fields, rfl, hlabel, hscore⟩ := respond_eq_ok (RequestPhase.answered.inj hp).symm
    obtain ⟨raw, d, hold, hloads, hd⟩ := hv
    exact ⟨fields, hlabel, hscore, .inr ⟨raw, d, hold, hloads, hd⟩⟩
  | same =>
    subst hp
    obtain ⟨v, now, hsource, hresp⟩ := hI.requests _ (List.mem_of_getElem? hq)
    have hrow := hI.row_of_source (flowInv_exec hbs) ?_ ?_ (List.mem_of_getElem? hq) hsource
    · obtain ⟨fields, rfl, hlabel, hscore⟩ := respond_eq_ok hresp
      rw [hshadow.server.batcher] at hrow
      exact ⟨fields, hlabel, hscore, .inl hrow⟩
    · intro x hx y hy hdigest
      obtain ⟨x', hx', hxt⟩ := hshadow.texts hx
      obtain ⟨y', hy', hyt⟩ := hshadow.texts hy
      rw [← hxt, ← hyt] at hdigest ⊢
      exact hsha x' hx' y' hy' hdigest
    · rw [hshadow.server.batcher]
      exact hjson

/-- A Redis with an entry for `good` that expires at time 100. -/
def goodEntry : String → Option RedisEntry := fun key =>
  if key = Cache.makeKey Server.goodLibrary "good" then some ⟨Server.goodRaw, 100⟩ else none

/-- A request for `good` is answered from the entry, and another one comes after it has expired. -/
def expiredRun : List (ℚ × ServerAction) :=
  [(0, .batcher .start), (10, .arrive "good"), (10, .lookup 0 (.ok (some Server.goodRaw))),
    (10, .resume 0), (200, .arrive "good"), (200, .lookup 1 (.ok none)), (200, .resume 1),
    (200, .batcher .collectFirst), (200, .batcher .loopTest), (200, .batcher .acquire),
    (200, .batcher .dispatch), (200, .batcher (.callPredictFn 0)),
    (200, .batcher (.finish 0 (.returned [Server.goodRow]))), (200, .complete 1)]

/-- The second response carries a row that has been computed. -/
theorem restart_forgets_expired :
    ∃ s, Machine.exec (CachedServer.step Server.goodLibrary)
        (restarted ⟨1, 0, 1, ⟨1, 1⟩⟩ 0 goodEntry) expiredRun = some s ∧
      (∃ req ∈ s.server.requests[0]?, req.response = some (.ok (Server.goodBody 0))) ∧
      ∃ req ∈ s.server.requests[1]?, req.response = some (.ok (Server.goodBody 0)) ∧
        ∃ fields, s.server.batcher.RowFor req.text (.obj fields) := by
  obtain ⟨s, hs, htexts, hfirst, req, hreq, hstart, hresp⟩ :
      ∃ s ∈ Machine.exec (CachedServer.step Server.goodLibrary)
          (restarted ⟨1, 0, 1, ⟨1, 1⟩⟩ 0 goodEntry) expiredRun,
        (∀ p ∈ s.server.requests, p.text = "good") ∧
        (∃ req ∈ s.server.requests[0]?, req.response = some (.ok (Server.goodBody 0))) ∧
        ∃ req ∈ s.server.requests[1]?, req.start = 200 ∧
          req.response = some (.ok (Server.goodBody 0)) := by
    decide +kernel
  obtain ⟨fields, -, -, hrow⟩ := restart_forgets Server.goodLibrary _ 0 goodEntry expiredRun s hs
    (by decide +kernel) (fun p hp q hq _ => (htexts p hp).trans (htexts q hq).symm)
    (fun _ row _ raw hd => Server.goodLibrary_loads hd) 1 req _ hreq hresp
  refine ⟨s, hs, hfirst, req, hreq, hresp, fields, ?_⟩
  rcases hrow with hrow | ⟨raw, d, hold, -, hd⟩
  · exact hrow
  · rw [htexts req (List.mem_of_getElem? hreq), goodEntry, if_pos rfl] at hold
    obtain ⟨-, rfl⟩ := RedisEntry.mk.inj (Option.some.inj hold)
    rw [hstart] at hd
    norm_num at hd

end CachedServer

end InferenceServer
