import InferenceServer.Server.Integrity

set_option relaxedAutoImplicit false
set_option autoImplicit false

/-!
# The expiry of cached answers

`SETEX` stores an entry for `TTL` seconds. What Redis does with it is not modelled: it may lose
entries at any time, and its replies are part of the events. What is assumed of the replies is
stated with a book of the entries that the server has written.

## Main definitions

* `CachedServer` — the server, and the book of its entries.
* `CachedServer.step` — the machine.
* `CachedServer.RedisExpires` — what is assumed of Redis: a string that it returns is the entry
  written last, and has not expired.
* `CachedServer.Consistent` — the invariant: the book agrees with what the server knows.

## Main results

* `CachedServer.setex_eq_some`, `CachedServer.entriesAfter_cases` — what a step writes, and where an
  entry comes from.
* `CachedServer.server_run` — such a Redis is honest in the sense of `Server/Integrity.lean`.

## Design

The time of a lookup or of a write is the time at which Redis executes the command. Redis answers
with an entry at its deadline, and not later.
-/

namespace InferenceServer

open InferenceBatcher

/-- What a `SETEX` stores: a value, and the last time at which it may be read. -/
structure RedisEntry where
  value : String
  deadline : ℚ
  deriving DecidableEq, Repr

/-- The server, and the entry that was written last under each key. -/
structure CachedServer (args : BatcherArgs) where
  server : Server args
  entries : String → Option RedisEntry

namespace CachedServer

variable {args : BatcherArgs} (lib : Library)

/-- The server after its start, with an empty Redis. -/
def new (args : BatcherArgs) (now : ℚ) : CachedServer args := ⟨.new args now, fun _ => none⟩

/-- The `SETEX` that an action makes Redis execute. -/
def setex (s : CachedServer args) : ServerAction → Option SetEx
  | .write j true => s.server.writes[j]?.bind fun w => Cache.set lib w.text w.result
  | _ => none

/-- The book after an action at its time. -/
def entriesAfter (s : CachedServer args) (e : ℚ × ServerAction) : String → Option RedisEntry :=
  match s.setex lib e.2 with
  | some cmd => fun key => if key = cmd.key then some ⟨cmd.value, e.1 + cmd.ttl⟩ else s.entries key
  | none => s.entries

/-- The machine: the server goes on, and its writes are entered in the book. -/
def step (s : CachedServer args) (e : ℚ × ServerAction) : Option (CachedServer args) :=
  (s.server.step lib e).map fun server => ⟨server, s.entriesAfter lib e⟩

/-- A string that Redis returns to a lookup is the entry that was written last under its key, at its
deadline at the latest. -/
def RedisExpires (s : CachedServer args) (e : ℚ × ServerAction) : Prop :=
  ∀ p ∈ Server.found e.2, ∀ req ∈ s.server.requests[p.1]?,
    ∃ entry ∈ s.entries (Cache.makeKey lib req.text), entry.value = p.2 ∧ e.1 ≤ entry.deadline

instance (s : CachedServer args) (e : ℚ × ServerAction) : Decidable (RedisExpires lib s e) :=
  inferInstanceAs (Decidable (∀ p ∈ Server.found e.2, _))

variable {lib : Library} {s s' : CachedServer args} {e : ℚ × ServerAction} {a : ServerAction}

/-- A step is one of the server. -/
lemma step_eq_some : step lib s e = some s' ↔
    s.server.step lib e = some s'.server ∧ s'.entries = s.entriesAfter lib e := by
  rw [step, Option.map_eq_some_iff]
  constructor
  · rintro ⟨server, hserver, rfl⟩
    exact ⟨hserver, rfl⟩
  · rintro ⟨hserver, hentries⟩
    exact ⟨s'.server, hserver, by rw [← hentries]⟩

/-- A run is one of the server. -/
lemma server_exec {es : List (ℚ × ServerAction)} (hrun : Machine.exec (step lib) s es = some s') :
    Machine.exec (Server.step lib) s.server es = some s'.server := by
  have hstep : ∀ (s : CachedServer args) e s' t, t = s.server → step lib s e = some s' →
      ∃ t', Server.step lib t (id e) = some t' ∧ t' = s'.server := by
    rintro s e s' t rfl hs
    exact ⟨s'.server, (step_eq_some.mp hs).1, rfl⟩
  obtain ⟨t, ht, rfl⟩ := Machine.exec_simulates hstep rfl hrun
  rwa [List.map_id] at ht

/-! ## What is written -/

/-- Only a write makes Redis execute something. -/
lemma setex_eq_some {cmd : SetEx} :
    s.setex lib a = some cmd ↔ ∃ j w, a = .write j true ∧ s.server.writes[j]? = some w ∧
      Cache.set lib w.text w.result = some cmd := by
  constructor
  · intro h
    unfold setex at h
    split at h
    · rename_i j
      obtain ⟨w, hw, hcmd⟩ := Option.bind_eq_some_iff.mp h
      exact ⟨j, w, rfl, hw, hcmd⟩
    · cases h
  · rintro ⟨j, w, rfl, hw, hcmd⟩
    simp only [setex]
    rw [hw, Option.bind_some, hcmd]

/-- What is stored under a key after a step of the server. -/
lemma stored_after {server : Server args} (h : s.server.step lib e = some server) :
    server.stored = match s.setex lib e.2 with
      | some cmd => fun key => if key = cmd.key then some cmd.value else s.server.stored key
      | none => s.server.stored := by
  obtain ⟨-, heff⟩ := Server.step_effect h
  generalize e.2 = a at heff
  cases heff with
  | write j w cmd hj hc =>
    have hset : s.setex lib (.write j true) = some cmd := setex_eq_some.mpr ⟨j, w, rfl, hj, hc⟩
    rw [hset]
  | drop j w effective hj hd =>
    have hset : s.setex lib (.write j effective) = none := by
      rw [Option.eq_none_iff_forall_ne_some]
      intro cmd hcmd
      obtain ⟨j', w', hwrite, hj', hc⟩ := setex_eq_some.mp hcmd
      obtain ⟨rfl, rfl⟩ := ServerAction.write.inj hwrite
      obtain rfl : w = w' := Option.some.inj (hj.symm.trans hj')
      rcases hd with hd | hd
      · cases hd
      · cases hd.symm.trans hc
    rw [hset]
  | _ => rfl

/-- The entry that has just been written. -/
lemma entriesAfter_self {cmd : SetEx} (h : s.setex lib e.2 = some cmd) :
    s.entriesAfter lib e cmd.key = some ⟨cmd.value, e.1 + cmd.ttl⟩ := by
  simp [entriesAfter, h]

/-- The entries under keys that are not written. -/
lemma entriesAfter_of_ne {key : String} (h : ∀ cmd, s.setex lib e.2 = some cmd → cmd.key ≠ key) :
    s.entriesAfter lib e key = s.entries key := by
  unfold entriesAfter
  cases hset : s.setex lib e.2 with
  | none => rfl
  | some cmd =>
    dsimp only
    rw [if_neg (h cmd hset).symm]

/-- An entry after an action has been written by it, or was there and is still. -/
lemma entriesAfter_cases {key : String} {entry : RedisEntry}
    (h : s.entriesAfter lib e key = some entry) :
    (∃ cmd, s.setex lib e.2 = some cmd ∧ cmd.key = key ∧
        entry = ⟨cmd.value, e.1 + cmd.ttl⟩) ∨
      s.entries key = some entry ∧ ∀ cmd, s.setex lib e.2 = some cmd → cmd.key ≠ key := by
  by_cases hw : ∃ cmd, s.setex lib e.2 = some cmd ∧ cmd.key = key
  · obtain ⟨cmd, hset, rfl⟩ := hw
    rw [entriesAfter_self hset] at h
    exact .inl ⟨cmd, hset, rfl, (Option.some.inj h).symm⟩
  · have hne : ∀ cmd, s.setex lib e.2 = some cmd → cmd.key ≠ key :=
      fun cmd hset hkey => hw ⟨cmd, hset, hkey⟩
    rw [entriesAfter_of_ne hne] at h
    exact .inr ⟨h, hne⟩

/-! ## An honest Redis -/

/-- A lookup that sees a string sees the entry for its text. -/
lemma RedisExpires.entry {t : ℚ} {i : ℕ} {raw : String} {req : Request}
    (h : RedisExpires lib s (t, .lookup i (.ok (some raw))))
    (hreq : s.server.requests[i]? = some req) :
    ∃ d, s.entries (Cache.makeKey lib req.text) = some ⟨raw, d⟩ ∧ t ≤ d := by
  obtain ⟨entry, hentry, hvalue, hd⟩ := h (i, raw) rfl req hreq
  obtain rfl : entry.value = raw := hvalue
  exact ⟨entry.deadline, hentry, hd⟩

/-- Each entry in the book is what has been stored last under its key. -/
def Consistent (s : CachedServer args) : Prop :=
  ∀ key entry, s.entries key = some entry → s.server.stored key = some entry.value

/-- A step keeps it so.

**Proof sketch.** An entry is the one that has just been written, in the book as in `stored`, or it
was there under a key that has not been written. -/
lemma Consistent.step (hc : Consistent s) (h : step lib s e = some s') : Consistent s' := by
  intro key entry hkey
  obtain ⟨hserver, hentries⟩ := step_eq_some.mp h
  rw [hentries] at hkey
  rw [stored_after hserver]
  rcases entriesAfter_cases hkey with ⟨cmd, hset, rfl, rfl⟩ | ⟨hold, hne⟩
  · simp [hset]
  · cases hset : s.setex lib e.2 with
    | none => exact hc key entry hold
    | some cmd =>
      dsimp only
      rw [if_neg (hne cmd hset).symm]
      exact hc key entry hold

/-- A Redis that honours `SETEX` is honest. -/
lemma RedisExpires.honest (h : RedisExpires lib s e) (hc : Consistent s) :
    Server.RedisHonest lib s.server e := by
  intro p hp req hreq
  obtain ⟨entry, hentry, hvalue, -⟩ := h p hp req hreq
  rw [hc _ entry hentry, hvalue]

/-- **The server runs as one with an honest Redis.**

**Proof sketch.** Induction on the run: what a lookup sees is in the book (`RedisExpires.entry`),
and so has been stored last (`Consistent`). -/
theorem server_run {t₀ : ℚ} {es : List (ℚ × ServerAction)}
    (hrun : Machine.exec (step lib) (new args t₀) es = some s)
    (hredis : Machine.StepsSatisfy (step lib) (RedisExpires lib) (new args t₀) es) :
    Machine.exec (Server.step lib) (.new args t₀) es = some s.server ∧
      Machine.StepsSatisfy (Server.step lib) (Server.RedisHonest lib) (.new args t₀) es := by
  have hboth : Consistent s ∧
      Machine.StepsSatisfy (Server.step lib) (Server.RedisHonest lib) (.new args t₀) es := by
    refine Machine.exec_induction (P := fun es s =>
      Machine.StepsSatisfy (step lib) (RedisExpires lib) (new args t₀) es → Consistent s ∧
        Machine.StepsSatisfy (Server.step lib) (Server.RedisHonest lib) (.new args t₀) es)
      (fun _ => ⟨fun key entry hkey => ?_, Machine.stepsSatisfy_nil _⟩) ?_ es s hrun hredis
    · cases hkey
    · intro es e s s' hs ih hstep hredis
      obtain ⟨hc, hhonest⟩ := ih (hredis.of_prefix (List.prefix_append es [e]))
      refine ⟨hc.step hstep, (Machine.stepsSatisfy_snoc (server_exec hs)).mpr ⟨hhonest, ?_⟩⟩
      exact (hredis.last hs).honest hc
  exact ⟨server_exec hrun, hboth.2⟩

end CachedServer

end InferenceServer
