import InferenceServer.Server.Steps

set_option relaxedAutoImplicit false
set_option autoImplicit false

/-!
# The hit and miss counters

`cache.get` counts a hit before it decodes the string that Redis returned, `predict` tests the
decoded value once more, and FastAPI validates what becomes of it. The two counters are put side by
side with the lookups made and with the requests that were served from the cache.

## Main definitions

* `Cache.isClean`, `Cache.isUndecodable` — what a reply of Redis does to the counters.
* `Server.replies`, `Server.served`, `Server.abandoned` — the lookups, the requests that were served
  from what they found, and the texts for which a prediction was found that serves nobody.
* `Server.Booked` — the invariant: both counters as sums.

## Main results

* `Server.booked_exec` — the invariant holds after every run.
* `Server.cache_accounting` — when the counters are right.
* `Server.cache_accounting_undecodable` — when they are not.
-/

namespace InferenceServer

/-! ## One lookup -/

namespace Cache

/-- A string that counts as a hit decodes to a value that makes a response. -/
def isClean (lib : Library) : RedisReply → Bool
  | .ok (some raw) => raw = "" || (lib.loads raw).any (isPrediction lib)
  | _ => true

/-- A string that `json.loads` does not decode. -/
def isUndecodable (lib : Library) : RedisReply → Bool
  | .ok (some raw) => raw ≠ "" && (lib.loads raw).isNone
  | _ => false

/-- **What `get` counts**: a hit or a miss, and both if the string does not decode; and a hit for a
value that makes a response, or for a reply that is not clean.

**Proof sketch.** One case for each branch of `get`. -/
theorem get_counts (lib : Library) (m : CacheMetrics) (reply : RedisReply) :
    (get lib m reply).1.hits + (get lib m reply).1.misses =
      m.hits + m.misses + 1 + (isUndecodable lib reply).toNat ∧
    (get lib m reply).1.hits =
      m.hits + (isPrediction lib (get lib m reply).2).toNat + (!isClean lib reply).toNat := by
  cases reply with
  | error e =>
    simp only [get, isUndecodable, isClean, isPrediction]
    exact ⟨by simp; omega, by simp⟩
  | ok value =>
    cases value with
    | none =>
      simp only [get, isUndecodable, isClean, isPrediction]
      exact ⟨by simp; omega, by simp⟩
    | some raw =>
      simp only [get, isUndecodable, isClean]
      by_cases hr : raw = ""
      · simp only [hr, ne_eq, not_true_eq_false, if_false, isPrediction]
        exact ⟨by simp; omega, by simp⟩
      · rcases Option.eq_none_or_eq_some (lib.loads raw) with hl | ⟨v, hl⟩
        · simp only [hl, hr, ne_eq, not_false_eq_true, if_true, isPrediction]
          exact ⟨by simp; omega, by simp⟩
        · simp only [hl, hr, ne_eq, not_false_eq_true, if_true]
          refine ⟨by simp; omega, ?_⟩
          cases hv : isPrediction lib v <;> simp [hv]

end Cache

/-- The request has found a prediction in the cache that it will be answered from. -/
def Request.found (lib : Library) (req : Request) : Bool :=
  match req.phase with
  | .looked cached => isPrediction lib cached
  | _ => false

/-- A value is answered with 200 exactly if it makes a response. -/
lemma isOk_respond {lib : Library} {start now : ℚ} {v : Json} :
    (respond lib start now v).isOk = isPrediction lib v := by
  have hok : (∃ body, respond lib start now v = .ok body) ↔ Prediction lib v := respond_ok_iff
  rw [Bool.eq_iff_iff, isPrediction_iff, ← hok]
  cases respond lib start now v <;> simp [Response.isOk]

/-- A value that counts as false makes no response. -/
lemma isPrediction_of_not_truthy {lib : Library} {v : Json} (h : v.truthy = false) :
    isPrediction lib v = false := by
  rw [Bool.eq_false_iff, ne_eq, isPrediction_iff]
  intro hv
  rw [truthy_of_prediction hv] at h
  cases h

namespace Server

variable {args : BatcherArgs} {lib : Library} {s s' : Server args} {a : ServerAction}

/-! ## What an observer sees -/

/-- A lookup. -/
def replied (_ : Server args) (e : ℚ × ServerAction) (_ : Server args) : List RedisReply :=
  match e.2 with
  | .lookup _ reply => [reply]
  | .stray _ reply => [reply]
  | _ => []

/-- A request that goes on to a 200 response without a call of `batcher.predict`. -/
def servedAt (s : Server args) (e : ℚ × ServerAction) (s' : Server args) : List ℕ :=
  match e.2 with
  | .resume i =>
    if s'.batcher.calls.length = s.batcher.calls.length ∧
      (s'.requests[i]?.bind Request.response).any Response.isOk then [i] else []
  | _ => []

/-- A request that has found a prediction and is cancelled before it goes on, or a prediction that
is found after its request was cancelled. -/
def abandonedAt (lib : Library) (s : Server args) (e : ℚ × ServerAction) (_ : Server args) :
    List String :=
  match e.2 with
  | .abort i => ((s.requests[i]?.filter (Request.found lib)).map Request.text).toList
  | .stray j reply =>
    if isPrediction lib (Cache.get lib s.metrics reply).2 then s.strays[j]?.toList else []
  | _ => []

/-- The replies to the lookups of a run. -/
def replies (lib : Library) (args : BatcherArgs) (t₀ : ℚ) (es : List (ℚ × ServerAction)) :
    List RedisReply :=
  Machine.observe (step lib) replied (new args t₀) es

/-- The requests that a run serves from the cache, without a call of `batcher.predict`. -/
def served (lib : Library) (args : BatcherArgs) (t₀ : ℚ) (es : List (ℚ × ServerAction)) : List ℕ :=
  Machine.observe (step lib) servedAt (new args t₀) es

/-- The texts for which a prediction was found that serves nobody. -/
def abandoned (lib : Library) (args : BatcherArgs) (t₀ : ℚ) (es : List (ℚ × ServerAction)) :
    List String :=
  Machine.observe (step lib) (abandonedAt lib) (new args t₀) es

/-! ## The books -/

/-- Both counters as sums. -/
structure Booked (lib : Library) (s : Server args) (replies : List RedisReply)
    (served : List ℕ) (abandoned : List String) : Prop where
  total : s.metrics.hits + s.metrics.misses =
    replies.length + replies.countP (Cache.isUndecodable lib)
  hits : s.metrics.hits = served.length + abandoned.length +
    s.requests.countP (Request.found lib) + replies.countP fun reply => !Cache.isClean lib reply

/-- A request goes on. -/
lemma countP_found_setPhase (lib : Library) {i : ℕ} {old : Request} (phase : RequestPhase)
    (hi : s.requests[i]? = some old) :
    (s.setPhase i phase).requests.countP (Request.found lib) + (old.found lib).toNat =
      s.requests.countP (Request.found lib) +
        (Request.found lib { old with phase := phase }).toNat := by
  obtain ⟨hlt, he⟩ := List.getElem?_eq_some_iff.mp hi
  have hset : (s.setPhase i phase).requests = s.requests.set i { old with phase := phase } := by
    refine List.ext_getElem? fun j => ?_
    by_cases hij : i = j
    · rw [← hij, setPhase_getElem? phase hi, List.getElem?_set_self hlt]
    · rw [setPhase_getElem?_ne phase hij, List.getElem?_set_ne hij]
  have hpos : old.found lib = true → 0 < s.requests.countP (Request.found lib) := fun h =>
    List.countP_pos_iff.mpr ⟨old, List.mem_of_getElem? hi, h⟩
  rw [hset, List.countP_set hlt, he]
  cases hold : old.found lib with
  | false => cases Request.found lib { old with phase := phase } <;> simp
  | true =>
    have h1 := hpos hold
    cases Request.found lib { old with phase := phase } <;> simp <;> omega

/-- A list gets one more entry. -/
lemma countP_snoc {α : Type} (p : α → Bool) (l : List α) (x : α) :
    (l ++ [x]).countP p = l.countP p + (p x).toNat := by
  rw [List.countP_append, List.countP_singleton]
  cases p x <;> rfl

/-- Nothing is booked. -/
lemma Booked.keep {r : List RedisReply} {sv : List ℕ} {ab : List String}
    (hb : Booked lib s r sv ab) (hm : s'.metrics = s.metrics)
    (hr : s'.requests.countP (Request.found lib) = s.requests.countP (Request.found lib)) :
    Booked lib s' (r ++ []) (sv ++ []) (ab ++ []) := by
  simp only [List.append_nil]
  exact ⟨by rw [hm, hb.total], by rw [hm, hr, hb.hits]⟩

/-- The batcher logs a call of `predict`. -/
lemma length_calls_predict {b b' : InferenceBatcher args Json} {text : String}
    {r : Except PyException ℕ} (h : b.predict text = (b', r)) :
    b'.calls.length = b.calls.length + 1 := by
  unfold InferenceBatcher.predict at h
  split at h <;>
  · obtain ⟨rfl, -⟩ := Prod.mk.inj h
    simp

/-- **Every action keeps the books.**

**Proof sketch.** One case for each rule. A lookup counts as in `Cache.get_counts`, and leaves a
request that has found a prediction or one that has not, unless it is detached; the request goes on
to a 200 response without a call of the batcher, or is cancelled. -/
theorem Effect.booked (h : Effect lib s a s') {r : List RedisReply} {sv : List ℕ}
    {ab : List String} (hb : Booked lib s r sv ab) :
    Booked lib s' (r ++ replied s (s.now, a) s') (sv ++ servedAt s (s.now, a) s')
      (ab ++ abandonedAt lib s (s.now, a) s') := by
  have hgone : ∀ i, (∀ req, s.requests[i]? = some req → req.found lib = false) →
      abandonedAt lib s (s.now, .abort i) s' = [] := by
    intro i hn
    simp only [abandonedAt]
    cases hi : s.requests[i]? with
    | none => rfl
    | some req => simp [hn req hi]
  cases h with
  | arrive text =>
    refine hb.keep rfl ?_
    simp [Request.found]
  | lookup i text start reply hi =>
    have hmod := countP_found_setPhase lib (.looked (Cache.get lib s.metrics reply).2) hi
    obtain ⟨htotal, hhits⟩ := Cache.get_counts lib s.metrics reply
    simp only [replied, servedAt, abandonedAt, List.append_nil]
    refine ⟨?_, ?_⟩
    · rw [htotal, hb.total, countP_snoc, List.length_append, List.length_singleton]
      omega
    · rw [hhits, hb.hits, countP_snoc]
      simp only [Request.found, Bool.toNat_false, Nat.add_zero] at hmod
      dsimp only
      omega
  | hit i text start cached hi hc =>
    have hmod := countP_found_setPhase lib (.answered (respond lib start s.now cached)) hi
    simp only [Request.found, Bool.toNat_false, Nat.add_zero] at hmod
    have hafter := setPhase_getElem? (.answered (respond lib start s.now cached)) hi
    simp only [replied, servedAt, abandonedAt, List.append_nil, hafter, Option.bind_some,
      Request.response, Option.any_some, isOk_respond]
    cases hp : isPrediction lib cached with
    | false =>
      simp only [hp, Bool.toNat_false, Nat.add_zero] at hmod
      rw [if_neg (by simp), ← List.append_nil r, ← List.append_nil ab]
      exact hb.keep rfl hmod
    | true =>
      simp only [hp, Bool.toNat_true] at hmod
      refine ⟨hb.total, ?_⟩
      rw [if_pos ⟨rfl, rfl⟩, List.length_append, List.length_singleton]
      show s.metrics.hits = _
      rw [hb.hits]
      omega
  | reject i text start cached b e hi hc hp =>
    have hmod := countP_found_setPhase lib (.answered (failure e)) hi
    have hlen := length_calls_predict hp
    simp only [Request.found, isPrediction_of_not_truthy hc, Bool.toNat_false, Nat.add_zero] at hmod
    simp only [replied, servedAt, abandonedAt, hlen]
    simp only [Nat.add_eq_left, one_ne_zero, false_and, if_false]
    exact hb.keep rfl hmod
  | accept i text start cached b f hi hc hp =>
    have hmod := countP_found_setPhase lib (.awaiting f) hi
    have hlen := length_calls_predict hp
    simp only [Request.found, isPrediction_of_not_truthy hc, Bool.toNat_false, Nat.add_zero] at hmod
    simp only [replied, servedAt, abandonedAt, hlen]
    simp only [Nat.add_eq_left, one_ne_zero, false_and, if_false]
    exact hb.keep rfl hmod
  | result i text start f row hi hf =>
    have hmod := countP_found_setPhase lib (.answered (respond lib start s.now row)) hi
    exact hb.keep rfl hmod
  | failed i text start f e hi hf =>
    have hmod := countP_found_setPhase lib (.answered (failure e)) hi
    exact hb.keep rfl hmod
  | abortWaiting i text start f hi =>
    have hmod := countP_found_setPhase lib .aborted hi
    rw [hgone i fun req hreq => by rw [Option.some.inj (hreq.symm.trans hi)]; rfl]
    exact hb.keep rfl hmod
  | abort i req hi hp =>
    have hmod := countP_found_setPhase lib .aborted hi
    have hnot : Request.found lib { req with phase := .aborted } = false := rfl
    rw [hnot] at hmod
    by_cases hf : req.found lib = true
    · have hnew : abandonedAt lib s (s.now, .abort i) (s.setPhase i .aborted) = [req.text] := by
        simp [abandonedAt, hi, hf]
      simp only [replied, servedAt, List.append_nil, hnew]
      simp only [hf, Bool.toNat_true, Bool.toNat_false, Nat.add_zero] at hmod
      refine ⟨hb.total, ?_⟩
      show s.metrics.hits = _
      rw [hb.hits, ← hmod, List.length_append, List.length_singleton]
      omega
    · rw [Bool.not_eq_true] at hf
      rw [hgone i fun req' hreq => by rw [Option.some.inj (hreq.symm.trans hi)]; exact hf]
      simp only [hf, Bool.toNat_false, Nat.add_zero] at hmod
      exact hb.keep rfl hmod
  | detach i text start hi =>
    have hmod := countP_found_setPhase lib .aborted hi
    exact hb.keep rfl hmod
  | stray j reply hj =>
    obtain ⟨htotal, hhits⟩ := Cache.get_counts lib s.metrics reply
    have hnew : (if isPrediction lib (Cache.get lib s.metrics reply).2 then s.strays[j]?.toList
        else []).length = (isPrediction lib (Cache.get lib s.metrics reply).2).toNat := by
      rw [List.getElem?_eq_getElem hj]
      cases isPrediction lib (Cache.get lib s.metrics reply).2 <;> rfl
    simp only [replied, servedAt, abandonedAt, List.append_nil]
    refine ⟨?_, ?_⟩
    · rw [htotal, hb.total, countP_snoc, List.length_append, List.length_singleton]
      omega
    · rw [hhits, hb.hits, countP_snoc, List.length_append, hnew]
      dsimp only
      omega
  | write j w cmd hj hc => exact hb.keep rfl rfl
  | drop j w effective hj hd => exact hb.keep rfl rfl
  | batcher a b ha hb' => exact hb.keep rfl rfl

/-- **The invariant holds after every run.** -/
theorem booked_exec {t₀ : ℚ} {es : List (ℚ × ServerAction)}
    (hrun : Machine.exec (step lib) (new args t₀) es = some s) :
    Booked lib s (replies lib args t₀ es) (served lib args t₀ es) (abandoned lib args t₀ es) := by
  refine Machine.exec_induction (P := fun es (s : Server args) =>
    Booked lib s (replies lib args t₀ es) (served lib args t₀ es) (abandoned lib args t₀ es))
    ⟨rfl, rfl⟩ ?_ es s hrun
  intro es e s s' hs ih hstep
  obtain ⟨-, heff⟩ := step_effect hstep
  have hb : Booked lib { s with now := e.1 } (replies lib args t₀ es) (served lib args t₀ es)
      (abandoned lib args t₀ es) := ⟨ih.total, ih.hits⟩
  rw [replies, served, abandoned, Machine.observe_snoc hs hstep, Machine.observe_snoc hs hstep,
    Machine.observe_snoc hs hstep]
  exact heff.booked hb

/-- A string that does not decode is not clean. -/
lemma isClean_of_isUndecodable {reply : RedisReply} (h : Cache.isUndecodable lib reply = true) :
    Cache.isClean lib reply = false := by
  unfold Cache.isUndecodable at h
  split at h
  · rename_i raw
    simp only [ne_eq, decide_not, Bool.and_eq_true, Bool.not_eq_true', decide_eq_false_iff_not,
      Option.isNone_iff_eq_none] at h
    simp [Cache.isClean, h.1, h.2]
  · cases h

/-- **Cache hit/miss accounting.** After every run the counters have together counted the lookups,
and the hits are the requests that were served from the cache, exactly when every reply was clean,
and every request whose lookup found a prediction has gone on with it: none is about to, and none
was cancelled before.

**Proof sketch.** The books (`booked_exec`): the hits exceed the requests served by what is not
clean, abandoned or about to go on, and nothing there is negative. -/
theorem cache_accounting (lib : Library) (args : BatcherArgs) (t₀ : ℚ)
    (es : List (ℚ × ServerAction)) (s : Server args)
    (hrun : Machine.exec (step lib) (new args t₀) es = some s) :
    (s.metrics.hits + s.metrics.misses = (replies lib args t₀ es).length ∧
      s.metrics.hits = (served lib args t₀ es).length) ↔
    (∀ reply ∈ replies lib args t₀ es, Cache.isClean lib reply = true) ∧
      (∀ req ∈ s.requests, req.found lib = false) ∧ abandoned lib args t₀ es = [] := by
  have hb := booked_exec hrun
  constructor
  · rintro ⟨-, hhits⟩
    have hsum := hb.hits
    have hclean : (replies lib args t₀ es).countP (fun reply => !Cache.isClean lib reply) = 0 := by
      omega
    have hfound : s.requests.countP (Request.found lib) = 0 := by omega
    have habandoned : (abandoned lib args t₀ es).length = 0 := by omega
    refine ⟨?_, ?_, List.length_eq_zero_iff.mp habandoned⟩
    · simpa using List.countP_eq_zero.mp hclean
    · simpa using List.countP_eq_zero.mp hfound
  · rintro ⟨hclean, hfound, habandoned⟩
    have hzero : (replies lib args t₀ es).countP (fun reply => !Cache.isClean lib reply) = 0 :=
      List.countP_eq_zero.mpr fun reply hreply => by simp [hclean reply hreply]
    have hwaiting : s.requests.countP (Request.found lib) = 0 :=
      List.countP_eq_zero.mpr fun req hreq => by simp [hfound req hreq]
    have hdecodes : (replies lib args t₀ es).countP (Cache.isUndecodable lib) = 0 := by
      refine List.countP_eq_zero.mpr fun reply hreply hu => ?_
      have hunclean := isClean_of_isUndecodable hu
      rw [hclean reply hreply] at hunclean
      cases hunclean
    have htotal := hb.total
    have hhits := hb.hits
    rw [habandoned, List.length_nil] at hhits
    omega

/-- One lookup, and the request goes on. -/
def lookupRun (reply : RedisReply) : List (ℚ × ServerAction) :=
  [(0, .arrive "good"), (0, .lookup 0 reply), (0, .resume 0)]

/-- A row, encoded. -/
def rowText : String := "\x7b\"label\": \"POSITIVE\", \"score\": 1.0\x7d"

/-- What `json.loads` makes of this row, of `0` and of `[1]`. -/
def smallLoads (raw : String) : Option Json :=
  if raw = rowText then some (.obj [("label", .str "POSITIVE"), ("score", .float (.finite 1))])
  else if raw = "0" then some (.int 0)
  else if raw = "[1]" then some (.arr [.int 1])
  else none

/-- A library that decodes these strings. -/
def smallLibrary : Library := .plain id (fun _ => none) smallLoads

/-- One lookup that finds a row: one hit, no miss, and one request served. -/
theorem cache_accounting_hit :
    ∃ s : Server ⟨1, 0, 1, ⟨1, 1⟩⟩,
      Machine.exec (step smallLibrary) (new ⟨1, 0, 1, ⟨1, 1⟩⟩ 0)
        (lookupRun (.ok (some rowText))) = some s ∧
      s.metrics.hits = (served smallLibrary ⟨1, 0, 1, ⟨1, 1⟩⟩ 0
        (lookupRun (.ok (some rowText)))).length := by
  obtain ⟨s, hs, hfound, hclean, habandoned⟩ :
      ∃ s ∈ Machine.exec (step smallLibrary) (new ⟨1, 0, 1, ⟨1, 1⟩⟩ 0)
          (lookupRun (.ok (some rowText))),
        (∀ req ∈ s.requests, req.found smallLibrary = false) ∧
        (∀ reply ∈ replies smallLibrary ⟨1, 0, 1, ⟨1, 1⟩⟩ 0 (lookupRun (.ok (some rowText))),
          Cache.isClean smallLibrary reply = true) ∧
        abandoned smallLibrary ⟨1, 0, 1, ⟨1, 1⟩⟩ 0 (lookupRun (.ok (some rowText))) = [] := by
    decide +kernel
  exact ⟨s, hs, ((cache_accounting smallLibrary _ 0 _ s hs).mpr
    ⟨hclean, hfound, habandoned⟩).2⟩

/-- **The counters are wrong** after one lookup: for a string that does not decode they count both a
hit and a miss; for a value that counts as false a hit, though the request goes to the batcher; and
for a value that makes no response a hit, though the request is answered with 500. -/
theorem cache_accounting_undecodable :
    (∃ s, Machine.exec (step smallLibrary) (new ⟨1, 0, 1, ⟨1, 1⟩⟩ 0)
        (lookupRun (.ok (some "not json"))) = some s ∧
      (replies smallLibrary ⟨1, 0, 1, ⟨1, 1⟩⟩ 0 (lookupRun (.ok (some "not json")))).length = 1 ∧
      s.metrics.hits + s.metrics.misses = 2) ∧
    (∃ s, Machine.exec (step smallLibrary) (new ⟨1, 0, 1, ⟨1, 1⟩⟩ 0)
        (lookupRun (.ok (some "0"))) = some s ∧
      (served smallLibrary ⟨1, 0, 1, ⟨1, 1⟩⟩ 0 (lookupRun (.ok (some "0")))).length = 0 ∧
      s.metrics.hits = 1) ∧
    (∃ s, Machine.exec (step smallLibrary) (new ⟨1, 0, 1, ⟨1, 1⟩⟩ 0)
        (lookupRun (.ok (some "[1]"))) = some s ∧
      (served smallLibrary ⟨1, 0, 1, ⟨1, 1⟩⟩ 0 (lookupRun (.ok (some "[1]")))).length = 0 ∧
      s.metrics.hits = 1) := by
  decide +kernel

end Server

end InferenceServer
