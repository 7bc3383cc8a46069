import InferenceServer.Machine.Threads
import InferenceServer.Python

set_option relaxedAutoImplicit false
set_option autoImplicit false

/-!
# The Redis client (`_client` in `app/cache.py`)

The threads that call `_client()` share the module-level singleton and the lock, and make their
steps in any order. Clients are numbered in the order in which `from_url` has built them.

## Main definitions

* `ClientModule`, `ClientPoint` — the shared variables, and where a thread stands in `_client`.
* `Client.next`, `Client.Rule` — the steps of a thread, and as rules.
* `Client.Kept`, `Client.At` — the invariant, and what a thread may assume at each point.
* `Client.retry` — a call that is not interrupted.

## Main results

* `Client.annotation` — the invariant and the assertions hold together.
* `Client.one_client` — one client for each process, and what an exception leaves behind.
-/

namespace InferenceServer

/-- `_client_singleton`, the thread that holds `_client_lock`, and the number of clients that
`from_url` has built. -/
structure ClientModule where
  singleton : Option ℕ
  lock : Option ℕ
  created : ℕ
  deriving DecidableEq, Repr

/-- Where a thread stands in `_client`. -/
inductive ClientPoint
  /-- `if _client_singleton is None` -/
  | firstRead
  /-- `with _client_lock` -/
  | acquire
  /-- `if _client_singleton is None`, under the lock -/
  | secondRead
  /-- `redis.Redis.from_url(...)` -/
  | fromUrl
  /-- `_client_singleton = ...` -/
  | assign (client : ℕ)
  /-- the end of the `with` block, with the exception that leaves it -/
  | release (exc : Option PyException)
  /-- `return _client_singleton` -/
  | finalRead
  | returned (client : Option ℕ)
  | raised (e : PyException)
  deriving DecidableEq, Repr

namespace Client

/-- The module after its import. -/
def imported : ClientModule := ⟨none, none, 0⟩

/-- The next step of thread `t`. The choice is what `from_url` does if the step is its call. -/
def next (t : ℕ) (s : ClientModule) :
    ClientPoint → Except PyException Unit → Option (ClientModule × ClientPoint)
  | .firstRead, _ => some (s, if s.singleton = none then .acquire else .finalRead)
  | .acquire, _ => if s.lock = none then some ({ s with lock := some t }, .secondRead) else none
  | .secondRead, _ => some (s, if s.singleton = none then .fromUrl else .release none)
  | .fromUrl, .ok () => some ({ s with created := s.created + 1 }, .assign s.created)
  | .fromUrl, .error e => some (s, .release (some e))
  | .assign client, _ => some ({ s with singleton := some client }, .release none)
  | .release exc, _ => some ({ s with lock := none }, (exc.map .raised).getD .finalRead)
  | .finalRead, _ => some (s, .returned s.singleton)
  | .returned _, _ => none
  | .raised _, _ => none

/-- The machine: any number of calls of `_client`, in any interleaving. -/
def step := Threads.step ClientPoint.firstRead next

/-- The steps as rules: what each of them requires and leaves. -/
inductive Rule (t : ℕ) (s : ClientModule) : ClientPoint → ClientModule → ClientPoint → Prop
  | unset (h : s.singleton = none) : Rule t s .firstRead s .acquire
  | set (h : s.singleton ≠ none) : Rule t s .firstRead s .finalRead
  | acquire (h : s.lock = none) : Rule t s .acquire { s with lock := some t } .secondRead
  | stillUnset (h : s.singleton = none) : Rule t s .secondRead s .fromUrl
  | setMeanwhile (h : s.singleton ≠ none) : Rule t s .secondRead s (.release none)
  | built : Rule t s .fromUrl { s with created := s.created + 1 } (.assign s.created)
  | failed (e : PyException) : Rule t s .fromUrl s (.release (some e))
  | assign (client : ℕ) : Rule t s (.assign client) { s with singleton := some client }
      (.release none)
  | leave : Rule t s (.release none) { s with lock := none } .finalRead
  | raise (e : PyException) : Rule t s (.release (some e)) { s with lock := none } (.raised e)
  | finalRead : Rule t s .finalRead s (.returned s.singleton)

variable {s s' : ClientModule} {p p' : ClientPoint} {t : ℕ} {choice : Except PyException Unit}

/-- Every step is by a rule.

**Proof sketch.** One case for each point: split the branches of `next`. -/
lemma next_rule (h : next t s p choice = some (s', p')) : Rule t s p s' p' := by
  cases p with
  | firstRead =>
    obtain ⟨rfl, rfl⟩ := Prod.mk.inj (Option.some.inj h)
    split_ifs with hs
    · exact .unset hs
    · exact .set hs
  | acquire =>
    simp only [next] at h
    split_ifs at h with hl
    obtain ⟨rfl, rfl⟩ := Prod.mk.inj (Option.some.inj h)
    exact .acquire hl
  | secondRead =>
    obtain ⟨rfl, rfl⟩ := Prod.mk.inj (Option.some.inj h)
    split_ifs with hs
    · exact .stillUnset hs
    · exact .setMeanwhile hs
  | fromUrl =>
    rcases choice with e | _
    · obtain ⟨rfl, rfl⟩ := Prod.mk.inj (Option.some.inj h)
      exact .failed e
    · obtain ⟨rfl, rfl⟩ := Prod.mk.inj (Option.some.inj h)
      exact .built
  | assign client =>
    obtain ⟨rfl, rfl⟩ := Prod.mk.inj (Option.some.inj h)
    exact .assign client
  | release exc =>
    obtain ⟨rfl, rfl⟩ := Prod.mk.inj (Option.some.inj h)
    cases exc with
    | none => exact .leave
    | some e => exact .raise e
  | finalRead =>
    obtain ⟨rfl, rfl⟩ := Prod.mk.inj (Option.some.inj h)
    exact .finalRead
  | returned client => cases h
  | raised e => cases h

/-! ## The invariant -/

/-- The singleton is the first client that was built, and while there is none and nobody holds the
lock, none has been built. -/
structure Kept (s : ClientModule) : Prop where
  first : ∀ client, s.singleton = some client → client = 0 ∧ s.created = 1
  none_built : s.singleton = none → s.lock = none → s.created = 0
  once : s.created ≤ 1

/-- What thread `t` may assume where it stands. -/
def At (t : ℕ) (s : ClientModule) : ClientPoint → Prop
  | .firstRead => True
  | .acquire => True
  | .secondRead => s.lock = some t ∧ (s.singleton = none → s.created = 0)
  | .fromUrl => s.lock = some t ∧ s.singleton = none ∧ s.created = 0
  | .assign client => s.lock = some t ∧ s.singleton = none ∧ client = 0 ∧ s.created = 1
  | .release none => s.lock = some t ∧ s.singleton = some 0
  | .release (some _) => s.lock = some t ∧ s.singleton = none ∧ s.created = 0
  | .finalRead => s.singleton = some 0
  | .returned client => client = some 0 ∧ s.singleton = some 0
  | .raised _ => True

/-- The points of the critical section. -/
def inCritical : ClientPoint → Bool
  | .secondRead => true
  | .fromUrl => true
  | .assign _ => true
  | .release _ => true
  | _ => false

/-- A thread in its critical section may assume that it holds the lock. -/
lemma At.lock (h : At t s p) (hp : inCritical p = true) : s.lock = some t := by
  cases p with
  | secondRead => exact h.1
  | fromUrl => exact h.1
  | assign client => exact h.1
  | release exc => cases exc <;> exact h.1
  | _ => cases hp

/-- A thread outside its critical section may assume at most that the singleton is set. -/
lemma At.of_not_critical (h : At t s p) (hp : inCritical p = false)
    (hs : s.singleton = some 0 → s'.singleton = some 0) : At t s' p := by
  cases p with
  | firstRead => trivial
  | acquire => trivial
  | finalRead => exact hs h
  | returned client => exact ⟨h.1, hs h.2⟩
  | raised e => trivial
  | _ => cases hp

namespace Rule

/-- What a step does to the variables: nothing, or the lock is not in another thread's hands and a
singleton that is set stays. -/
lemma effect (h : Rule t s p s' p') (hA : At t s p) :
    s' = s ∨
      (s.lock = none ∨ s.lock = some t) ∧ (s.singleton = some 0 → s'.singleton = some 0) := by
  cases h with
  | acquire hl => exact .inr ⟨.inl hl, id⟩
  | built => exact .inr ⟨.inr hA.1, id⟩
  | assign client =>
    obtain ⟨hl, -, rfl, -⟩ := hA
    exact .inr ⟨.inr hl, fun _ => rfl⟩
  | leave => exact .inr ⟨.inr hA.1, id⟩
  | raise e => exact .inr ⟨.inr hA.1, id⟩
  | _ => exact .inl rfl

/-- A step keeps the invariant. -/
lemma kept (h : Rule t s p s' p') (hK : Kept s) (hA : At t s p) : Kept s' := by
  cases h with
  | acquire hl =>
    refine ⟨hK.first, ?_, hK.once⟩
    rintro - ⟨⟩
  | built =>
    obtain ⟨hl, hs, hc⟩ := hA
    refine ⟨fun client hn => ?_, fun _ hn => ?_, by simp [hc]⟩
    · rw [hs] at hn
      cases hn
    · rw [hl] at hn
      cases hn
  | assign client =>
    obtain ⟨-, -, rfl, hc⟩ := hA
    refine ⟨fun client hn => ⟨(Option.some.inj hn).symm, hc⟩, ?_, hK.once⟩
    rintro ⟨⟩
  | leave =>
    refine ⟨hK.first, fun hn => ?_, hK.once⟩
    rw [hA.2] at hn
    cases hn
  | raise e => exact ⟨hK.first, fun _ _ => hA.2.2, hK.once⟩
  | _ => exact hK

/-- The thread may assume what belongs to its next point.

**Proof sketch.** One case for each rule; a singleton that is set is the first client
(`Kept.first`). -/
lemma atNext (h : Rule t s p s' p') (hK : Kept s) (hA : At t s p) : At t s' p' := by
  have hfirst : s.singleton ≠ none → s.singleton = some 0 := by
    intro hs
    obtain ⟨client, hc⟩ := Option.ne_none_iff_exists'.mp hs
    obtain ⟨rfl, -⟩ := hK.first client hc
    exact hc
  cases h with
  | unset hs => trivial
  | set hs => exact hfirst hs
  | acquire hl => exact ⟨rfl, fun hs => hK.none_built hs hl⟩
  | stillUnset hs => exact ⟨hA.1, hs, hA.2 hs⟩
  | setMeanwhile hs => exact ⟨hA.1, hfirst hs⟩
  | built =>
    obtain ⟨hl, hs, hc⟩ := hA
    exact ⟨hl, hs, hc, by simp [hc]⟩
  | failed e => exact hA
  | assign client =>
    obtain ⟨hl, -, rfl, -⟩ := hA
    exact ⟨hl, rfl⟩
  | leave => exact hA.2
  | raise e => trivial
  | finalRead => exact ⟨hA, hA⟩

/-- A thread that holds the lock after its step is in its critical section, and another one that
holds it has held it before: the lock is taken where the critical section begins, and released where
it ends. -/
lemma lock (h : Rule t s p s' p') (hp : s.lock = some t → inCritical p = true) :
    (s'.lock = some t → inCritical p' = true) ∧ ∀ u ≠ t, s'.lock = some u → s.lock = some u := by
  cases h with
  | unset hs => exact ⟨hp, fun _ _ hl => hl⟩
  | set hs => exact ⟨hp, fun _ _ hl => hl⟩
  | acquire hl => exact ⟨fun _ => rfl, fun u hu hl' => absurd (Option.some.inj hl').symm hu⟩
  | leave => exact ⟨fun hl => (nomatch hl), fun _ _ hl => (nomatch hl)⟩
  | raise e => exact ⟨fun hl => (nomatch hl), fun _ _ hl => (nomatch hl)⟩
  | finalRead => exact ⟨hp, fun _ _ hl => hl⟩
  | _ => exact ⟨fun _ => rfl, fun _ _ hl => hl⟩

end Rule

/-- **The invariant and the assertions hold together.**

**Proof sketch.** A step keeps them for its own thread (`Rule.kept`, `Rule.atNext`). For another
thread there is nothing to show unless the variables change; then that thread is not in its critical
section, or the lock would be in its hands (`Rule.effect`). -/
theorem annotation : Annotation ClientPoint.firstRead next Kept At where
  start _ _ _ := trivial
  invariant _ _ _ _ _ _ hK hA h := (next_rule h).kept hK hA
  sequential _ _ _ _ _ _ hK hA h := (next_rule h).atNext hK hA
  free t u s p q choice s' p' htu _ hA hAu h := by
    rcases (next_rule h).effect hA with rfl | ⟨hl, hs⟩
    · exact hAu
    · refine hAu.of_not_critical ?_ hs
      rw [← Bool.not_eq_true]
      intro hq
      rw [hAu.lock hq] at hl
      rcases hl with hl | hl
      · cases hl
      · exact htu (Option.some.inj hl).symm

/-! ## Runs -/

variable {st st' : Threads ClientModule ClientPoint}

/-- After every run the invariant and the assertions hold. -/
lemma holds_exec {es : List (ThreadEvent (Except PyException Unit))}
    (hrun : Machine.exec step (Threads.init imported) es = some st) :
    Annotation.Holds Kept At st := by
  refine annotation.exec ⟨?_, fun _ _ => rfl, Nat.zero_le 1⟩ hrun
  rintro client ⟨⟩

/-- The lock is held by a thread in its critical section. -/
def Held (st : Threads ClientModule ClientPoint) : Prop :=
  ∀ t, st.shared.lock = some t → ∃ p, st.points[t]? = some p ∧ inCritical p = true

/-- After every run, the lock is held by a thread in its critical section.

**Proof sketch.** A thread that moves holds the lock only in its critical section, and the others
stay where they are (`Rule.lock`). -/
lemma held_exec {es : List (ThreadEvent (Except PyException Unit))}
    (hrun : Machine.exec step (Threads.init imported) es = some st) : Held st := by
  refine Machine.exec_invariant (I := Held) ?_ (by rintro t ⟨⟩) hrun
  intro st e st' hH hstep u hu
  cases e with
  | call =>
    obtain rfl := Option.some.inj hstep
    obtain ⟨p, hp, hc⟩ := hH u hu
    exact ⟨p, List.getElem?_append_left (List.getElem?_eq_some_iff.mp hp).1 ▸ hp, hc⟩
  | move t choice =>
    obtain ⟨p, shared, q, hp, hnext, rfl⟩ := Threads.step_move.mp hstep
    have hcritical : st.shared.lock = some t → inCritical p = true := by
      intro hl
      obtain ⟨p', hp', hc⟩ := hH t hl
      obtain rfl := Option.some.inj (hp.symm.trans hp')
      exact hc
    obtain ⟨hself, hother⟩ := (next_rule hnext).lock hcritical
    by_cases hut : u = t
    · subst hut
      exact ⟨q, List.getElem?_set_self (List.getElem?_eq_some_iff.mp hp).1, hself hu⟩
    · obtain ⟨p', hp', hc⟩ := hH u (hother u hut hu)
      refine ⟨p', ?_, hc⟩
      rw [List.getElem?_set_ne (Ne.symm hut)]
      exact hp'

/-- A call of `_client` in thread `t` that no other thread interrupts, with a `from_url` that
succeeds. -/
def retry (t : ℕ) : List (ThreadEvent (Except PyException Unit)) :=
  .call :: List.replicate 7 (.move t (.ok ()))

/-- A call that finds no singleton and a free lock builds a client and returns it. -/
lemma exec_retry {points : List ClientPoint} (hs : s.singleton = none) (hl : s.lock = none) :
    Machine.exec step ⟨s, points⟩ (retry points.length) =
      some ⟨⟨some s.created, none, s.created + 1⟩,
        points ++ [.returned (some s.created)]⟩ := by
  obtain ⟨singleton, lock, created⟩ := s
  obtain rfl : singleton = none := hs
  obtain rfl : lock = none := hl
  simp [retry, List.replicate, Machine.exec_cons, step, Threads.step, next]

/-- **One Redis client for each process.** After every run of any number of threads, at most one
call of `from_url` has succeeded, and every call that has returned has returned the client that it
built. A `from_url` that raises changes nothing; its thread, whenever it goes on, leaves the
singleton unset and the lock free and raises the exception; and in every state like this a later
call can build the client and return it. The lock is held only by a thread in its critical section.

**Proof sketch.** The assertions at the points of the threads (`annotation`): what is known at
`returned`, at `fromUrl` and where an exception leaves the `with` block. -/
theorem one_client (es : List (ThreadEvent (Except PyException Unit)))
    (st : Threads ClientModule ClientPoint)
    (hrun : Machine.exec step (Threads.init imported) es = some st) :
    st.shared.created ≤ 1 ∧
    (∀ (t : ℕ) (client : Option ℕ), st.points[t]? = some (.returned client) →
      client = some 0 ∧ st.shared.singleton = some 0 ∧ st.shared.created = 1) ∧
    (∀ (t : ℕ) (e : PyException), st.points[t]? = some .fromUrl →
      ∃ st', step st (.move t (.error e)) = some st' ∧ st'.shared = st.shared ∧
        st'.shared.singleton = none ∧ st'.points[t]? = some (.release (some e))) ∧
    (∀ (t : ℕ) (e : PyException) (choice : Except PyException Unit),
      st.points[t]? = some (.release (some e)) →
      ∃ st', step st (.move t choice) = some st' ∧ st'.shared.singleton = none ∧
        st'.shared.lock = none ∧ st'.points[t]? = some (.raised e)) ∧
    (st.shared.singleton = none → st.shared.lock = none →
      ∃ st', Machine.exec step st (retry st.points.length) = some st' ∧
        st'.points[st.points.length]? = some (.returned (some 0))) ∧
    (∀ t, st.shared.lock = some t → ∃ p, st.points[t]? = some p ∧ inCritical p = true) := by
  obtain ⟨hK, hA⟩ := holds_exec hrun
  refine ⟨hK.once, ?_, ?_, ?_, ?_, held_exec hrun⟩
  · intro t client hp
    obtain ⟨hclient, hs⟩ := hA t _ hp
    exact ⟨hclient, hs, (hK.first 0 hs).2⟩
  · intro t e hp
    obtain ⟨-, hs, -⟩ := hA t _ hp
    refine ⟨⟨st.shared, st.points.set t (.release (some e))⟩,
      Threads.step_move.mpr ⟨_, _, _, hp, rfl, rfl⟩, rfl, hs, ?_⟩
    exact List.getElem?_set_self (List.getElem?_eq_some_iff.mp hp).1
  · intro t e choice hp
    obtain ⟨-, hs, -⟩ := hA t _ hp
    refine ⟨⟨{ st.shared with lock := none }, st.points.set t (.raised e)⟩,
      Threads.step_move.mpr ⟨_, _, _, hp, rfl, rfl⟩, hs, rfl, ?_⟩
    exact List.getElem?_set_self (List.getElem?_eq_some_iff.mp hp).1
  · intro hs hl
    refine ⟨_, exec_retry hs hl, ?_⟩
    rw [List.getElem?_concat_length, hK.none_built hs hl]

/-- Two threads: the first one finds no server, and the second one builds the client. -/
def twoCalls : List (ThreadEvent (Except PyException Unit)) :=
  [.call, .call, .move 0 (.ok ()), .move 1 (.ok ()), .move 0 (.ok ()), .move 0 (.ok ()),
    .move 0 (.error ⟨.other, "no server"⟩), .move 0 (.ok ()), .move 1 (.ok ()), .move 1 (.ok ()),
    .move 1 (.ok ()), .move 1 (.ok ()), .move 1 (.ok ()), .move 1 (.ok ())]

/-- The second of the two threads returns the one client. -/
theorem one_client_second :
    ∃ st, Machine.exec step (Threads.init imported) twoCalls = some st ∧
      st.points = [.raised ⟨.other, "no server"⟩, .returned (some 0)] ∧
      st.shared.singleton = some 0 ∧ st.shared.created = 1 := by
  obtain ⟨st, hrun, hpoints⟩ : ∃ st ∈ Machine.exec step (Threads.init imported) twoCalls,
      st.points = [.raised ⟨.other, "no server"⟩, .returned (some 0)] := by
    decide +kernel
  obtain ⟨-, hreturned, -⟩ := one_client twoCalls st hrun
  exact ⟨st, hrun, hpoints, (hreturned 1 (some 0) (by rw [hpoints]; rfl)).2⟩

end Client

end InferenceServer
