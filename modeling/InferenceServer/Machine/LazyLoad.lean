import InferenceServer.Machine.Progress
import InferenceServer.Machine.Threads
import Mathlib.Logic.Function.Basic

set_option relaxedAutoImplicit false
set_option autoImplicit false

/-!
# Loading on first use, without a lock

A module has a few slots, empty at first. A routine that needs them tests the last one; where it is
empty, it builds the resources in order and assigns each to its slot. Then it reads slots. Any
number of threads do so at once, and nothing keeps two of them from building the same resource.

## Main definitions

* `Loader` — the number of slots, and whether a test that may raise comes before the first one.
* `LazySlots`, `LoadPoint` — the shared variables, and where a thread stands.
* `Loader.next` — the steps of a thread.

## Main results

* `Loader.annotated`, `Loader.reads_some` — no thread reads an empty slot, in any interleaving.
* `Loader.exec_loaded` — once all is loaded, nothing is built or assigned any more.
* `Loader.exists_load` — a call that is not interrupted loads all, whatever has failed before.
-/

/-- A module that loads `resources` resources on first use. -/
structure Loader where
  resources : ℕ
  guarded : Bool

/-- The slots, and the number of resources that have been built so far. -/
structure LazySlots where
  slots : ℕ → Option ℕ
  built : ℕ

/-- Where a thread stands. -/
inductive LoadPoint (ε : Type*)
  /-- the test of the last slot -/
  | check
  /-- a test that may raise -/
  | guard
  /-- the constructor of resource `i` -/
  | build (i : ℕ)
  /-- the assignment of resource `r` to slot `i` -/
  | assign (i r : ℕ)
  /-- what has been read, and the slots that are to be read -/
  | read (got : List (Option ℕ)) (rest : List ℕ)
  | raised (e : ε)
  deriving DecidableEq, Repr

namespace LazySlots

/-- Nothing has been loaded. -/
def empty : LazySlots := ⟨fun _ => none, 0⟩

/-- The assignment of a slot. -/
def assign (s : LazySlots) (i r : ℕ) : LazySlots :=
  { s with slots := Function.update s.slots i (some r) }

/-- The slots below `i` are set, to resources that have been built. -/
def Filled (s : LazySlots) (i : ℕ) : Prop := ∀ j < i, ∃ r, s.slots j = some r ∧ r < s.built

/-- What is set stays set. -/
def Grows (s s' : LazySlots) : Prop :=
  s.built ≤ s'.built ∧ ∀ i r, s.slots i = some r → r < s.built →
    ∃ r', s'.slots i = some r' ∧ r' < s'.built

variable {s s' : LazySlots} {i : ℕ}

lemma Grows.refl (s : LazySlots) : Grows s s := ⟨Nat.le_refl _, fun _ r h hr => ⟨r, h, hr⟩⟩

/-- Slots that are filled stay so. -/
lemma Filled.mono (h : s.Filled i) (hg : s.Grows s') : s'.Filled i := by
  intro j hj
  obtain ⟨r, hr, hb⟩ := h j hj
  exact hg.2 j r hr hb

/-- One more resource has been built. -/
lemma grows_build (s : LazySlots) : s.Grows { s with built := s.built + 1 } :=
  ⟨Nat.le_succ _, fun _ r h hr => ⟨r, h, Nat.lt_succ_of_lt hr⟩⟩

/-- A slot is assigned a resource that has been built. -/
lemma grows_assign {r : ℕ} (hr : r < s.built) : s.Grows (s.assign i r) := by
  refine ⟨Nat.le_refl _, fun j r' hj hr' => ?_⟩
  by_cases hji : j = i
  · exact ⟨r, by simp [assign, hji], hr⟩
  · exact ⟨r', by simpa [assign, hji] using hj, hr'⟩

/-- After the assignment of slot `i` the slots up to it are filled. -/
lemma Filled.assign {r : ℕ} (h : s.Filled i) (hr : r < s.built) :
    (s.assign i r).Filled (i + 1) := by
  intro j hj
  by_cases hji : j = i
  · exact ⟨r, by simp [LazySlots.assign, hji], hr⟩
  · exact (h.mono (grows_assign hr)) j (by omega)

end LazySlots

namespace Loader

open LazySlots

variable {ε : Type*}

/-- Where a thread begins to load. -/
def first (l : Loader) : LoadPoint ε := if l.guarded then .guard else .build 0

/-- The next step of thread `t`, which needs the slots `needs t`. The choice is what a test or a
constructor does, if the step is one. -/
def next (l : Loader) (needs : ℕ → List ℕ) (t : ℕ) (s : LazySlots) :
    LoadPoint ε → Except ε Unit → Option (LazySlots × LoadPoint ε)
  | .check, _ =>
    some (s, if (s.slots (l.resources - 1)).isSome then .read [] (needs t) else l.first)
  | .guard, .ok () => some (s, .build 0)
  | .guard, .error e => some (s, .raised e)
  | .build i, .ok () => some ({ s with built := s.built + 1 }, .assign i s.built)
  | .build _, .error e => some (s, .raised e)
  | .assign i r, _ =>
    some (s.assign i r, if i + 1 < l.resources then .build (i + 1) else .read [] (needs t))
  | .read got (i :: rest), _ => some (s, .read (got ++ [s.slots i]) rest)
  | .read _ [], _ => none
  | .raised _, _ => none

/-- The machine: any number of threads, in any interleaving. -/
def step (l : Loader) (needs : ℕ → List ℕ) :
    Threads LazySlots (LoadPoint ε) → ThreadEvent (Except ε Unit) →
      Option (Threads LazySlots (LoadPoint ε)) :=
  Threads.step LoadPoint.check (l.next needs)

variable {l : Loader} {needs : ℕ → List ℕ} {s s' : LazySlots} {p p' : LoadPoint ε} {t : ℕ}
  {choice : Except ε Unit}

/-! ## No thread reads an empty slot -/

/-- The invariant: once the last slot is set, all are. -/
def Kept (l : Loader) (s : LazySlots) : Prop :=
  (s.slots (l.resources - 1)).isSome = true → s.Filled l.resources

/-- What a thread may assume where it stands. -/
def At (l : Loader) (needs : ℕ → List ℕ) (t : ℕ) (s : LazySlots) : LoadPoint ε → Prop
  | .check => True
  | .guard => True
  | .build i => i < l.resources ∧ s.Filled i
  | .assign i r => i < l.resources ∧ s.Filled i ∧ r < s.built
  | .read got rest => s.Filled l.resources ∧ (∀ v ∈ got, ∃ r, v = some r ∧ r < s.built) ∧
      ∃ done, needs t = done ++ rest ∧ got.length = done.length
  | .raised _ => True

/-- What a thread may assume stays true while slots and resources are added. -/
lemma At.mono (h : At l needs t s p) (hg : s.Grows s') : At l needs t s' p := by
  cases p with
  | check => trivial
  | guard => trivial
  | build i => exact ⟨h.1, h.2.mono hg⟩
  | assign i r => exact ⟨h.1, h.2.1.mono hg, Nat.lt_of_lt_of_le h.2.2 hg.1⟩
  | read got rest =>
    obtain ⟨hf, hgot, hdone⟩ := h
    refine ⟨hf.mono hg, fun v hv => ?_, hdone⟩
    obtain ⟨r, rfl, hr⟩ := hgot v hv
    exact ⟨r, rfl, Nat.lt_of_lt_of_le hr hg.1⟩
  | raised e => trivial

/-- A thread adds slots and resources only. -/
lemma next_grows (hA : At l needs t s p) (h : l.next needs t s p choice = some (s', p')) :
    s.Grows s' := by
  cases p with
  | check =>
    obtain ⟨rfl, -⟩ := Prod.mk.inj (Option.some.inj h)
    exact Grows.refl s
  | guard =>
    rcases choice with e | _ <;> obtain ⟨rfl, -⟩ := Prod.mk.inj (Option.some.inj h) <;>
      exact Grows.refl s
  | build i =>
    rcases choice with e | _ <;> obtain ⟨rfl, -⟩ := Prod.mk.inj (Option.some.inj h)
    · exact Grows.refl s
    · exact grows_build s
  | assign i r =>
    obtain ⟨rfl, -⟩ := Prod.mk.inj (Option.some.inj h)
    exact grows_assign hA.2.2
  | read got rest =>
    cases rest with
    | nil => cases h
    | cons i rest =>
      obtain ⟨rfl, -⟩ := Prod.mk.inj (Option.some.inj h)
      exact Grows.refl s
  | raised e => cases h

/-- A thread keeps the invariant.

**Proof sketch.** Only the assignment of the last slot sets it, and then the slots before are
filled. -/
lemma next_kept (hK : Kept l s) (hA : At l needs t s p)
    (h : l.next needs t s p choice = some (s', p')) : Kept l s' := by
  have hgrows := next_grows hA h
  cases p with
  | assign i r =>
    obtain ⟨rfl, -⟩ := Prod.mk.inj (Option.some.inj h)
    obtain ⟨hi, hf, hr⟩ := hA
    intro hlast
    by_cases hn : i + 1 < l.resources
    · refine Filled.mono (hK ?_) hgrows
      have hne : l.resources - 1 ≠ i := by omega
      simpa [LazySlots.assign, hne] using hlast
    · obtain hn : i + 1 = l.resources := by omega
      rw [← hn]
      exact hf.assign hr
  | check =>
    obtain ⟨rfl, -⟩ := Prod.mk.inj (Option.some.inj h)
    exact hK
  | guard =>
    rcases choice with e | _ <;> obtain ⟨rfl, -⟩ := Prod.mk.inj (Option.some.inj h) <;> exact hK
  | build i =>
    rcases choice with e | _ <;> obtain ⟨rfl, -⟩ := Prod.mk.inj (Option.some.inj h)
    · exact hK
    · exact fun hlast => (hK hlast).mono hgrows
  | read got rest =>
    cases rest with
    | nil => cases h
    | cons i rest =>
      obtain ⟨rfl, -⟩ := Prod.mk.inj (Option.some.inj h)
      exact hK
  | raised e => cases h

/-- The thread may assume what belongs to its next point. -/
lemma next_at (hl : 0 < l.resources) (hneeds : ∀ t, ∀ i ∈ needs t, i < l.resources)
    (hK : Kept l s) (hA : At l needs t s p) (h : l.next needs t s p choice = some (s', p')) :
    At l needs t s' p' := by
  have hread : s'.Filled l.resources → At l needs t s' (.read [] (needs t) : LoadPoint ε) :=
    fun hf => ⟨hf, by simp, [], rfl, rfl⟩
  have hbuild : At l needs t s' (.build 0 : LoadPoint ε) := ⟨hl, by simp [Filled]⟩
  cases p with
  | check =>
    obtain ⟨rfl, rfl⟩ := Prod.mk.inj (Option.some.inj h)
    split_ifs with hlast
    · exact hread (hK hlast)
    · unfold first
      split_ifs
      · trivial
      · exact hbuild
  | guard =>
    rcases choice with e | _ <;> obtain ⟨rfl, rfl⟩ := Prod.mk.inj (Option.some.inj h)
    · trivial
    · exact hbuild
  | build i =>
    rcases choice with e | _ <;> obtain ⟨rfl, rfl⟩ := Prod.mk.inj (Option.some.inj h)
    · trivial
    · exact ⟨hA.1, hA.2.mono (grows_build s), Nat.lt_succ_self _⟩
  | assign i r =>
    obtain ⟨rfl, rfl⟩ := Prod.mk.inj (Option.some.inj h)
    obtain ⟨hi, hf, hr⟩ := hA
    split_ifs with hn
    · exact ⟨hn, hf.assign hr⟩
    · obtain hn : i + 1 = l.resources := by omega
      exact hread (hn ▸ hf.assign hr)
  | read got rest =>
    cases rest with
    | nil => cases h
    | cons i rest =>
      obtain ⟨rfl, rfl⟩ := Prod.mk.inj (Option.some.inj h)
      obtain ⟨hf, hgot, done, hdone, hlen⟩ := hA
      obtain ⟨r, hr, hb⟩ := hf i (hneeds t i (by simp [hdone]))
      refine ⟨hf, fun v hv => ?_, done ++ [i], by simp [hdone], by simp [hlen]⟩
      rcases List.mem_append.mp hv with hv | hv
      · exact hgot v hv
      · exact ⟨r, (List.mem_singleton.mp hv).trans hr, hb⟩
  | raised e => cases h

/-- **The invariant and the assertions hold together.** -/
theorem annotated (hl : 0 < l.resources) (hneeds : ∀ t, ∀ i ∈ needs t, i < l.resources) :
    Annotation (LoadPoint.check : LoadPoint ε) (l.next needs) (Kept l) (At l needs) where
  start _ _ _ := trivial
  invariant _ _ _ _ _ _ hK hA h := next_kept hK hA h
  sequential _ _ _ _ _ _ hK hA h := next_at hl hneeds hK hA h
  free _ _ _ _ _ _ _ _ _ _ hA hAu h := hAu.mono (next_grows hA h)

/-- The module before anything has been loaded. -/
lemma kept_empty : Kept l empty := by
  intro h
  simp [LazySlots.empty] at h

variable {st st' : Threads LazySlots (LoadPoint ε)} {es : List (ThreadEvent (Except ε Unit))}

/-- **No thread reads an empty slot.** After every run of any number of threads, with constructors
that fail or not, every thread that has read what it needs has read resources that have been
built. -/
theorem reads_some (hl : 0 < l.resources) (hneeds : ∀ t, ∀ i ∈ needs t, i < l.resources)
    (hrun : Machine.exec (l.step needs) (Threads.init empty) es = some st) :
    ∀ (t : ℕ) got, st.points[t]? = some (.read got []) →
      got.length = (needs t).length ∧ ∀ v ∈ got, ∃ r, v = some r ∧ r < st.shared.built := by
  intro t got hp
  obtain ⟨-, hA⟩ := (annotated hl hneeds).exec kept_empty hrun
  obtain ⟨-, hgot, done, hdone, hlen⟩ := hA t _ hp
  rw [List.append_nil] at hdone
  exact ⟨hdone ▸ hlen, hgot⟩

/-! ## Once all is loaded -/

/-- The thread is not about to load anything. -/
def Past : LoadPoint ε → Prop
  | .check => True
  | .read _ _ => True
  | .raised _ => True
  | _ => False

/-- What thread `t` has read of the slots of `s`, if it was started as number `k` or later. -/
def ReadOf (needs : ℕ → List ℕ) (s : LazySlots) (k t : ℕ) : LoadPoint ε → Prop
  | .check => True
  | .read got rest => k ≤ t → ∃ done, needs t = done ++ rest ∧ got = done.map s.slots
  | .raised _ => t < k
  | _ => False

/-- While the last slot is set, a thread that begins reads only. -/
lemma loaded_annotated (s₀ : LazySlots) (k : ℕ)
    (hlast : (s₀.slots (l.resources - 1)).isSome = true) :
    Annotation (LoadPoint.check : LoadPoint ε) (l.next needs) (· = s₀)
      (fun t _ => ReadOf needs s₀ k t) := by
  have hnext : ∀ t (p : LoadPoint ε) choice s' p', ReadOf needs s₀ k t p →
      l.next needs t s₀ p choice = some (s', p') → s' = s₀ ∧ ReadOf needs s₀ k t p' := by
    intro t p choice s' p' hA h
    cases p with
    | check =>
      obtain ⟨rfl, rfl⟩ := Prod.mk.inj (Option.some.inj h)
      rw [if_pos hlast]
      exact ⟨rfl, fun _ => ⟨[], rfl, rfl⟩⟩
    | guard => exact absurd hA id
    | build i => exact absurd hA id
    | assign i r => exact absurd hA id
    | read got rest =>
      cases rest with
      | nil => cases h
      | cons i rest =>
        obtain ⟨rfl, rfl⟩ := Prod.mk.inj (Option.some.inj h)
        refine ⟨rfl, fun hk => ?_⟩
        obtain ⟨done, hdone, rfl⟩ := hA hk
        exact ⟨done ++ [i], by simp [hdone], by simp⟩
    | raised e => cases h
  refine ⟨fun _ _ _ => trivial, ?_, ?_, fun _ _ _ _ _ _ _ _ _ _ _ hAu _ => hAu⟩
  · rintro t s p choice s' p' rfl hA h
    exact (hnext t p choice s' p' hA h).1
  · rintro t s p choice s' p' rfl hA h
    exact (hnext t p choice s' p' hA h).2

/-- **Once all is loaded, it stays as it is.** Where the last slot is set and no thread is about to
load anything, no run builds or assigns anything; no thread that begins raises, and all read the
same resources. -/
theorem exec_loaded (hlast : (st.shared.slots (l.resources - 1)).isSome = true)
    (hpast : ∀ p ∈ st.points, Past p) (hrun : Machine.exec (l.step needs) st es = some st') :
    st'.shared = st.shared ∧ ∀ t, st.points.length ≤ t →
      (∀ e, st'.points[t]? ≠ some (.raised e)) ∧
      ∀ got, st'.points[t]? = some (.read got []) → got = (needs t).map st.shared.slots := by
  have hann : Annotation (LoadPoint.check : LoadPoint ε) (l.next needs) (· = st.shared)
      (fun t _ => ReadOf needs st.shared st.points.length t) := loaded_annotated _ _ hlast
  have hstart : Annotation.Holds (· = st.shared)
      (fun t _ => ReadOf needs st.shared st.points.length t) st := by
    refine ⟨rfl, fun t p hp => ?_⟩
    have ht : t < st.points.length := (List.getElem?_eq_some_iff.mp hp).1
    have hpp := hpast p (List.mem_of_getElem? hp)
    cases p with
    | check => trivial
    | read got rest => exact fun hk => absurd hk (Nat.not_le_of_lt ht)
    | raised e => exact ht
    | _ => exact absurd hpp id
  obtain ⟨hshared, hpoints⟩ := Machine.exec_invariant
    (fun _ _ _ hs hstep => hann.step hs hstep) hstart hrun
  refine ⟨hshared, fun t ht => ⟨fun e hp => ?_, fun got hp => ?_⟩⟩
  · exact Nat.not_lt_of_le ht (hpoints t _ hp)
  · obtain ⟨done, hdone, rfl⟩ := hpoints t _ hp ht
    rw [hdone, List.append_nil]

/-! ## A call that is not interrupted -/

/-- The number of steps that a thread has left, if nothing fails. -/
def pointWork (l : Loader) (n : ℕ) : LoadPoint ε → ℕ
  | .check => 2 * l.resources + n + 2
  | .guard => 2 * l.resources + n + 1
  | .build i => 2 * (l.resources - i) + n
  | .assign i _ => 2 * (l.resources - i) - 1 + n
  | .read _ rest => rest.length
  | .raised _ => 0

/-- Thread `t` has not failed, and builds only what belongs to the module. -/
def GoesOn (l : Loader) (needs : ℕ → List ℕ) (t : ℕ) (st : Threads LazySlots (LoadPoint ε)) :
    Prop :=
  Annotation.Holds (Kept l) (At l needs) st ∧
    ∃ p, st.points[t]? = some p ∧ ∀ e, p ≠ .raised e

/-- Thread `t` has read what it needs. -/
def HasRead (t : ℕ) (st : Threads LazySlots (LoadPoint ε)) : Prop :=
  ∃ got, st.points[t]? = some (.read got [])

/-- The steps that thread `t` has left. -/
def workOf (l : Loader) (needs : ℕ → List ℕ) (t : ℕ) (st : Threads LazySlots (LoadPoint ε)) : ℕ :=
  match st.points[t]? with
  | some p => l.pointWork (needs t).length p
  | none => 0

/-- A step that does not fail leaves less to do. -/
lemma next_work (hA : At l needs t s p)
    (h : l.next needs t s p (.ok ()) = some (s', p')) :
    l.pointWork (needs t).length p' < l.pointWork (needs t).length p ∧ ∀ e, p' ≠ .raised e := by
  cases p with
  | check =>
    obtain ⟨rfl, rfl⟩ := Prod.mk.inj (Option.some.inj h)
    unfold first
    split_ifs <;> simp [pointWork]
    all_goals omega
  | guard =>
    obtain ⟨rfl, rfl⟩ := Prod.mk.inj (Option.some.inj h)
    simp [pointWork]
  | build i =>
    obtain ⟨rfl, rfl⟩ := Prod.mk.inj (Option.some.inj h)
    have hi := hA.1
    simp [pointWork]
    omega
  | assign i r =>
    obtain ⟨rfl, rfl⟩ := Prod.mk.inj (Option.some.inj h)
    have hi := hA.1
    split_ifs <;> simp [pointWork] <;> omega
  | read got rest =>
    cases rest with
    | nil => cases h
    | cons i rest =>
      obtain ⟨rfl, rfl⟩ := Prod.mk.inj (Option.some.inj h)
      simp [pointWork]
  | raised e => cases h

/-- The steps of thread `t` that do not fail come to an end. -/
lemma exhausting (hl : 0 < l.resources) (hneeds : ∀ t, ∀ i ∈ needs t, i < l.resources) (t : ℕ) :
    Machine.Exhausting (l.step needs)
      (fun _ (e : ThreadEvent (Except ε Unit)) => e = .move t (.ok ())) (GoesOn l needs t)
      (HasRead t) (workOf l needs t) where
  keep st e st' hI hK hstep := by
    subst hK
    refine ⟨(annotated hl hneeds).step hI.1 hstep, ?_⟩
    obtain ⟨p, shared, q, hp, hnext, rfl⟩ := Threads.step_move.mp hstep
    have hwork := next_work (hI.1.2 t p hp) hnext
    exact ⟨q, List.getElem?_set_self (List.getElem?_eq_some_iff.mp hp).1, hwork.2⟩
  lower st e st' hI hK hstep := by
    subst hK
    obtain ⟨p, shared, q, hp, hnext, rfl⟩ := Threads.step_move.mp hstep
    have hwork := next_work (hI.1.2 t p hp) hnext
    have hq : (st.points.set t q)[t]? = some q :=
      List.getElem?_set_self (List.getElem?_eq_some_iff.mp hp).1
    simp only [workOf, hp, hq]
    exact hwork.1
  progress st hI hnot := by
    obtain ⟨-, p, hp, hraised⟩ := hI
    have hmove : ∀ r, l.next needs t st.shared p (.ok ()) = some r →
        ∃ e st', e = ThreadEvent.move t (Except.ok ()) ∧ l.step needs st e = some st' :=
      fun r hr => ⟨_, _, rfl, Threads.step_move.mpr ⟨p, r.1, r.2, hp, hr, rfl⟩⟩
    cases p with
    | read got rest =>
      cases rest with
      | nil => exact absurd ⟨got, hp⟩ hnot
      | cons i rest => exact hmove _ rfl
    | raised e => exact absurd rfl (hraised e)
    | _ => exact hmove _ rfl

/-- **A load that has failed can be repeated.** After every run, a thread that is started then and
makes its steps without failing reads what it needs. -/
theorem exists_load (hl : 0 < l.resources) (hneeds : ∀ t, ∀ i ∈ needs t, i < l.resources)
    (hrun : Machine.exec (l.step needs) (Threads.init empty) es = some st) :
    ∃ fs st', (∀ e ∈ fs, e = .move st.points.length (.ok ())) ∧
      Machine.exec (l.step needs) st (.call :: fs) = some st' ∧ HasRead st.points.length st' := by
  have hcall : l.step needs st .call = some ⟨st.shared, st.points ++ [.check]⟩ := rfl
  have hann : Annotation (LoadPoint.check : LoadPoint ε) (l.next needs) (Kept l) (At l needs) :=
    annotated hl hneeds
  have hgoes : GoesOn l needs st.points.length ⟨st.shared, st.points ++ [.check]⟩ :=
    ⟨hann.step (hann.exec kept_empty hrun) hcall, .check, by simp, by simp⟩
  obtain ⟨fs, st', hfs, hexec, hread⟩ := (exhausting hl hneeds st.points.length).exists_run hgoes
  refine ⟨fs, st', Machine.forall_of_stepsSatisfy hfs hexec, ?_, hread⟩
  rw [Machine.exec_cons, hcall]
  exact hexec

end Loader
