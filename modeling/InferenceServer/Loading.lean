import InferenceServer.Machine.LazyLoad
import InferenceServer.Startup

set_option relaxedAutoImplicit false
set_option autoImplicit false

/-!
# The models are loaded on first use (`app/model.py`, `app/model_onnx.py`)

Both modules keep what they have loaded in globals, without a lock, while `predict_batch` runs on
the threads of up to four batches and the unbatched endpoints on threads of their own. The steps of
these threads may be interleaved in any order.

## Main definitions

* `ModelModule`, `ModelModule.loader` — the two modules, and what they load.
* `ModelCall`, `ModelModule.needs` — their functions, and the globals that each of them reads.

## Main results

* `ModelModule.no_half_loaded` — no call works with a global that has not been assigned, and a load
  that has failed can be repeated.
* `ModelModule.preloaded` — after the loaders have returned in `startup`, nothing is loaded again,
  and all calls share one model.
-/

namespace InferenceServer

/-- The modules with a model. -/
inductive ModelModule
  /-- `app.model` -/
  | model
  /-- `app.model_onnx` -/
  | modelOnnx
  deriving DecidableEq, Repr

/-- The functions of both modules. -/
inductive ModelCall
  | predict
  | predictBatch
  | getClassifier
  deriving DecidableEq, Repr

namespace ModelModule

/-- What a module loads: `app.model` its `_classifier`; `app.model_onnx` its `_tokenizer` and its
`_session`, after the test that the graph is on disk. -/
def loader : ModelModule → Loader
  | .model => { resources := 1, guarded := false }
  | .modelOnnx => { resources := 2, guarded := true }

/-- The globals that a call reads once it has loaded them, in order. -/
def needs : ModelModule → ModelCall → List ℕ
  | .model, _ => [0]
  | .modelOnnx, .getClassifier => [1]
  -- `_tokenize(...)`, then `_session.run(...)`
  | .modelOnnx, _ => [0, 1]

/-- Any number of calls, where thread `t` makes the call `calls t`. -/
def step (m : ModelModule) (calls : ℕ → ModelCall) :
    Threads LazySlots (LoadPoint RaisedException) →
      ThreadEvent (Except RaisedException Unit) →
        Option (Threads LazySlots (LoadPoint RaisedException)) :=
  m.loader.step fun t => m.needs (calls t)

variable {m : ModelModule} {calls : ℕ → ModelCall}

/-- A module loads something. -/
lemma loader_pos (m : ModelModule) : 0 < m.loader.resources := by
  cases m <;> decide

/-- A call reads globals of its module. -/
lemma needs_lt (m : ModelModule) (calls : ℕ → ModelCall) :
    ∀ t, ∀ i ∈ m.needs (calls t), i < m.loader.resources := by
  intro t
  cases m <;> cases calls t <;> decide

/-- **No call meets a half-loaded module.** After every run of any number of calls, in any
interleaving, whatever the constructors raise: a call that has come to its end has read all the
globals that it needs, and none of them was still `None`. A new call that is not interrupted, and
whose constructors raise nothing, comes to its end, whatever has failed before.

**Proof sketch.** The globals are assigned in order and the last one is tested, so a call that finds
it set finds all of them (`Loader.reads_some`); and each step of a call leaves less to do
(`Loader.exists_load`). -/
theorem no_half_loaded (m : ModelModule) (calls : ℕ → ModelCall)
    (es : List (ThreadEvent (Except RaisedException Unit)))
    (st : Threads LazySlots (LoadPoint RaisedException))
    (hrun : Machine.exec (m.step calls) (Threads.init .empty) es = some st) :
    (∀ (t : ℕ) got, st.points[t]? = some (.read got []) →
      got.length = (m.needs (calls t)).length ∧
        ∀ v ∈ got, ∃ r, v = some r ∧ r < st.shared.built) ∧
    ∃ fs st' got, (∀ e ∈ fs, e = .move st.points.length (.ok ())) ∧
      Machine.exec (m.step calls) st (.call :: fs) = some st' ∧
      st'.points[st.points.length]? = some (.read got []) := by
  refine ⟨Loader.reads_some (loader_pos m) (needs_lt m calls) hrun, ?_⟩
  obtain ⟨fs, st', hfs, hexec, got, hgot⟩ :=
    Loader.exists_load (loader_pos m) (needs_lt m calls) hrun
  exact ⟨fs, st', got, hfs, hexec, hgot⟩

/-- Two calls of `predict` that come at once, and one more after them. -/
def raceRun : List (ThreadEvent (Except RaisedException Unit)) :=
  [.call, .call] ++ List.replicate 2 (.move 0 (.ok ())) ++ List.replicate 7 (.move 1 (.ok ())) ++
    [.move 0 (.error ⟨"OSError", "We couldn't connect"⟩), .move 1 (.ok ()), .call]

/-- The second call has read two resources, while the first one has failed. -/
theorem no_half_loaded_race :
    ∃ st, Machine.exec (modelOnnx.step fun _ => .predict) (Threads.init .empty) raceRun = some st ∧
      st.points[0]? = some (.raised ⟨"OSError", "We couldn't connect"⟩) ∧
      ∃ got, st.points[1]? = some (.read got []) ∧ got.length = 2 ∧
        ∀ v ∈ got, ∃ r, v = some r ∧ r < st.shared.built := by
  obtain ⟨st, hst, hfirst, hsecond⟩ :
      ∃ st ∈ Machine.exec (modelOnnx.step fun _ => .predict) (Threads.init .empty) raceRun,
        st.points[0]? = some (.raised ⟨"OSError", "We couldn't connect"⟩) ∧
        st.points[1]? = some (.read [some 0, some 1] []) := by
    decide +kernel
  obtain ⟨hlen, hgot⟩ := (no_half_loaded modelOnnx _ raceRun st hst).1 1 _ hsecond
  exact ⟨st, hst, hfirst, _, hsecond, hlen, hgot⟩

-- Two calls that both find nothing load the model twice.
example : ∃ st ∈ Machine.exec (model.step fun _ => .predict) (Threads.init .empty)
    ([.call, .call, .move 0 (.ok ()), .move 1 (.ok ())] ++
      List.replicate 3 (.move 0 (.ok ())) ++ List.replicate 3 (.move 1 (.ok ()))),
    st.points = [.read [some 0] [], .read [some 1] []] := by
  decide +kernel

/-- **After `startup` nothing is loaded again.** The loader has been called by `startup`, alone, and
has returned. Then in every run of any number of calls from there on the globals stay what they are
and nothing is built; no call raises on its way to the model, and each call reads the globals that
`startup` has left.

**Proof sketch.** The loader has returned, so the last global is set; a call that finds it set
assigns nothing (`Loader.exec_loaded`). -/
theorem preloaded (m : ModelModule) (calls : ℕ → ModelCall)
    (es₁ es₂ : List (ThreadEvent (Except RaisedException Unit)))
    (st₁ st₂ : Threads LazySlots (LoadPoint RaisedException)) (got₁ : List (Option ℕ))
    (hload : Machine.exec (m.step calls) (Threads.init .empty) es₁ = some st₁)
    (hpoints : st₁.points = [.read got₁ []])
    (hrun : Machine.exec (m.step calls) st₁ es₂ = some st₂) :
    st₂.shared = st₁.shared ∧ ∀ t, 1 ≤ t → (∀ e, st₂.points[t]? ≠ some (.raised e)) ∧
      ∀ got, st₂.points[t]? = some (.read got []) →
        got = (m.needs (calls t)).map st₁.shared.slots ∧ ∀ v ∈ got, v.isSome = true := by
  have hfirst : st₁.points[0]? = some (.read got₁ []) := by
    rw [hpoints]
    rfl
  obtain ⟨-, hassertions⟩ :=
    (Loader.annotated (loader_pos m) (needs_lt m calls)).exec Loader.kept_empty hload
  obtain ⟨hfilled, -⟩ := hassertions 0 _ hfirst
  have hset : ∀ i < m.loader.resources, (st₁.shared.slots i).isSome = true := by
    intro i hi
    obtain ⟨r, hr, -⟩ := hfilled i hi
    rw [hr]
    rfl
  have hlast := hset (m.loader.resources - 1) (Nat.sub_lt (loader_pos m) Nat.one_pos)
  have hpast : ∀ p ∈ st₁.points, Loader.Past p := by
    rw [hpoints]
    simp [Loader.Past]
  obtain ⟨hshared, hnew⟩ := Loader.exec_loaded hlast hpast hrun
  refine ⟨hshared, fun t ht => ?_⟩
  obtain ⟨hraised, hgot⟩ := hnew t (by rw [hpoints]; exact ht)
  refine ⟨hraised, fun got hp => ?_⟩
  obtain rfl := hgot got hp
  refine ⟨rfl, fun v hv => ?_⟩
  obtain ⟨i, hi, rfl⟩ := List.mem_map.mp hv
  exact hset i (needs_lt m calls t i hi)

/-- `startup` calls the loader of a module. -/
def startupLoad : List (ThreadEvent (Except RaisedException Unit)) :=
  .call :: List.replicate 7 (.move 0 (.ok ()))

/-- Two batches, in turn. -/
def twoBatches : List (ThreadEvent (Except RaisedException Unit)) :=
  [.call, .call, .move 1 (.ok ()), .move 2 (.ok ()), .move 2 (.ok ()), .move 1 (.ok ()),
    .move 1 (.ok ())]

/-- `startup` loads the ONNX module, and then two batches use it. -/
theorem preloaded_onnx :
    ∃ st₁ st₂,
      Machine.exec (modelOnnx.step fun t => if t = 0 then .getClassifier else .predictBatch)
        (Threads.init .empty) startupLoad = some st₁ ∧
      Machine.exec (modelOnnx.step fun t => if t = 0 then .getClassifier else .predictBatch) st₁
        twoBatches = some st₂ ∧
      st₂.shared = st₁.shared ∧ ∃ got, st₂.points[1]? = some (.read got []) ∧
        ∀ v ∈ got, v.isSome = true := by
  obtain ⟨st₁, hst₁, hpoints⟩ : ∃ st₁ ∈ Machine.exec
      (modelOnnx.step fun t => if t = 0 then .getClassifier else .predictBatch)
      (Threads.init .empty) startupLoad, st₁.points = [.read [some 1] []] := by
    decide +kernel
  obtain ⟨st₂, hst₂, hsecond⟩ : ∃ st₂ ∈ Machine.exec
      (modelOnnx.step fun t => if t = 0 then .getClassifier else .predictBatch)
      (Threads.init .empty) (startupLoad ++ twoBatches),
        st₂.points[1]? = some (.read [some 0, some 1] []) := by
    decide +kernel
  obtain ⟨st, hst, hrun⟩ := Machine.exec_append_eq_some.mp hst₂
  obtain rfl : st₁ = st := Option.some.inj (hst₁.symm.trans hst)
  obtain ⟨hshared, hcalls⟩ :=
    preloaded modelOnnx _ startupLoad twoBatches st₁ st₂ _ hst₁ hpoints hrun
  exact ⟨st₁, st₂, hst₁, hrun, hshared, _, hsecond, ((hcalls 1 le_rfl).2 _ hsecond).2⟩

end ModelModule

end InferenceServer
