import InferenceServer.Batcher.Basic
import InferenceServer.Python.Text
import InferenceServer.Python.Statement

set_option relaxedAutoImplicit false
set_option autoImplicit false

/-!
# The choice of the backend (`app/main.py`)

`startup` loads both backends, probes the ONNX one with a batch of two, and installs the one that
the probe has chosen. What the batch functions and the loaders do is a parameter, and so is what
`print` raises for a line.

## Main definitions

* `RaisedException`, `Backend` — an exception as a handler prints it; a module with a model.
* `App` — the globals of the module, and what has been printed.
* `App.onnxBatchIsSafe`, `App.startup`.
* `App.TwoRows`, `App.Reportable` — how the probe may end.
* `App.Launched` — what `startup` leaves behind.

## Main results

* `App.onnxBatchIsSafe_spec` — what the probe returns.
* `App.startup_spec` — what `startup` installs.
* `App.startup_resolves_backend` — when the probe always resolves a backend.
* `App.startup_aborts` — when it does not.

## Design

Standard output takes a line or raises: a `UnicodeEncodeError` for a character that its encoding
does not have. All lines that `startup` prints go through it.
-/

namespace InferenceServer

/-- An instance of a subclass of `Exception`, as a handler prints it: the name of its class and its
`str`. -/
structure RaisedException where
  name : String
  message : PyStr
  deriving DecidableEq, Repr

/-- What `[][0]` raises. -/
def indexError : RaisedException := ⟨"IndexError", "list index out of range"⟩

/-- A backend: `predict_batch` and `get_classifier` of `app.model` or `app.model_onnx`. -/
structure Backend (ρ : Type) where
  predictBatch : List String → Except RaisedException (List ρ)
  getClassifier : Except RaisedException Unit

/-- The arguments of the batcher in `startup`. -/
def startupArgs : BatcherArgs where
  batchSize := 8
  timeoutMs := 20
  maxConcurrentBatches := 4
  breaker := { failureThreshold := 5, cooldownSeconds := 30 }

/-- The globals of `app.main`, the value that `_onnx_batch_is_safe` has returned, the `predict_fn`
chosen, and what has been printed. -/
structure App (ρ : Type) where
  output : List PyStr
  safe : Option Bool
  predictFn : Option (List String → Except RaisedException (List ρ))
  batcherBackend : String
  batcher : Option (InferenceBatcher startupArgs ρ)

/-- The texts of the probe. -/
def probeTexts : List String := ["probe row one", "probe row two"]

/-- What standard output raises for a line, if it does not take it. -/
abbrev Stdout := PyStr → Option RaisedException

namespace App

variable {ρ : Type} (stdout : Stdout) (onnxAvailable : Bool) (modelOnnx model : Backend ρ)

/-- The module after its import. -/
def imported : App ρ where
  output :=
    [if onnxAvailable then "[startup] ONNX INT8 backend detected"
      else "[startup] ONNX model not found - using PyTorch backend"]
  safe := none
  predictFn := none
  batcherBackend := "unknown"
  batcher := none

/-- The module from which `onnx_predict_batch` and `onnx_load` are imported. -/
def onnx : Backend ρ := if onnxAvailable then modelOnnx else model

/-- `print(line)`. -/
def print (line : PyStr) : Stmt RaisedException (App ρ) :=
  match stdout line with
  | none => .assign fun app => { app with output := app.output ++ [line] }
  | some e => .raise e

/-- `return b` in `_onnx_batch_is_safe`. -/
def returns (b : Bool) : Stmt RaisedException (App ρ) :=
  .assign fun app => { app with safe := some b }

/-- The line printed about an exception whose message begins with the line `first`. -/
def probeFailed (e : RaisedException) (first : PyStr) : PyStr :=
  PyStr.ofString ("[startup] ONNX batch probe FAILED — " ++ e.name ++ ": ") ++
    ⟨first.points.take 130⟩

/-- The advice printed after it. -/
def probeAdvice : PyStr :=
  "[startup] The ONNX graph on disk likely has a hardcoded batch axis. " ++
    "Delete models/model_fp32.onnx* and re-run `python export_onnx.py`."

/-- The `try` clause of `_onnx_batch_is_safe`. -/
def tryProbe : Stmt RaisedException (App ρ) :=
  match (onnx onnxAvailable modelOnnx model).predictBatch probeTexts with
  | .ok out => returns (out.length = 2)
  | .error e => .raise e

/-- The `except` clause of `_onnx_batch_is_safe`. -/
def exceptProbe (e : RaisedException) : Stmt RaisedException (App ρ) :=
  match e.message.splitlines.head? with
  | some first =>
    .seq (print stdout (probeFailed e first)) (.seq (print stdout probeAdvice) (returns false))
  -- `splitlines()[0]` of an empty message
  | none => .raise indexError

/-- `_onnx_batch_is_safe`. -/
def onnxBatchIsSafe : Stmt RaisedException (App ρ) :=
  if onnxAvailable then .tryExcept (tryProbe onnxAvailable modelOnnx model) (exceptProbe stdout)
  else returns false

/-- `pytorch_load()` and `onnx_load()`. -/
def load (b : Backend ρ) : Stmt RaisedException (App ρ) :=
  match b.getClassifier with
  | .ok () => .assign id
  | .error e => .raise e

/-- `if _onnx_batch_is_safe(): ... else: ...`, on the value that it has returned. -/
def choose (app : App ρ) : App ρ :=
  if app.safe = some true then
    { app with
      predictFn := some (onnx onnxAvailable modelOnnx model).predictBatch
      batcherBackend := "onnx_int8" }
  else
    { app with
      predictFn := some model.predictBatch
      batcherBackend := "pytorch (ONNX batch probe failed)" }

/-- What `startup` prints at its end. `connected` is the answer of `cache.stats()`, which raises
nothing. -/
def report (batcherBackend : String) (connected : Bool) : List PyStr :=
  [PyStr.ofString ("[startup] /predict = " ++ batcherBackend ++
      " + batching (<=4 concurrent batches) + Redis cache + circuit breaker"),
    if connected then "[startup] Redis connected OK"
      else "[startup] WARNING: Redis not reachable — cache disabled",
    "[startup] Prometheus metrics exposed at /metrics"]

/-- The rest of `startup`: the batcher is built and started, and the state is reported. -/
def launch (now : ℚ) (connected : Bool) : Stmt RaisedException (App ρ) :=
  .seq (.assign fun app => { app with batcher := (InferenceBatcher.new startupArgs ρ now).start })
    fun app => Stmt.forEach (report app.batcherBackend connected) (print stdout) app

/-- `startup`. -/
def startup (now : ℚ) (connected : Bool) : Stmt RaisedException (App ρ) :=
  .seq (load model) <|
  .seq (load (onnx onnxAvailable modelOnnx model)) <|
  .seq (onnxBatchIsSafe stdout onnxAvailable modelOnnx model) <|
  .seq (.assign (choose onnxAvailable modelOnnx model)) (launch stdout now connected)

/-- The probe has brought back two rows. -/
def TwoRows : Prop :=
  onnxAvailable = true ∧ ∃ out, modelOnnx.predictBatch probeTexts = .ok out ∧ out.length = 2

/-- If the probe raises, its handler can report it: the message is not empty, and standard output
takes both lines of the report. -/
def Reportable : Prop :=
  onnxAvailable = true → ∀ e, modelOnnx.predictBatch probeTexts = .error e →
    e.message ≠ "" ∧ stdout (probeFailed e e.message.firstLine) = none ∧ stdout probeAdvice = none

/-- The result of `startup` with this backend installed: the batcher has been started, and `startup`
returns if standard output takes its report. -/
structure Launched (now : ℚ) (connected : Bool) (batcherBackend : String) (b : Backend ρ)
    (result : Completion RaisedException × App ρ) : Prop where
  batcher : result.2.batcher =
    some { InferenceBatcher.new startupArgs ρ now with worker := .awaitFirst }
  predictFn : result.2.predictFn = some b.predictBatch
  backend : result.2.batcherBackend = batcherBackend
  normal : (∀ line ∈ report batcherBackend connected, stdout line = none) → result.1 = .normal

variable {stdout : Stdout} {onnxAvailable : Bool} {modelOnnx model : Backend ρ}

/-! ## The probe -/

/-- A line that standard output takes. -/
lemma print_of_none {line : PyStr} (h : stdout line = none) (app : App ρ) :
    print stdout line app = (.normal, { app with output := app.output ++ [line] }) := by
  rw [print, h]
  rfl

/-- A line that standard output does not take. -/
lemma print_of_some {line : PyStr} {x : RaisedException} (h : stdout line = some x) (app : App ρ) :
    print stdout line app = (.raised x, app) := by
  rw [print, h]
  rfl

/-- Printing changes no global of the module. -/
lemma print_globals (line : PyStr) (app : App ρ) :
    (print stdout line app).2 = { app with output := (print stdout line app).2.output } := by
  cases h : stdout line with
  | none => rw [print_of_none h]
  | some x => rw [print_of_some h]

/-- The empty `str` is the one without code points. -/
lemma points_eq_nil_iff {s : PyStr} : s.points = [] ↔ s = "" := by
  constructor
  · intro h
    exact congrArg PyStr.mk h
  · rintro rfl
    rfl

/-- **The report of a failure**: the message up to its first line break, cut at 130 characters, and
the advice; if there is a message, and standard output takes both lines. -/
theorem exceptProbe_of_reportable {e : RaisedException} (hmessage : e.message ≠ "")
    (hfailed : stdout (probeFailed e e.message.firstLine) = none)
    (hadvice : stdout probeAdvice = none) (app : App ρ) :
    exceptProbe stdout e app =
      (.normal,
        { app with
          output := app.output ++ [probeFailed e e.message.firstLine, probeAdvice]
          safe := some false }) := by
  have hpoints : e.message.points ≠ [] := mt points_eq_nil_iff.mp hmessage
  rw [exceptProbe, PyStr.head?_splitlines, if_neg hpoints]
  dsimp only
  rw [Stmt.seq_of_normal (print_of_none hfailed app), Stmt.seq_of_normal (print_of_none hadvice _)]
  simp [returns, Stmt.assign]

/-- Any other report raises in its turn. -/
lemma exceptProbe_of_not {e : RaisedException}
    (h : ¬ (e.message ≠ "" ∧ stdout (probeFailed e e.message.firstLine) = none ∧
      stdout probeAdvice = none)) (app : App ρ) :
    ∃ x app', exceptProbe stdout e app = (.raised x, app') := by
  rw [exceptProbe, PyStr.head?_splitlines]
  by_cases hmessage : e.message.points = []
  · rw [if_pos hmessage]
    exact ⟨indexError, app, rfl⟩
  · rw [if_neg hmessage]
    dsimp only
    cases hfailed : stdout (probeFailed e e.message.firstLine) with
    | some x =>
      refine ⟨x, app, ?_⟩
      rw [Stmt.seq, print_of_some hfailed]
    | none =>
      rw [Stmt.seq_of_normal (print_of_none hfailed app)]
      cases hadvice : stdout probeAdvice with
      | some x =>
        refine ⟨x, { app with output := app.output ++ [probeFailed e e.message.firstLine] }, ?_⟩
        rw [Stmt.seq, print_of_some hadvice]
      | none => exact absurd ⟨mt points_eq_nil_iff.mpr hmessage, hfailed, hadvice⟩ h

/-- Two rows are no exception. -/
lemma TwoRows.reportable (h : TwoRows onnxAvailable modelOnnx) :
    Reportable stdout onnxAvailable modelOnnx := by
  obtain ⟨-, out, hout, -⟩ := h
  intro _ e he
  cases hout.symm.trans he

/-- A failure that cannot be reported passes through the probe. -/
lemma onnxBatchIsSafe_of_not_reportable (model : Backend ρ)
    (h : ¬ Reportable stdout onnxAvailable modelOnnx) (app : App ρ) :
    ∃ x app', onnxBatchIsSafe stdout onnxAvailable modelOnnx model app = (.raised x, app') := by
  simp only [Reportable, Classical.not_imp, not_forall] at h
  obtain ⟨rfl, e, he, hreport⟩ := h
  have hraise : tryProbe true modelOnnx model app = (.raised e, app) := by
    rw [tryProbe, onnx, if_pos rfl, he]
    rfl
  rw [onnxBatchIsSafe, if_pos rfl, Stmt.tryExcept_of_raised hraise]
  exact exceptProbe_of_not hreport app

/-- **What the probe does otherwise**: it returns whether two rows came back, and changes no other
global.

**Proof sketch.** One case for each way the batch function ends. -/
theorem onnxBatchIsSafe_spec (model : Backend ρ) (h : Reportable stdout onnxAvailable modelOnnx)
    (app : App ρ) :
    ∃ lines b, onnxBatchIsSafe stdout onnxAvailable modelOnnx model app =
        (.normal, { app with output := app.output ++ lines, safe := some b }) ∧
      (b = true ↔ TwoRows onnxAvailable modelOnnx) := by
  cases ha : onnxAvailable with
  | false => exact ⟨[], false, by simp [onnxBatchIsSafe, returns, Stmt.assign], by simp [TwoRows]⟩
  | true =>
    rw [onnxBatchIsSafe, if_pos rfl]
    cases hp : modelOnnx.predictBatch probeTexts with
    | ok out =>
      have hbody : tryProbe true modelOnnx model app =
          (.normal, { app with safe := some (decide (out.length = 2)) }) := by
        rw [tryProbe, onnx, if_pos rfl, hp]
        rfl
      refine ⟨[], decide (out.length = 2), ?_, ?_⟩
      · rw [Stmt.tryExcept_of_normal hbody, List.append_nil]
      · simp [TwoRows, hp]
    | error e =>
      obtain ⟨hmessage, hfailed, hadvice⟩ := h ha e hp
      have hraise : tryProbe true modelOnnx model app = (.raised e, app) := by
        rw [tryProbe, onnx, if_pos rfl, hp]
        rfl
      have htry : Stmt.tryExcept _ (exceptProbe stdout) app = _ := Stmt.tryExcept_of_raised hraise
      rw [exceptProbe_of_reportable hmessage hfailed hadvice] at htry
      exact ⟨_, false, htry, by simp [TwoRows, hp]⟩

/-! ## The start -/

/-- A loader that raises nothing changes nothing. -/
lemma load_of_ok {b : Backend ρ} (h : b.getClassifier = .ok ()) (app : App ρ) :
    load b app = (.normal, app) := by
  rw [load, h]
  rfl

/-- The batcher of a new server can be started. -/
lemma start_new (now : ℚ) :
    (InferenceBatcher.new startupArgs ρ now).start =
      some { InferenceBatcher.new startupArgs ρ now with worker := .awaitFirst } :=
  if_pos ⟨rfl, rfl⟩

/-- What is left after a backend has been chosen: the batcher is started, and printing the report
changes nothing else. -/
lemma launched_of_chosen {b : Backend ρ} {app : App ρ} (hfn : app.predictFn = some b.predictBatch)
    (now : ℚ) (connected : Bool) :
    Launched stdout now connected app.batcherBackend b (launch stdout now connected app) := by
  set started : App ρ :=
    { app with batcher := (InferenceBatcher.new startupArgs ρ now).start } with hstarted
  have hlaunch : launch stdout now connected app =
      Stmt.forEach (report app.batcherBackend connected) (print stdout) started := rfl
  -- only the output moves while the report is printed
  have hkept : (Stmt.forEach (report app.batcherBackend connected) (print stdout) started).2 =
      { started with output := (Stmt.forEach (report app.batcherBackend connected) (print stdout)
        started).2.output } := by
    refine Stmt.forEach_invariant
      (I := fun app' : App ρ => app' = { started with output := app'.output })
      _ _ (fun line _ app' happ' => ?_) rfl
    rw [print_globals, happ']
  rw [hlaunch]
  refine ⟨?_, ?_, ?_, fun hlines => ?_⟩
  · rw [hkept]
    exact start_new now
  · rw [hkept]
    exact hfn
  · rw [hkept]
  · exact Stmt.forEach_normal (fun line hline app' => by rw [print_of_none (hlines line hline)]) _

/-- **What `startup` installs**, if the probe does not raise what cannot be reported: the ONNX
backend after two rows, and the PyTorch backend otherwise.

**Proof sketch.** `startup` comes to the probe once both backends are loaded; the probe returns
(`onnxBatchIsSafe_spec`), and the rest goes by its verdict (`launched_of_chosen`). -/
theorem startup_spec (h : Reportable stdout onnxAvailable modelOnnx)
    (hmodel : model.getClassifier = .ok ())
    (honnx : (onnx onnxAvailable modelOnnx model).getClassifier = .ok ()) (now : ℚ)
    (connected : Bool) (app : App ρ) :
    (TwoRows onnxAvailable modelOnnx → Launched stdout now connected "onnx_int8" modelOnnx
      (startup stdout onnxAvailable modelOnnx model now connected app)) ∧
    (¬ TwoRows onnxAvailable modelOnnx →
      Launched stdout now connected "pytorch (ONNX batch probe failed)" model
        (startup stdout onnxAvailable modelOnnx model now connected app)) := by
  obtain ⟨lines, b, happ, hb⟩ := onnxBatchIsSafe_spec model h app
  set probed : App ρ := { app with output := app.output ++ lines, safe := some b } with hprobed
  have hrun : startup stdout onnxAvailable modelOnnx model now connected app =
      launch stdout now connected (choose onnxAvailable modelOnnx model probed) := by
    rw [startup, Stmt.seq_of_normal (load_of_ok hmodel app),
      Stmt.seq_of_normal (load_of_ok honnx app), Stmt.seq_of_normal happ]
    rfl
  rw [hrun]
  constructor
  · intro htwo
    obtain rfl : b = true := hb.mpr htwo
    obtain ⟨rfl, -⟩ := htwo
    have hfn : (choose true modelOnnx model probed).predictFn = some modelOnnx.predictBatch := rfl
    exact launched_of_chosen hfn now connected
  · intro htwo
    obtain rfl : b = false := by
      rw [← Bool.not_eq_true, hb]
      exact htwo
    have hfn : (choose onnxAvailable modelOnnx model probed).predictFn = some model.predictBatch :=
      rfl
    exact launched_of_chosen hfn now connected

/-- **The startup probe resolves a backend.** `_onnx_batch_is_safe` returns, with `True` exactly if
two rows came back, and `startup`, once both backends are loaded, installs the ONNX backend in this
case and the PyTorch one in every other, starts the batcher, and returns if its own report can be
printed; all this exactly if the probe did not raise, or raised an exception with a message, and
standard output took both lines of the report on it.

**Proof sketch.** A failure that cannot be reported leaves the handler as another exception
(`onnxBatchIsSafe_of_not_reportable`). In every other case the probe returns
(`onnxBatchIsSafe_spec`), and `startup` goes by its verdict (`startup_spec`). -/
theorem startup_resolves_backend (stdout : Stdout) (onnxAvailable : Bool)
    (modelOnnx model : Backend ρ) :
    ((∀ app : App ρ, ∃ app' b,
        onnxBatchIsSafe stdout onnxAvailable modelOnnx model app = (.normal, app') ∧
        app'.safe = some b ∧ (b = true ↔ TwoRows onnxAvailable modelOnnx)) ∧
      (model.getClassifier = .ok () →
        (onnx onnxAvailable modelOnnx model).getClassifier = .ok () →
        ∀ (now : ℚ) (connected : Bool) (app : App ρ),
          (TwoRows onnxAvailable modelOnnx → Launched stdout now connected "onnx_int8" modelOnnx
            (startup stdout onnxAvailable modelOnnx model now connected app)) ∧
          (¬ TwoRows onnxAvailable modelOnnx →
            Launched stdout now connected "pytorch (ONNX batch probe failed)" model
              (startup stdout onnxAvailable modelOnnx model now connected app)))) ↔
    (onnxAvailable = true → ∀ e, modelOnnx.predictBatch probeTexts = .error e →
      e.message ≠ "" ∧ stdout (probeFailed e e.message.firstLine) = none ∧
        stdout probeAdvice = none) := by
  constructor
  · rintro ⟨hprobe, -⟩
    by_contra hreport
    obtain ⟨x, app₁, hraised⟩ := onnxBatchIsSafe_of_not_reportable model hreport
      (imported onnxAvailable)
    obtain ⟨app', b, happ, -⟩ := hprobe (imported onnxAvailable)
    rw [hraised] at happ
    cases happ
  · intro h
    refine ⟨fun app => ?_, fun hmodel honnx now connected app => ?_⟩
    · obtain ⟨lines, b, happ, hb⟩ := onnxBatchIsSafe_spec model h app
      exact ⟨_, b, happ, rfl, hb⟩
    · exact startup_spec h hmodel honnx now connected app

/-- Standard output with the encoding UTF-8, which has no surrogates. -/
def utf8Stdout : Stdout := fun line =>
  match line.asText with
  | some _ => none
  | none => some ⟨"UnicodeEncodeError", "surrogates not allowed"⟩

/-- A backend that works. -/
def workingBackend : Backend ℕ := ⟨fun texts => .ok (texts.map String.length), .ok ()⟩

/-- A backend that loads, and whose batch function raises this exception. -/
def failingBackend (e : RaisedException) : Backend ℕ := ⟨fun _ => .error e, .ok ()⟩

/-- An exception without a message, as `assert` without a text raises it. -/
def silentFailure : RaisedException := ⟨"AssertionError", ""⟩

/-- An exception whose message has a surrogate, as a file name has for an octet that does not
decode. -/
def garbledFailure : RaisedException := ⟨"RuntimeError", ⟨[⟨0xDCFF, by decide⟩]⟩⟩

/-- **The start is aborted** by a batch function that raises an exception without a message, or with
one that standard output does not take: the probe raises an exception of its own, and no batcher is
built, although the other backend works. -/
theorem startup_aborts :
    ((onnxBatchIsSafe utf8Stdout true (failingBackend silentFailure) workingBackend
        (imported true)).1 = .raised indexError ∧
      (startup utf8Stdout true (failingBackend silentFailure) workingBackend 0 true
        (imported true)).1 = .raised indexError ∧
      (startup utf8Stdout true (failingBackend silentFailure) workingBackend 0 true
        (imported true)).2.batcher = none) ∧
    ((onnxBatchIsSafe utf8Stdout true (failingBackend garbledFailure) workingBackend
        (imported true)).1 ≠ .normal ∧
      (startup utf8Stdout true (failingBackend garbledFailure) workingBackend 0 true
        (imported true)).1 ≠ .normal ∧
      (startup utf8Stdout true (failingBackend garbledFailure) workingBackend 0 true
        (imported true)).2.batcher = none) := by
  decide +kernel

end App

end InferenceServer
