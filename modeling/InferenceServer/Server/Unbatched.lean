import InferenceServer.Model
import InferenceServer.Server.Integrity

set_option relaxedAutoImplicit false
set_option autoImplicit false

/-!
# Batched and unbatched answers

`/predict` goes through a cache, a queue, a collector and a batch that is shared with other
requests; `/predict_unbatched` and `/predict_onnx_unbatched` call the model on the one text. With a
backend that works row by row the detour changes nothing: whatever `/predict` answers with 200 is
what the direct call answers.

## Main definitions

* `unbatched`, `predictUnbatched`, `predictOnnxUnbatched` — the two endpoints.
* `RowWise` — a backend that gives each text the same row alone as inside any batch.
* `Server.Computes` — the batches of a run are computed by a given function.

## Main results

* `Server.agrees_of_rowWise` — a response of `/predict` is the unbatched one, up to its latency.
* `Server.predict_agrees_onnx`, `Server.predict_agrees_pytorch` — from the start of the server on,
  with the backend that the startup probe has chosen.
-/

namespace InferenceServer

open InferenceBatcher

/-! ## The endpoints -/

section Endpoints

variable (lib : Library)

/-- An endpoint that calls `predict` on the text of the request; what it raises is not handled. -/
def unbatched (predict : String → Except RaisedException Json) (text : String) (start now : ℚ) :
    Response :=
  match predict text with
  | .ok row => respond lib start now row
  | .error _ => internalError

/-- `/predict_unbatched`. -/
def predictUnbatched (pytorchPredict : String → Except RaisedException Json) :
    String → ℚ → ℚ → Response :=
  unbatched lib pytorchPredict

/-- `/predict_onnx_unbatched`. -/
def predictOnnxUnbatched (onnxPredict : String → Except RaisedException Json) :
    String → ℚ → ℚ → Response :=
  unbatched lib onnxPredict

end Endpoints

/-- Both functions of a backend give the row `row text` for `text`. -/
structure RowWise (predict : String → Except RaisedException Json)
    (predictBatch : List String → Except RaisedException (List Json)) (row : String → Json) :
    Prop where
  one : ∀ text, predict text = .ok (row text)
  many : ∀ texts, texts ≠ [] → predictBatch texts = .ok (texts.map row)

namespace Server

variable {args : BatcherArgs} {lib : Library} {s s' : Server args} {a : ServerAction}
  {predict : String → Except RaisedException Json}
  {predictBatch : List String → Except RaisedException (List Json)} {row : String → Json}

/-! ## Where the rows come from -/

/-- A list that `predict_fn` returns for a batch has been computed by `predictBatch`. -/
def Computes (predictBatch : List String → Except RaisedException (List Json)) (s : Server args)
    (e : ℚ × ServerAction) : Prop :=
  match e.2 with
  | .batcher (.finish k (.returned results)) =>
    ∀ t ∈ s.batcher.tasks[k]?, predictBatch (t.batch.map Item.text) = .ok results
  | _ => True

/-- Every list that has been returned for a batch was computed by `predictBatch`. -/
def Computed (predictBatch : List String → Except RaisedException (List Json))
    (b : InferenceBatcher args Json) : Prop :=
  ∀ t ∈ b.tasks, ∀ results,
    t.phase = .finished (.returned results) ∨ t.phase = .reaped (.returned results) →
      predictBatch (t.batch.map Item.text) = .ok results

/-- A step of the batcher keeps it so, if what it returns is computed so. -/
lemma Computed.step {b b' : InferenceBatcher args Json} {c : Action Json}
    (h : Computed predictBatch b) (heff : InferenceBatcher.Effect b c b')
    (hc : ∀ k results, c = .finish k (.returned results) → ∀ t ∈ b.tasks[k]?,
      predictBatch (t.batch.map Item.text) = .ok results) : Computed predictBatch b' := by
  intro t ht results hp
  cases heff with
  | dispatch batch hw =>
    rcases List.mem_append.mp ht with ht | ht
    · exact h t ht results hp
    · obtain rfl := List.mem_singleton.mp ht
      rcases hp with hp | hp <;> cases hp
  | callPredictFn k batch hk =>
    rcases List.mem_or_eq_of_mem_set ht with ht | rfl
    · exact h t ht results hp
    · rcases hp with hp | hp <;> cases hp
  | finish k o batch hk hb =>
    rcases List.mem_or_eq_of_mem_set ht with ht | rfl
    · exact h t ht results hp
    · rcases hp with hp | hp <;> cases hp
      exact hc k results rfl ⟨batch, .running⟩ hk
  | batchDone k batch o hk =>
    rcases List.mem_or_eq_of_mem_set ht with ht | rfl
    · exact h t ht results hp
    · rcases hp with hp | hp <;> cases hp
      exact h _ (List.mem_of_getElem? hk) results (.inl rfl)
  | _ => exact h t ht results hp

/-- It is so after every run whose batches are computed so. -/
lemma computed_exec {t₀ : ℚ} {es : List (ℚ × ServerAction)}
    (hrun : Machine.exec (step lib) (new args t₀) es = some s)
    (hes : Machine.StepsSatisfy (step lib) (Computes predictBatch) (new args t₀) es) :
    Computed predictBatch s.batcher := by
  refine Machine.exec_induction
    (P := fun es s => Machine.StepsSatisfy (step lib) (Computes predictBatch) (new args t₀) es →
      Computed predictBatch s.batcher) (fun _ t ht => ?_) ?_ es s hrun hes
  · cases ht
  · intro es e s s' hs ih hstep hes
    have hold := ih (hes.of_prefix (List.prefix_append es [e]))
    have hlast : Computes predictBatch s e := hes.last hs
    obtain ⟨hnow, -⟩ := batcher_run hs
    obtain ⟨hle, heff⟩ := step_effect hstep
    unfold Computes at hlast
    generalize e.2 = a at heff hlast
    have hother : ∀ c, s.batcher.step (e.1, c) = some s'.batcher →
        (∀ k results, c ≠ .finish k (.returned results)) → Computed predictBatch s'.batcher := by
      intro c hc hne
      have hstep := (InferenceBatcher.step_effect hc).2
      exact Computed.step (b := { s.batcher with now := e.1 }) hold hstep
        fun k results he => absurd he (hne k results)
    cases heff with
    | batcher c b ha hb =>
      have hstep := (InferenceBatcher.step_effect hb).2
      refine Computed.step (b := { s.batcher with now := e.1 }) hold hstep ?_
      rintro k results rfl t ht
      exact hlast t ht
    | reject i text start cached b exc hi hc hp =>
      refine hother (.predict text) (InferenceBatcher.step_eq_some.mpr ⟨hnow.trans hle, ?_⟩)
        (by simp)
      simp only [InferenceBatcher.act]
      rw [hp]
    | accept i text start cached b f hi hc hp =>
      refine hother (.predict text) (InferenceBatcher.step_eq_some.mpr ⟨hnow.trans hle, ?_⟩)
        (by simp)
      simp only [InferenceBatcher.act]
      rw [hp]
    | abortWaiting i text start f hi =>
      exact hother (.cancel f) (InferenceBatcher.step_eq_some.mpr ⟨hnow.trans hle, rfl⟩) (by simp)
    | _ => exact hold

/-- With a backend that works row by row, a row that was computed for a text is its row.

**Proof sketch.** The batch is not empty, so the list that was returned for it has the rows of its
texts, and the text is at the index of its row. -/
lemma Computed.row_eq {b : InferenceBatcher args Json} (h : Computed predictBatch b)
    (hb : FlowInv b) (hrow : RowWise predict predictBatch row) {text : String} {r : Json}
    (hr : b.RowFor text r) : r = row text := by
  obtain ⟨t, ht, results, hp, -, i, it, hit, rfl, hri⟩ := hr
  have hne : t.batch.map Item.text ≠ [] := by
    intro he
    have hsize := (hb.sizes t.batch (List.mem_map_of_mem ht)).1
    rw [List.map_eq_nil_iff.mp he] at hsize
    cases hsize
  have hres : results = (t.batch.map Item.text).map row := by
    have hcomputed := h t ht results hp
    rw [hrow.many _ hne] at hcomputed
    exact (Except.ok.inj hcomputed).symm
  rw [hres, List.getElem?_map, List.getElem?_map, hit] at hri
  exact (Option.some.inj hri).symm

/-- A run whose batches `predictBatch` computes, with an honest Redis, and without two requested
texts of one digest. -/
structure ComputedRun (lib : Library)
    (predictBatch : List String → Except RaisedException (List Json)) (s₀ : Server args)
    (es : List (ℚ × ServerAction)) (s : Server args) : Prop where
  run : Machine.exec (step lib) s₀ es = some s
  redis : Machine.StepsSatisfy (step lib) (RedisHonest lib) s₀ es
  computes : Machine.StepsSatisfy (step lib) (Computes predictBatch) s₀ es
  digests : ∀ p ∈ s.requests, ∀ q ∈ s.requests, lib.sha256 p.text = lib.sha256 q.text →
    p.text = q.text

/-- **A response of `/predict` is the unbatched one**, if the backend works row by row and
`json.loads` undoes `json.dumps` on its rows: a 200 response carries the label and the score that
the direct call gives for its text.

**Proof sketch.** The value behind the response is a row computed for the text
(`Integrity.row_of_source`), which is the row of the direct call (`Computed.row_eq`). -/
theorem agrees_of_rowWise {t₀ : ℚ} {es : List (ℚ × ServerAction)}
    (h : ComputedRun lib predictBatch (new args t₀) es s) (hrow : RowWise predict predictBatch row)
    (hjson : ∀ text raw, lib.dumps (row text) = some raw → lib.loads raw = some (row text))
    {req : Request} (hreq : req ∈ s.requests) {body : PredictResponse}
    (hbody : req.response = some (.ok body)) (start now : ℚ) :
    ∃ latencyMs, unbatched lib predict req.text start now =
      .ok { body with latencyMs := latencyMs } := by
  have hI := integrity_exec h.run h.redis
  obtain ⟨-, bs, hbs⟩ := batcher_run h.run
  have hb : FlowInv s.batcher := flowInv_exec hbs
  have hcomputed := computed_exec h.run h.computes
  have hholds := hI.requests req hreq
  unfold Holds at hholds
  rw [Request.response_eq_some_iff.mp hbody] at hholds
  obtain ⟨v, now', hv, hresp⟩ := hholds
  have hrowFor : s.batcher.RowFor req.text v := by
    refine hI.row_of_source hb h.digests (fun text r hr raw hdumps => ?_) hreq hv
    rw [hcomputed.row_eq hb hrow hr] at hdumps ⊢
    exact hjson text raw hdumps
  obtain rfl : v = row req.text := hcomputed.row_eq hb hrow hrowFor
  obtain ⟨fields, hfields, hlabel, hscore, -⟩ := respond_eq_ok_iff.mp hresp
  refine ⟨.finite (pyRound ((now - start) * 1000) 2), ?_⟩
  rw [unbatched, hrow.one]
  exact respond_eq_ok_iff.mpr ⟨fields, hfields, hlabel, hscore, rfl⟩

/-! ## From the start of the server on -/

/-- The batcher that `startup` leaves behind. -/
def launched (t₀ : ℚ) : InferenceBatcher startupArgs Json :=
  { InferenceBatcher.new startupArgs Json t₀ with worker := .awaitFirst }

/-- The server with this batcher. -/
def serving (t₀ : ℚ) : Server startupArgs := { new startupArgs t₀ with batcher := launched t₀ }

/-- A run from there is a run from the beginning, in which the batcher is started first. -/
lemma ComputedRun.of_serving {t₀ : ℚ} {es : List (ℚ × ServerAction)} {s : Server startupArgs}
    (h : ComputedRun lib predictBatch (serving t₀) es s) :
    ComputedRun lib predictBatch (new startupArgs t₀) ((t₀, .batcher .start) :: es) s := by
  have hstep : step lib (new startupArgs t₀) (t₀, .batcher .start) = some (serving t₀) := by
    have hstart : InferenceBatcher.step (InferenceBatcher.new startupArgs Json t₀) (t₀, .start) =
        some (launched t₀) := InferenceBatcher.step_eq_some.mpr ⟨le_rfl, App.start_new t₀⟩
    have hle : (new startupArgs t₀).now ≤ t₀ := le_rfl
    rw [step, if_pos hle]
    exact act_of_effect (.batcher .start _ rfl hstart)
  have hrest : ∀ {C : Server startupArgs → ℚ × ServerAction → Prop},
      C (new startupArgs t₀) (t₀, .batcher .start) →
      Machine.StepsSatisfy (step lib) C (serving t₀) es →
      Machine.StepsSatisfy (step lib) C (new startupArgs t₀) ((t₀, .batcher .start) :: es) := by
    intro C hC hes
    refine Machine.stepsSatisfy_cons.mpr ⟨hC, fun s' hs' => ?_⟩
    obtain rfl := Option.some.inj (hstep.symm.trans hs')
    exact hes
  refine ⟨?_, hrest ?_ h.redis, hrest trivial h.computes, h.digests⟩
  · rw [Machine.exec_cons, hstep]
    exact h.run
  · intro p hp
    cases hp

/-! ## A run for the witnesses -/

/-- One request, which is computed in a batch of its own. -/
def soloRun (row : Json) : List (ℚ × ServerAction) :=
  [(0, .arrive "good"), (0, .lookup 0 (.ok none)), (0, .resume 0), (0, .batcher .collectFirst),
    (0, .batcher .loopTest), (1 / 50, .batcher .collectTimeout), (1 / 50, .batcher .acquire),
    (1 / 50, .batcher .dispatch), (1 / 50, .batcher (.callPredictFn 0)),
    (1 / 50, .batcher (.finish 0 (.returned [row]))), (1 / 50, .complete 0)]

/-- It is answered with the row. -/
lemma soloRun_requests (row : Json) :
    (Machine.exec (step goodLibrary) (serving 0) (soloRun row)).map Server.requests =
      some [⟨"good", 0, .answered (respond goodLibrary 0 (1 / 50) row)⟩] := by
  with_unfolding_all rfl

/-- It is computed by whatever returns the row for the text. -/
lemma computedRun_solo {row : Json} (hrow : predictBatch ["good"] = .ok [row])
    {s : Server startupArgs}
    (hrun : Machine.exec (step goodLibrary) (serving 0) (soloRun row) = some s)
    (hredis : Machine.StepsSatisfy (step goodLibrary) (RedisHonest goodLibrary) (serving 0)
      (soloRun row))
    (htasks : Machine.StepsSatisfy (step goodLibrary)
      (fun s _ => ∀ t ∈ s.batcher.tasks, t.batch.map Item.text = ["good"]) (serving 0)
      (soloRun row))
    (htexts : ∀ p ∈ s.requests, p.text = "good") :
    ComputedRun goodLibrary predictBatch (serving 0) (soloRun row) s where
  run := hrun
  redis := hredis
  computes pre e t hpre ht := by
    have hbatch := htasks pre e t hpre ht
    have hmem : e ∈ soloRun row := hpre.subset (by simp)
    simp only [soloRun, List.mem_cons, List.not_mem_nil, or_false] at hmem
    rcases hmem with rfl | rfl | rfl | rfl | rfl | rfl | rfl | rfl | rfl | rfl | rfl
    case inr.inr.inr.inr.inr.inr.inr.inr.inr.inl =>
      intro task htask
      rw [hbatch task (List.mem_of_getElem? htask)]
      exact hrow
    all_goals exact trivial
  digests p hp q hq _ := (htexts p hp).trans (htexts q hq).symm

/-- A plain library accepts every row of a backend. -/
lemma prediction_toJson {K : Type} {sha256 : String → String} {dumps : Json → Option String}
    {loads : String → Option Json} (value : K → ℚ) (r : Sentiment K) :
    Prediction (.plain sha256 dumps loads) (r.toJson value) :=
  ⟨_, r.label, .finite (value r.score), rfl, PyStr.asText_eq_some_iff.mpr rfl, rfl⟩

/-! ## The two backends -/

section Startup

variable {K τ : Type} [Field K] [LinearOrder K] [FloorRing K] {exp : K → K}

/-- **The whole server on the ONNX backend.** With a session that works row by row `startup`
installs the ONNX backend; and then, over any run of the server that it has started, with an empty
cache at first and an honest Redis, a 200 response of `/predict` carries the label and the score
that `/predict_onnx_unbatched` answers for its text.

**Proof sketch.** Such a session passes the probe with two rows (`Onnx.twoRows_of_rowByRow`), and
batches and single texts have the same rows (`Onnx.predictBatch_of_rowByRow`,
`Onnx.predict_of_rowByRow`). The rest is `agrees_of_rowWise`. -/
theorem predict_agrees_onnx (hexp : Softmax.IsExp exp) {m : OnnxModule K τ}
    {logits : String → Fin 2 → K} (hm : m.RowByRow logits) (value : K → ℚ) (model : Backend Json)
    (hmodel : model.getClassifier = .ok ()) (lib : Library)
    (hjson : ∀ (r : Sentiment K) raw, lib.dumps (r.toJson value) = some raw →
      lib.loads raw = some (r.toJson value))
    (stdout : Stdout) (t₀ : ℚ) (connected : Bool) (app : App Json) :
    App.Launched stdout t₀ connected "onnx_int8" (Onnx.dicts exp (.ok m) value)
        (App.startup stdout true (Onnx.dicts exp (.ok m) value) model t₀ connected app) ∧
      ∀ es s, ComputedRun lib (Onnx.dicts exp (.ok m) value).predictBatch (serving t₀) es s →
        ∀ req ∈ s.requests, ∀ body,
        req.response = some (.ok body) → ∀ start now, ∃ latencyMs,
          predictOnnxUnbatched lib
              (fun text => (Onnx.predict exp (.ok m) text).map (Sentiment.toJson value))
              req.text start now =
            .ok { body with latencyMs := latencyMs } := by
  set backend := Onnx.dicts exp (.ok m) value with hbackend
  set row : String → Json := fun text => (Onnx.sentiment exp (logits text)).toJson value with hrow
  have hmany : ∀ texts, texts ≠ [] → backend.predictBatch texts = .ok (texts.map row) := by
    intro texts hne
    have hrows := Onnx.predictBatch_of_rowByRow hexp hm hne
    simp only [hbackend, Onnx.dicts, Backend.map, Onnx.backend, hrows, Except.map, List.map_map,
      hrow]
    rfl
  have hone : ∀ text, (Onnx.predict exp (.ok m) text).map (Sentiment.toJson value) =
      .ok (row text) := by
    intro text
    rw [Onnx.predict_of_rowByRow hexp hm text]
    rfl
  have htwo : App.TwoRows true backend := (Onnx.twoRows_of_rowByRow hexp hm).map _
  have hloaded : (App.onnx true backend model).getClassifier = .ok () := rfl
  refine ⟨(App.startup_spec htwo.reportable hmodel hloaded t₀ connected app).1 htwo, ?_⟩
  intro es s h req hreq body hbody start now
  exact agrees_of_rowWise h.of_serving ⟨hone, hmany⟩
    (fun text raw hraw => hjson _ raw hraw) hreq hbody start now

/-- A score of four digits as a rational number. -/
noncomputable def fourDigits (x : ℝ) : ℚ := ⌊x * 10000⌋ / 10000

/-- What the ONNX functions return for a text of four letters. -/
noncomputable def lengthRow : Json :=
  (Onnx.sentiment Real.exp ![0, ((4 : ℕ) : ℝ)]).toJson fourDigits

/-- A run that is computed by `Onnx.lengthModule` answers its request as the direct call does. -/
theorem predict_agrees_onnx_length :
    ∃ s body latencyMs, Machine.exec (step goodLibrary) (serving 0) (soloRun lengthRow) = some s ∧
      (∃ req ∈ s.requests, req.text = "good" ∧ req.response = some (.ok body)) ∧
      predictOnnxUnbatched goodLibrary
          (fun text => (Onnx.predict Real.exp (.ok Onnx.lengthModule) text).map
            (Sentiment.toJson fourDigits)) "good" 1 1 =
        .ok { body with latencyMs := latencyMs } := by
  have hexp : Softmax.IsExp Real.exp := ⟨Real.exp_pos, Real.exp_strictMono, Real.exp_add⟩
  have hm : Onnx.lengthModule.RowByRow fun text => ![0, (text.length : ℝ)] := fun _ _ => rfl
  obtain ⟨-, hagrees⟩ := predict_agrees_onnx hexp hm fourDigits
    (⟨fun _ => .ok [], .ok ()⟩ : Backend Json) rfl goodLibrary
    (fun _ _ h => goodLibrary_loads h) App.utf8Stdout 0 true (App.imported true)
  obtain ⟨s, hs, hrequests⟩ := Option.map_eq_some_iff.mp (soloRun_requests lengthRow)
  have htexts : ∀ p ∈ s.requests, p.text = "good" := by simp [hrequests]
  obtain ⟨body, hbody⟩ : ∃ body, respond goodLibrary 0 (1 / 50) lengthRow = .ok body :=
    respond_ok_iff.mpr (prediction_toJson fourDigits _)
  rw [hbody] at hrequests
  set req : Request := ⟨"good", 0, .answered (.ok body)⟩ with hreqdef
  have hmem : req ∈ s.requests := by simp [hrequests]
  have hresponse : req.response = some (.ok body) := rfl
  have hrow : (Onnx.dicts Real.exp (.ok Onnx.lengthModule) fourDigits).predictBatch ["good"] =
      .ok [lengthRow] := by
    have hrows := Onnx.predictBatch_of_rowByRow hexp hm (List.cons_ne_nil "good" [])
    simp only [Onnx.dicts, Backend.map, Onnx.backend, hrows]
    rfl
  have hrun := computedRun_solo hrow hs (by decide +kernel) (by decide +kernel) htexts
  obtain ⟨latencyMs, hlatency⟩ := hagrees _ s hrun req hmem body hresponse 1 1
  exact ⟨s, body, latencyMs, hs, ⟨req, hmem, rfl, hresponse⟩, hlatency⟩

/-- **The whole server on the PyTorch backend.** If the ONNX batch function does not bring back two
rows, and raises nothing that the probe cannot report, or if the ONNX module is not there, `startup`
falls back to PyTorch; and then, with a pipeline that works row by row, with an empty cache at first
and an honest Redis, a 200 response of `/predict` carries the label and the score that
`/predict_unbatched` answers for its text.

**Proof sketch.** As for the ONNX backend, with the rows of the pipeline
(`Model.predictBatch_of_rowByRow`, `Model.predict_of_rowByRow`). -/
theorem predict_agrees_pytorch {p : Pipeline K} {classify : String → Sentiment K}
    (hp : p.RowByRow classify) (value : K → ℚ) (onnxAvailable : Bool) (modelOnnx : Backend Json)
    (honnx : modelOnnx.getClassifier = .ok ()) (htwo : ¬ App.TwoRows onnxAvailable modelOnnx)
    (stdout : Stdout) (hreport : App.Reportable stdout onnxAvailable modelOnnx) (lib : Library)
    (hjson : ∀ (r : Sentiment K) raw, lib.dumps (r.toJson value) = some raw →
      lib.loads raw = some (r.toJson value))
    (t₀ : ℚ) (connected : Bool) (app : App Json) :
    App.Launched stdout t₀ connected "pytorch (ONNX batch probe failed)"
        (Model.dicts (.ok p) value)
        (App.startup stdout onnxAvailable modelOnnx (Model.dicts (.ok p) value) t₀ connected app) ∧
      ∀ es s, ComputedRun lib (Model.dicts (.ok p) value).predictBatch (serving t₀) es s →
        ∀ req ∈ s.requests, ∀ body,
        req.response = some (.ok body) → ∀ start now, ∃ latencyMs,
          predictUnbatched lib
              (fun text => (Model.predict (.ok p) text).map (Sentiment.toJson value))
              req.text start now =
            .ok { body with latencyMs := latencyMs } := by
  set backend := Model.dicts (.ok p) value with hbackend
  set row : String → Json := fun text => (Model.rounded (classify text)).toJson value with hrow
  have hmany : ∀ texts, texts ≠ [] → backend.predictBatch texts = .ok (texts.map row) := by
    intro texts hne
    have hrows := Model.predictBatch_of_rowByRow hp hne
    simp only [hbackend, Model.dicts, Backend.map, Model.backend, hrows, Except.map, List.map_map,
      hrow]
    rfl
  have hone : ∀ text, (Model.predict (.ok p) text).map (Sentiment.toJson value) =
      .ok (row text) := by
    intro text
    rw [Model.predict_of_rowByRow hp text]
    rfl
  have hloaded : (App.onnx onnxAvailable modelOnnx backend).getClassifier = .ok () := by
    cases onnxAvailable with
    | false => rfl
    | true => exact honnx
  refine ⟨(App.startup_spec hreport rfl hloaded t₀ connected app).2 htwo, ?_⟩
  intro es s h req hreq body hbody start now
  exact agrees_of_rowWise h.of_serving ⟨hone, hmany⟩
    (fun text raw hraw => hjson _ raw hraw) hreq hbody start now

/-- A pipeline that finds every text good. -/
def goodPipeline : Pipeline ℚ where
  one _ := .ok [⟨"POSITIVE", 99984 / 100000⟩]
  many texts := .ok (texts.map fun _ => ⟨"POSITIVE", 99984 / 100000⟩)

/-- An ONNX module whose graph takes one row only: the probe fails, and the run that follows is
computed by the pipeline. -/
def staleOnnx : Backend Json where
  predictBatch texts :=
    if texts.length = 1 then .ok [goodRow] else .error ⟨"Fail", "MatMul dimension mismatch"⟩
  getClassifier := .ok ()

/-- The request of this run is answered as the direct call of the pipeline does. -/
theorem predict_agrees_pytorch_good :
    ∃ s latencyMs, Machine.exec (step goodLibrary) (serving 0) (soloRun goodRow) = some s ∧
      (∃ req ∈ s.requests, req.text = "good" ∧
        req.response = some (.ok (goodBody 20))) ∧
      predictUnbatched goodLibrary
          (fun text => (Model.predict (.ok goodPipeline) text).map (Sentiment.toJson id))
          "good" 1 1 =
        .ok { goodBody 20 with latencyMs := latencyMs } := by
  have hp : goodPipeline.RowByRow fun _ => ⟨"POSITIVE", 99984 / 100000⟩ :=
    ⟨fun _ => rfl, fun _ _ => rfl⟩
  have htwo : ¬ App.TwoRows true staleOnnx := by
    rintro ⟨-, out, hout, -⟩
    cases hout
  have hreport : App.Reportable App.utf8Stdout true staleOnnx := by
    rintro - e he
    obtain rfl := Except.error.inj he
    decide +kernel
  obtain ⟨-, hagrees⟩ := predict_agrees_pytorch hp id true staleOnnx rfl htwo App.utf8Stdout
    hreport goodLibrary (fun _ _ h => goodLibrary_loads h) 0 true (App.imported true)
  obtain ⟨s, hs, htexts, req, hreq, hresponse⟩ :
      ∃ s ∈ Machine.exec (step goodLibrary) (serving 0) (soloRun goodRow),
        (∀ p ∈ s.requests, p.text = "good") ∧
        ∃ req ∈ s.requests[0]?, req.response = some (.ok (goodBody 20)) := by
    decide +kernel
  have hrow : (Model.dicts (.ok goodPipeline) id).predictBatch ["good"] = .ok [goodRow] := by
    have hscore : roundTo (99984 / 100000 : ℚ) 4 = 9998 / 10000 := by decide +kernel
    simp only [Model.dicts, Backend.map, Model.backend,
      Model.predictBatch_of_rowByRow hp (List.cons_ne_nil "good" []), Model.rounded, hscore]
    rfl
  have hrun := computedRun_solo hrow hs (by decide +kernel) (by decide +kernel) htexts
  have hmem := List.mem_of_getElem? hreq
  obtain ⟨latencyMs, hlatency⟩ := hagrees _ s hrun req hmem _ hresponse 1 1
  rw [htexts req hmem] at hlatency
  exact ⟨s, latencyMs, hs, ⟨req, hmem, htexts req hmem, hresponse⟩, hlatency⟩

end Startup

end Server

end InferenceServer
