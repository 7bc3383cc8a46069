import InferenceServer.Onnx

set_option relaxedAutoImplicit false
set_option autoImplicit false

/-!
# The PyTorch backend (`app/model.py`)

`predict` and `predict_batch` on the pipeline of `transformers`, which is a parameter, as it comes
out of `get_classifier`.

## Main definitions

* `Pipeline` — the pipeline, called with one text or with several.
* `Model.predict`, `Model.predictBatch` — the functions of the module.
* `Pipeline.RowByRow` — a text has the same label and score alone as inside any batch.
* `Backend.map`, `Sentiment.toJson` — a backend whose rows are the `dict`s that it returns.

## Main results

* `Model.predict_of_rowByRow`, `Model.predictBatch_of_rowByRow` — one text, and several.
-/

namespace InferenceServer

/-- The pipeline: the list of labels and scores for one text, and for a list of texts. -/
structure Pipeline (K : Type) where
  one : String → Except RaisedException (List (Sentiment K))
  many : List String → Except RaisedException (List (Sentiment K))

/-- Each text has the row `classify text`, alone as inside any batch. -/
def Pipeline.RowByRow {K : Type} (p : Pipeline K) (classify : String → Sentiment K) : Prop :=
  (∀ text, p.one text = .ok [classify text]) ∧
    ∀ texts, texts ≠ [] → p.many texts = .ok (texts.map classify)

namespace Model

variable {K : Type} [Field K] [LinearOrder K] [FloorRing K]

/-- `{"label": r["label"], "score": round(float(r["score"]), 4)}`. -/
def rounded (r : Sentiment K) : Sentiment K := { label := r.label, score := roundTo r.score 4 }

/-- `predict`. -/
def predict (load : Except RaisedException (Pipeline K)) (text : String) :
    Except RaisedException (Sentiment K) := do
  let classifier ← load
  let results ← classifier.one text
  match results.head? with
  | some result => return rounded result
  | none => throw indexError

/-- `predict_batch`. -/
def predictBatch (load : Except RaisedException (Pipeline K)) (texts : List String) :
    Except RaisedException (List (Sentiment K)) := do
  let classifier ← load
  let results ← classifier.many texts
  return results.map rounded

/-- The module as a backend of the server. -/
def backend (load : Except RaisedException (Pipeline K)) : Backend (Sentiment K) where
  predictBatch := predictBatch load
  getClassifier := load.map fun _ => ()

variable {p : Pipeline K} {classify : String → Sentiment K}

/-- `predict` on a text. -/
lemma predict_of_rowByRow (h : p.RowByRow classify) (text : String) :
    predict (.ok p) text = .ok (rounded (classify text)) := by
  simp only [predict, bind, Except.bind, h.1 text]
  rfl

/-- `predict_batch` on several texts. -/
lemma predictBatch_of_rowByRow (h : p.RowByRow classify) {texts : List String} (hne : texts ≠ []) :
    predictBatch (.ok p) texts = .ok (texts.map fun text => rounded (classify text)) := by
  simp only [predictBatch, bind, Except.bind, h.2 texts hne]
  exact congrArg Except.ok (List.map_map ..)

end Model

/-! ## Rows as `dict`s -/

/-- The `dict` of a row; `value` reads its score as a number. -/
def Sentiment.toJson {K : Type} (value : K → ℚ) (r : Sentiment K) : Json :=
  .obj [("label", .str r.label), ("score", .float (.finite (value r.score)))]

/-- A backend whose rows are read by `f`. -/
def Backend.map {ρ σ : Type} (f : ρ → σ) (b : Backend ρ) : Backend σ where
  predictBatch texts := (b.predictBatch texts).map (List.map f)
  getClassifier := b.getClassifier

/-- Two rows are two rows, however they are read. -/
lemma App.TwoRows.map {ρ σ : Type} {onnxAvailable : Bool} {b : Backend ρ}
    (h : App.TwoRows onnxAvailable b) (f : ρ → σ) : App.TwoRows onnxAvailable (b.map f) := by
  obtain ⟨ha, out, hout, hlen⟩ := h
  refine ⟨ha, out.map f, ?_, by rw [List.length_map, hlen]⟩
  simp only [Backend.map, hout, Except.map]

/-- `app.model_onnx`, with its rows as `dict`s. -/
def Onnx.dicts {K τ : Type} [Field K] [LinearOrder K] [FloorRing K] (exp : K → K)
    (load : Except RaisedException (OnnxModule K τ)) (value : K → ℚ) : Backend Json :=
  (Onnx.backend exp load).map (Sentiment.toJson value)

/-- `app.model`, with its rows as `dict`s. -/
def Model.dicts {K : Type} [Field K] [LinearOrder K] [FloorRing K]
    (load : Except RaisedException (Pipeline K)) (value : K → ℚ) : Backend Json :=
  (Model.backend load).map (Sentiment.toJson value)

end InferenceServer
