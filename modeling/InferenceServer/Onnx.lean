import InferenceServer.Numerics.Softmax
import InferenceServer.Python
import InferenceServer.Startup
import Mathlib.Analysis.SpecialFunctions.Exp

set_option relaxedAutoImplicit false
set_option autoImplicit false

/-!
# The ONNX backend (`app/model_onnx.py`)

`predict` and `predict_batch` over an ordered field. The tokenizer and the session are parameters,
as they come out of `_load`; so is `np.exp`.

## Main definitions

* `TokenizerArgs`, `Encoding`, `OnnxModule` — the tokenizer and the session.
* `Onnx.softmax` — `_softmax`, along the last axis of a matrix.
* `Onnx.predict`, `Onnx.predictBatch` — one text and many.
* `OnnxModule.RowByRow` — a text has the same logits alone as inside any batch.

## Main results

* `Onnx.softmax_eq_map` — `_softmax` is the softmax of each row.
* `Onnx.predict_batch_eq_predict` — batched inference is single inference.
* `Onnx.onnxBatchIsSafe_of_rowByRow` — such a backend passes the probe of `startup`.

## Design

Scores are elements of an ordered field with a floor, which has an exponential; the rationals have
none. `roundTo` is `pyRound` there.
-/

namespace InferenceServer

/-- `round(x, digits)`. -/
def roundTo {K : Type} [Field K] [LinearOrder K] [FloorRing K] (x : K) (digits : ℕ) : K :=
  let y := x * 10 ^ digits
  (if y - ⌊y⌋ < 1 / 2 then ⌊y⌋
    else if 1 / 2 < y - ⌊y⌋ then ⌊y⌋ + 1
    else if ⌊y⌋ % 2 = 0 then ⌊y⌋ else ⌊y⌋ + 1 : ℤ) / 10 ^ digits

/-- On the rationals it is `pyRound`. -/
lemma roundTo_eq_pyRound (x : ℚ) (digits : ℕ) : roundTo x digits = pyRound x digits := rfl

/-- A row of the result: `{"label": label, "score": score}`. -/
structure Sentiment (K : Type) where
  label : String
  score : K
  deriving DecidableEq, Repr

/-- `MAX_SEQ_LEN`. -/
def maxSeqLen : ℕ := 128

/-- The arguments of the tokenizer. -/
structure TokenizerArgs where
  texts : List String
  returnTensors : String
  padding : Bool
  maxLength : ℕ
  truncation : Bool
  deriving DecidableEq, Repr

/-- What the tokenizer returns. -/
structure Encoding (τ : Type) where
  inputIds : τ
  attentionMask : τ

/-- `_tokenizer` and `_session.run(["logits"], ...)[0]`. -/
structure OnnxModule (K τ : Type) where
  tokenizer : TokenizerArgs → Encoding τ
  run : τ → τ → Array2 K 2

namespace OnnxModule

variable {K τ : Type}

/-- `_tokenize`. -/
def tokenize (m : OnnxModule K τ) (texts : List String) : Encoding τ :=
  m.tokenizer
    { texts := texts
      returnTensors := "np"
      padding := true
      maxLength := maxSeqLen
      truncation := true }

/-- `outputs[0]` for these texts. -/
def outputs (m : OnnxModule K τ) (texts : List String) : Array2 K 2 :=
  m.run (m.tokenize texts).inputIds (m.tokenize texts).attentionMask

/-- Each text has the row `logits text`, alone as inside any batch. -/
def RowByRow (m : OnnxModule K τ) (logits : String → Fin 2 → K) : Prop :=
  ∀ texts, texts ≠ [] → m.outputs texts = texts.map logits

end OnnxModule

namespace Onnx

/-- `ID2LABEL`. -/
def id2label : Fin 2 → String
  | 0 => "NEGATIVE"
  | 1 => "POSITIVE"

variable {K τ : Type} [Field K] [LinearOrder K] (exp : K → K)

/-- `_softmax`. -/
def softmax {m : ℕ} [NeZero m] (logits : Array2 K m) : Array2 K m :=
  let shifted := Array2.broadcast (· - ·) logits logits.maxLast
  let e := shifted.entrywise exp
  Array2.broadcast (· / ·) e e.sumLast

/-- **`_softmax` is the softmax of each row**: the maximum that it subtracts is the row's own, and
cancels. -/
theorem softmax_eq_map {exp : K → K} (h : Softmax.IsExp exp) {m : ℕ} [NeZero m]
    (logits : Array2 K m) : softmax exp logits = logits.map (Softmax.weights exp) := by
  simp only [softmax, Array2.maxLast, Array2.entrywise, Array2.broadcast_map, List.map_map]
  rw [Array2.sumLast, Array2.broadcast_map, List.map_map]
  refine List.map_congr_left fun row _ => ?_
  rw [← Softmax.weights_sub h row (Finset.univ.sup' ⟨0, Finset.mem_univ 0⟩ row)]
  rfl

/-- The probabilities of several texts. -/
lemma softmax_outputs {exp : K → K} (h : Softmax.IsExp exp) {m : OnnxModule K τ}
    {logits : String → Fin 2 → K} (hm : m.RowByRow logits) {texts : List String}
    (hne : texts ≠ []) :
    softmax exp (m.outputs texts) = texts.map fun text => Softmax.weights exp (logits text) := by
  rw [hm texts hne, softmax_eq_map h, List.map_map]
  rfl

variable [FloorRing K]

/-- `predict`. -/
def predict (load : Except RaisedException (OnnxModule K τ)) (text : String) :
    Except RaisedException (Sentiment K) := do
  let m ← load
  match (softmax exp (m.outputs [text]))[0]? with
  | some probs =>
    let labelIdx := Array2.argmax probs
    return { label := id2label labelIdx, score := roundTo (probs labelIdx) 4 }
  | none => throw indexError

/-- `predict_batch`. -/
def predictBatch (load : Except RaisedException (OnnxModule K τ)) (texts : List String) :
    Except RaisedException (List (Sentiment K)) := do
  let m ← load
  return (softmax exp (m.outputs texts)).map fun probs =>
    let labelIdx := Array2.argmax probs
    { label := id2label labelIdx, score := roundTo (probs labelIdx) 4 }

/-- The module as a backend of the server. -/
def backend (load : Except RaisedException (OnnxModule K τ)) : Backend (Sentiment K) where
  predictBatch := predictBatch exp load
  getClassifier := load.map fun _ => ()

variable {exp : K → K}

/-- What `predict` and `predict_batch` return for a text with these logits. -/
def sentiment (exp : K → K) (row : Fin 2 → K) : Sentiment K where
  label := id2label (Array2.argmax (Softmax.weights exp row))
  score := roundTo (Softmax.weights exp row (Array2.argmax (Softmax.weights exp row))) 4

variable {m : OnnxModule K τ} {logits : String → Fin 2 → K}

/-- `predict` on a text. -/
lemma predict_of_rowByRow (h : Softmax.IsExp exp) (hm : m.RowByRow logits) (text : String) :
    predict exp (.ok m) text = .ok (sentiment exp (logits text)) := by
  have hout := softmax_outputs h hm (List.cons_ne_nil text [])
  simp only [predict, bind, Except.bind, hout]
  rfl

/-- `predict_batch` on several texts. -/
lemma predictBatch_of_rowByRow (h : Softmax.IsExp exp) (hm : m.RowByRow logits)
    {texts : List String} (hne : texts ≠ []) :
    predictBatch exp (.ok m) texts = .ok (texts.map fun text => sentiment exp (logits text)) := by
  simp only [predictBatch, bind, Except.bind, softmax_outputs h hm hne, List.map_map]
  rfl

/-- A module that works row by row brings back two rows from the probe of `startup`. -/
lemma twoRows_of_rowByRow (h : Softmax.IsExp exp) (hm : m.RowByRow logits) :
    App.TwoRows true (backend exp (.ok m)) :=
  ⟨rfl, _, predictBatch_of_rowByRow h hm (by simp [probeTexts]), rfl⟩

/-- **A backend that works row by row passes the probe of `startup`.** -/
theorem onnxBatchIsSafe_of_rowByRow (h : Softmax.IsExp exp) (hm : m.RowByRow logits)
    (stdout : Stdout) (model : Backend (Sentiment K)) (app : App (Sentiment K)) :
    ∃ lines, App.onnxBatchIsSafe stdout true (backend exp (.ok m)) model app =
      (.normal, { app with output := app.output ++ lines, safe := some true }) := by
  have htwo := twoRows_of_rowByRow h hm
  obtain ⟨lines, b, happ, hb⟩ := App.onnxBatchIsSafe_spec model htwo.reportable app
  obtain rfl : b = true := hb.mpr htwo
  exact ⟨lines, happ⟩

/-- **Batched inference equals single inference.** For a module that works row by row,
`predict_batch` returns one row for each text, in order, and it is what `predict` returns for this
text; the probabilities behind it are the softmax of the logits of this text only, the label belongs
to the first index of their maximum, and the score before it is rounded is at least `1 / 2`.

**Proof sketch.** `_softmax` works row by row (`softmax_eq_map`), so both functions compute
`sentiment`; the maximum is where the logits have theirs (`Softmax.argmax_weights`), and is at least
one half of the sum (`Softmax.inv_card_le_weights`). -/
theorem predict_batch_eq_predict [IsStrictOrderedRing K] (exp : K → K)
    (hexp : Softmax.IsExp exp) (m : OnnxModule K τ) (logits : String → Fin 2 → K)
    (hm : m.RowByRow logits) (texts : List String) (hne : texts ≠ []) :
    ∃ rows, predictBatch exp (.ok m) texts = .ok rows ∧ rows.length = texts.length ∧
      (softmax exp (m.outputs texts)).length = texts.length ∧
      ∀ (i : ℕ) (text : String), texts[i]? = some text →
        ∃ (row : Sentiment K) (probs : Fin 2 → K) (label : Fin 2),
          rows[i]? = some row ∧ predict exp (.ok m) text = .ok row ∧
          (softmax exp (m.outputs texts))[i]? = some probs ∧
          (∀ j, probs j = exp (logits text j) / ∑ k, exp (logits text k)) ∧
          Array2.IsFirstMax (logits text) label ∧ 1 / 2 ≤ probs label ∧
          row = { label := id2label label, score := roundTo (probs label) 4 } := by
  have hout := softmax_outputs hexp hm hne
  refine ⟨_, predictBatch_of_rowByRow hexp hm hne, by simp, by simp [hout], ?_⟩
  intro i text hi
  have hlabel := Softmax.argmax_weights hexp (logits text)
  have hfirst := Array2.argmax_isFirstMax (logits text)
  have hhalf := Softmax.inv_card_le_weights hexp hfirst
  refine ⟨_, Softmax.weights exp (logits text), Array2.argmax (logits text), ?_,
    predict_of_rowByRow hexp hm text, ?_, fun j => rfl, hfirst, ?_, ?_⟩
  · rw [List.getElem?_map, hi, Option.map_some]
  · rw [hout, List.getElem?_map, hi, Option.map_some]
  · simpa using hhalf
  · rw [sentiment, hlabel]

/-- A module whose logits are `0` and the length of the text. -/
def lengthModule : OnnxModule ℝ (List String) where
  tokenizer a := ⟨a.texts, a.texts⟩
  run ids _ := ids.map fun text => ![0, (text.length : ℝ)]

/-- Two texts, with the exponential function: the batch gives the row of the first one alone. -/
theorem predict_batch_eq_predict_two :
    ∃ rows row, predictBatch Real.exp (.ok lengthModule) ["good", ""] = .ok rows ∧
      rows.length = 2 ∧ rows[0]? = some row ∧
      predict Real.exp (.ok lengthModule) "good" = .ok row := by
  have hexp : Softmax.IsExp Real.exp := ⟨Real.exp_pos, Real.exp_strictMono, Real.exp_add⟩
  obtain ⟨rows, hrows, hlen, -, hrow⟩ := predict_batch_eq_predict Real.exp hexp lengthModule
    (fun text => ![0, (text.length : ℝ)]) (fun _ _ => rfl) ["good", ""] (by simp)
  obtain ⟨row, _, _, hi, hpredict, -⟩ := hrow 0 "good" rfl
  exact ⟨rows, row, hrows, hlen, hi, hpredict⟩

end Onnx

end InferenceServer
