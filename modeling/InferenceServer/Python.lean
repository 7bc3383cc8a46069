import Mathlib.Data.Rat.Floor
import Mathlib.Tactic.Linarith
import InferenceServer.Python.Text

set_option relaxedAutoImplicit false
set_option autoImplicit false

/-!
# Python built-ins used by the server

Numbers are exact rationals, so what depends on them here is the arithmetic of the source
without its floating-point error.

## Main definitions

* `InferenceServer.roundHalfEven`, `InferenceServer.pyRound` — `round` on numbers.
* `InferenceServer.PyException` — an exception object, up to its class and its text.
* `InferenceServer.PyFloat`, `InferenceServer.Json` — the values that `json.loads` builds, with
  their truth value.
* `InferenceServer.dictGet`, `InferenceServer.dictSet` — `d.get(k)` and `{**d, k: v}`.
-/

namespace InferenceServer

/-- The integer nearest to `x`, the even one of two equally near. -/
def roundHalfEven (x : ℚ) : ℤ :=
  if x - ⌊x⌋ < 1 / 2 then ⌊x⌋
  else if 1 / 2 < x - ⌊x⌋ then ⌊x⌋ + 1
  else if ⌊x⌋ % 2 = 0 then ⌊x⌋ else ⌊x⌋ + 1

/-- Python's `round(x, digits)`. -/
def pyRound (x : ℚ) (digits : ℕ) : ℚ := roundHalfEven (x * 10 ^ digits) / 10 ^ digits

/-- Rounding moves a number by one half at most. -/
lemma abs_roundHalfEven_sub_le (x : ℚ) : |(roundHalfEven x : ℚ) - x| ≤ 1 / 2 := by
  have hle : (⌊x⌋ : ℚ) ≤ x := Int.floor_le x
  have hlt : x < ⌊x⌋ + 1 := Int.lt_floor_add_one x
  rw [abs_le]
  unfold roundHalfEven
  split_ifs
  · constructor <;> linarith
  · rw [Int.cast_add, Int.cast_one]
    constructor <;> linarith
  · constructor <;> linarith
  · rw [Int.cast_add, Int.cast_one]
    constructor <;> linarith

/-- Rounding to `digits` digits moves a number by half a unit of the last one at most. -/
lemma abs_pyRound_sub_le (x : ℚ) (digits : ℕ) : |pyRound x digits - x| ≤ 1 / 2 / 10 ^ digits := by
  have hpos : (0 : ℚ) < 10 ^ digits := pow_pos (by norm_num) digits
  have hdiff : pyRound x digits - x =
      (roundHalfEven (x * 10 ^ digits) - x * 10 ^ digits) / 10 ^ digits := by
    rw [pyRound, sub_div, mul_div_cancel_right₀ x hpos.ne']
  rw [hdiff, abs_div, abs_of_pos hpos]
  exact div_le_div_of_nonneg_right (abs_roundHalfEven_sub_le _) hpos.le

/-- The classes of exceptions that the source and asyncio tell apart. `runtimeError` stands for
`RuntimeError` and its subclasses other than `CircuitOpenError`, `stopIteration` for
`StopIteration` and its subclasses, `futuresCancelledError` and `futuresInvalidStateError` for the
classes `CancelledError` and `InvalidStateError` of `concurrent.futures` themselves, and `other` for
the remaining subclasses of `Exception`. -/
inductive ExcClass
  | circuitOpenError
  | runtimeError
  | stopIteration
  | futuresCancelledError
  | futuresInvalidStateError
  | other
  deriving DecidableEq, Repr

/-- An instance of a subclass of `Exception`: its class and its `str`, which is a text. -/
structure PyException where
  cls : ExcClass
  message : String
  deriving DecidableEq, Repr

/-- `isinstance(e, RuntimeError)`, which is what `except RuntimeError` catches. -/
def PyException.isRuntimeError (e : PyException) : Bool :=
  match e.cls with
  | .circuitOpenError => true
  | .runtimeError => true
  | _ => false

/-! ## JSON values -/

/-- A `float`; `nonFinite` stands for `nan`, `inf` and `-inf`. -/
inductive PyFloat
  | finite (x : ℚ)
  | nonFinite
  deriving DecidableEq, Repr

/-- A value as `json.loads` builds it: integers are of any size, `NaN` and `Infinity` are accepted,
a `str` may have lone surrogates, and an object is a `dict`, in insertion order. -/
inductive Json
  | null
  | bool (b : Bool)
  | int (n : ℤ)
  | float (x : PyFloat)
  | str (s : PyStr)
  | arr (xs : List Json)
  | obj (fields : List (PyStr × Json))
  deriving Repr

/-- `bool(v)`. -/
def Json.truthy : Json → Bool
  | .null => false
  | .bool b => b
  | .int n => n ≠ 0
  | .float x => x ≠ .finite 0
  | .str s => s ≠ ""
  | .arr xs => !xs.isEmpty
  | .obj fields => !fields.isEmpty

/-- `d.get(key)`. -/
def dictGet (d : List (PyStr × Json)) (key : PyStr) : Option Json :=
  (d.find? fun e => e.1 = key).map Prod.snd

/-- `{**d, key: v}`: an entry keeps its place, a new one goes to the end. -/
def dictSet (d : List (PyStr × Json)) (key : PyStr) (v : Json) : List (PyStr × Json) :=
  if d.any fun e => e.1 = key then d.map fun e => if e.1 = key then (key, v) else e
  else d ++ [(key, v)]

/-- `{**d, key: v}` has the entry.

**Proof sketch.** The first entry under `key`, if there is one, is replaced; otherwise the entry at
the end is the only one. -/
lemma dictGet_dictSet_self {d : List (PyStr × Json)} {key : PyStr} {v : Json} :
    dictGet (dictSet d key v) key = some v := by
  unfold dictSet dictGet
  split_ifs with hk
  · induction d with
    | nil => simp at hk
    | cons e d ih =>
      by_cases he : e.1 = key
      · simp [he]
      · simpa [he] using ih (by simpa [he] using hk)
  · have hnone : (d.find? fun e => e.1 = key) = none :=
      List.find?_eq_none.mpr fun e he hkey => hk (List.any_eq_true.mpr ⟨e, he, hkey⟩)
    simp [List.find?_append, hnone]

/-- `{**d, key: v}` changes no other entry.

**Proof sketch.** Replacing entries under `key` keeps whether an entry is the first one under
another key, and an entry at the end comes after every other. -/
lemma dictGet_dictSet_of_ne {d : List (PyStr × Json)} {key other : PyStr} {v : Json}
    (h : other ≠ key) : dictGet (dictSet d key v) other = dictGet d other := by
  unfold dictSet
  split_ifs with hk
  · clear hk
    unfold dictGet
    induction d with
    | nil => rfl
    | cons e d ih =>
      by_cases he : e.1 = key
      · simpa [he, h.symm] using ih
      · by_cases ho : e.1 = other
        · simp [ho, h]
        · simpa [he, ho] using ih
  · simp [dictGet, List.find?_append, h.symm]

end InferenceServer
