import Mathlib.Data.List.Basic
import Mathlib.Tactic.Lemma

set_option relaxedAutoImplicit false
set_option autoImplicit false

/-!
# Python strings

A Python `str` is a sequence of code points, and a lone surrogate may be among them: JSON decodes to
one, and no text encoding accepts it. A Lean `String` is a text, which has none.

## Main definitions

* `CodePoint`, `PyStr` — the elements, and a `str`.
* `PyStr.ofString`, `PyStr.asText` — a text as a `str`, and back, if it is one.
* `PyStr.isLineBreak`, `PyStr.splitlines` — `str.splitlines`.

## Main results

* `PyStr.asText_eq_some_iff` — `asText` is the inverse of `ofString`.
* `PyStr.head?_splitlines` — the first line, if there is one.
-/

/-- A code point of Unicode, which may be a surrogate. -/
abbrev CodePoint := Fin 0x110000

/-- The code point of a character. -/
def Char.codePoint (c : Char) : CodePoint where
  val := c.toNat
  isLt := by
    rcases c.valid with h | h
    · exact Nat.lt_trans h (by decide)
    · exact h.2

/-- The character of a code point that is no surrogate. -/
def CodePoint.asChar (p : CodePoint) : Option Char :=
  if h : p.val.isValidChar then some (Char.ofNatAux p.val h) else none

/-- A code point has the character whose code point it is. -/
lemma CodePoint.asChar_eq_some_iff {p : CodePoint} {c : Char} :
    p.asChar = some c ↔ p = c.codePoint := by
  constructor
  · intro h
    by_cases hv : p.val.isValidChar
    · rw [asChar, dif_pos hv] at h
      obtain rfl := Option.some.inj h
      exact Fin.ext rfl
    · rw [asChar, dif_neg hv] at h
      cases h
  · rintro rfl
    have hvalid : c.codePoint.val.isValidChar := c.valid
    rw [asChar, dif_pos hvalid]
    exact congrArg some (Char.ext rfl)

/-- A `str`. -/
structure PyStr where
  points : List CodePoint
  deriving DecidableEq, Repr

namespace PyStr

/-- A text. -/
def ofString (s : String) : PyStr := ⟨s.toList.map Char.codePoint⟩

instance : Coe String PyStr := ⟨ofString⟩

instance : Append PyStr := ⟨fun s t => ⟨s.points ++ t.points⟩⟩

/-- The text, if no surrogate is among the code points. -/
def asText (s : PyStr) : Option String := (s.points.mapM CodePoint.asChar).map String.ofList

/-- Code points are those of the characters that they have. -/
lemma mapM_asChar_eq_some_iff {points : List CodePoint} {chars : List Char} :
    points.mapM CodePoint.asChar = some chars ↔ points = chars.map Char.codePoint := by
  induction points generalizing chars with
  | nil => simp [eq_comm]
  | cons p points ih =>
    cases chars with
    | nil => simp [List.mapM_cons, Option.bind_eq_some_iff]
    | cons c chars =>
      simp [List.mapM_cons, Option.bind_eq_some_iff, ih, CodePoint.asChar_eq_some_iff]

/-- **A `str` is a text exactly if it comes from one.** -/
theorem asText_eq_some_iff {s : PyStr} {t : String} : s.asText = some t ↔ s = ofString t := by
  obtain ⟨points⟩ := s
  simp only [asText, ofString, Option.map_eq_some_iff, mapM_asChar_eq_some_iff, mk.injEq]
  constructor
  · rintro ⟨chars, rfl, rfl⟩
    rw [String.toList_ofList]
  · intro h
    exact ⟨t.toList, h, String.ofList_toList⟩

/-! ## Lines -/

/-- The code points that end a line: `\n`, `\v`, `\f`, `\r`, the separators of files, groups and
records, NEL, LS and PS. -/
def isLineBreak (p : CodePoint) : Bool :=
  p ∈ [0x0A, 0x0B, 0x0C, 0x0D, 0x1C, 0x1D, 0x1E, 0x85, 0x2028, 0x2029]

/-- The lines of a `str` whose first line has begun with `line`. -/
def splitFrom (line : List CodePoint) : List CodePoint → List PyStr
  -- the last line counts only if it has a character
  | [] => if line = [] then [] else [⟨line⟩]
  -- `\r\n` ends a line once
  | 0x0D :: 0x0A :: rest => ⟨line⟩ :: splitFrom [] rest
  | p :: rest => if isLineBreak p then ⟨line⟩ :: splitFrom [] rest else splitFrom (line ++ [p]) rest

/-- `str.splitlines`. -/
def splitlines (s : PyStr) : List PyStr := splitFrom [] s.points

/-- The code points up to the first line break. -/
def firstLine (s : PyStr) : PyStr := ⟨s.points.takeWhile fun p => !isLineBreak p⟩

/-- The first line goes on to the first line break.

**Proof sketch.** Induction on the code points along the cases of `splitFrom`. -/
lemma head?_splitFrom (line points : List CodePoint) :
    (splitFrom line points).head? =
      if line = [] ∧ points = [] then none
      else some ⟨line ++ points.takeWhile fun p => !isLineBreak p⟩ := by
  fun_induction splitFrom line points with
  | case1 => simp
  | case2 line hline => simp [hline]
  | case3 line rest ih => simp [isLineBreak]
  | case4 line p rest hcrlf hbreak ih => simp [hbreak]
  | case5 line p rest hcrlf hbreak ih =>
    rw [Bool.not_eq_true] at hbreak
    simp [ih, hbreak]

/-- **The first line of a `str`**: there is one exactly when the `str` is not empty, and it goes up
to the first line break. -/
theorem head?_splitlines (s : PyStr) :
    s.splitlines.head? = if s.points = [] then none else some s.firstLine := by
  rw [splitlines, head?_splitFrom]
  simp [firstLine]

end PyStr
