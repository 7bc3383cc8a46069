import InferenceServer.Python

set_option relaxedAutoImplicit false
set_option autoImplicit false

/-!
# The cache layer (`app/cache.py`)

`get` and `set` on whatever Redis does: a `GET` is given by its reply, and `set` by the command
that it sends.

## Main definitions

* `Library` — what the server calls in `hashlib`, `json` and FastAPI.
* `Library.plain`, `noLibrary` — libraries whose response fields accept texts and floats only.
* `Cache.makeKey`, `Cache.get`, `Cache.set`, `Cache.stats` — the functions of the module.
-/

namespace InferenceServer

/-- The functions that the server takes from libraries; `none` stands for an exception. -/
structure Library where
  /-- `hashlib.sha256(text.encode("utf-8")).hexdigest()` -/
  sha256 : String → String
  /-- `json.dumps` -/
  dumps : Json → Option String
  /-- `json.loads` -/
  loads : String → Option Json
  /-- what a `str` field of a response holds for a value, if FastAPI accepts and renders it -/
  strField : Json → Option String
  /-- what a `float` field of a response holds for a value, if FastAPI accepts and renders it -/
  floatField : Json → Option PyFloat
  /-- a `str` field accepts strings only, and hands them on as they are -/
  strField_eq : ∀ v label, strField v = some label → v = .str label
  /-- a `float` field hands on a number that is a `float` -/
  floatField_finite : ∀ x, floatField (.float (.finite x)) = some (.finite x)

/-- A `str` field that accepts every text. -/
def plainStr : Json → Option String
  | .str s => s.asText
  | _ => none

/-- A `float` field that accepts every `float`, and nothing else. -/
def plainFloat : Json → Option PyFloat
  | .float x => some x
  | _ => none

/-- The library with these two kinds of fields. -/
def Library.plain (sha256 : String → String) (dumps : Json → Option String)
    (loads : String → Option Json) : Library where
  sha256 := sha256
  dumps := dumps
  loads := loads
  strField := plainStr
  floatField := plainFloat
  strField_eq v label h := by
    unfold plainStr at h
    split at h
    · rw [PyStr.asText_eq_some_iff.mp h]
    · cases h
  floatField_finite _ := rfl

/-- The library that neither encodes nor decodes anything. -/
def noLibrary : Library := .plain id (fun _ => none) fun _ => none

/-- The counters `ml_cache_hits` and `ml_cache_misses`. -/
structure CacheMetrics where
  hits : ℕ
  misses : ℕ
  deriving DecidableEq, Repr

/-- The command `SETEX key ttl value`. -/
structure SetEx where
  key : String
  ttl : ℕ
  value : String
  deriving DecidableEq, Repr

/-- What a `GET` hands back: a string, nothing, or an exception. -/
abbrev RedisReply := Except PyException (Option String)

namespace Cache

/-- `TTL`. -/
def ttl : ℕ := 3600

/-- `KEY_PREFIX`. -/
def keyPrefix : String := "ml:pred:"

variable (lib : Library)

/-- `_make_key`. -/
def makeKey (text : String) : String := keyPrefix ++ lib.sha256 text

/-- Two texts with one key have one digest. -/
lemma makeKey_inj {text text' : String} (h : makeKey lib text = makeKey lib text') :
    lib.sha256 text = lib.sha256 text' :=
  (String.append_right_inj keyPrefix).mp h

/-- `get` on the reply to its `GET`: the counters afterwards, and the value returned. -/
def get (m : CacheMetrics) : RedisReply → CacheMetrics × Json
  | .ok (some raw) =>
    if raw ≠ "" then
      match lib.loads raw with
      | some v => ({ m with hits := m.hits + 1 }, v)
      -- the hit has been counted when the decoder raises
      | none => ({ hits := m.hits + 1, misses := m.misses + 1 }, .null)
    else ({ m with misses := m.misses + 1 }, .null)
  | .ok none => ({ m with misses := m.misses + 1 }, .null)
  | .error _ => ({ m with misses := m.misses + 1 }, .null)

/-- `set`: the command it sends, unless `json.dumps` raises. -/
def set (text : String) (result : Json) : Option SetEx :=
  (lib.dumps result).map fun value => ⟨makeKey lib text, ttl, value⟩

/-- The two entries of `INFO stats` that `stats` reads, if they are there. -/
structure RedisInfo where
  keyspaceHits : Option ℕ
  keyspaceMisses : Option ℕ
  deriving DecidableEq, Repr

/-- What `stats` returns. -/
structure Stats where
  connected : Bool
  hits : ℕ
  misses : ℕ
  hitRate : ℚ
  deriving DecidableEq, Repr

/-- `stats` on the reply to its `INFO`, or on the exception that it raises. -/
def stats : Except PyException RedisInfo → Stats
  | .ok info =>
    let hits := info.keyspaceHits.getD 0
    let misses := info.keyspaceMisses.getD 0
    let total := hits + misses
    { connected := true
      hits := hits
      misses := misses
      hitRate := if total > 0 then pyRound (hits / total * 100) 1 else 0 }
  | .error _ => { connected := false, hits := 0, misses := 0, hitRate := 0 }

/-- A value that counts as true was decoded from the string that Redis returned. -/
lemma get_truthy {m : CacheMetrics} {reply : RedisReply}
    (h : (get lib m reply).2.truthy = true) :
    ∃ raw, reply = .ok (some raw) ∧ lib.loads raw = some (get lib m reply).2 := by
  unfold get at h ⊢
  split
  · rename_i raw
    dsimp only at h
    split_ifs at h ⊢ with hr
    · split at h
      · rename_i v hv
        exact ⟨raw, rfl, hv⟩
      · cases h
    · cases h
  all_goals cases h

end Cache

end InferenceServer
