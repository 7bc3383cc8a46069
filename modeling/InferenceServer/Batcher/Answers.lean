import InferenceServer.Batcher.Gate

set_option relaxedAutoImplicit false
set_option autoImplicit false

/-!
# What becomes of the futures

A future is written once: by the cancellation of its caller, or by the end of the batch that its
request is in. The end of a batch gives the `i`-th request the `i`-th row or the exception that
the batch ended with, also when other callers of the batch have gone.

## Main definitions

* `InferenceBatcher.answer` — what the end of a batch means for its `i`-th request.
* `InferenceBatcher.AnsweredBy` — a value that a future has from the end of a batch.
* `InferenceBatcher.RowFor` — a row that `predict_fn` computed for a text.

## Main results

* `InferenceBatcher.finish_answer` — the end of a batch gives every pending request its answer.
* `InferenceBatcher.Effect.futures_keep` — a future that is done keeps its value.
* `InferenceBatcher.Effect.futures_cases` — where the value of a future comes from.
* `InferenceBatcher.answers_exec` — every result and every exception comes from the end of a batch.
* `InferenceBatcher.results_exec` — a future holds only rows computed for the text of its request.
-/

namespace InferenceServer

namespace InferenceBatcher

variable {args : BatcherArgs} {ρ : Type} {s s' : InferenceBatcher args ρ} {a : Action ρ}

/-! ## A loop of `settle` -/

section Settle

variable {fs : List (Future ρ)} {vs : List (ℕ × Future ρ)} {f : ℕ} {v : Future ρ}

/-- A loop of `settle` leaves a future alone that it does not mention. -/
lemma settleAll_of_not_mem (h : f ∉ vs.map Prod.fst) : (settleAll fs vs)[f]? = fs[f]? := by
  rcases settleAll_cases fs vs f with he | ⟨-, v, hv, -⟩
  · exact he
  · exact absurd (List.mem_map_of_mem hv) h

/-- A loop of `settle` that mentions no future twice gives each pending one its value. -/
lemma settleAll_of_mem (hnd : (vs.map Prod.fst).Nodup) (hmem : (f, v) ∈ vs)
    (hp : fs[f]? = some .pending) : (settleAll fs vs)[f]? = some v := by
  induction vs generalizing fs with
  | nil => cases hmem
  | cons w vs ih =>
    show (settleAll (settle fs w.1 w.2) vs)[f]? = some v
    rw [List.map_cons, List.nodup_cons] at hnd
    rcases List.mem_cons.mp hmem with rfl | hmem
    · rw [settleAll_of_not_mem hnd.1]
      rcases settle_cases fs f v f with ⟨-, -, he⟩ | ⟨hn, -⟩
      · exact he
      · exact absurd ⟨rfl, hp⟩ hn
    · apply ih hnd.2 hmem
      rcases settle_cases fs w.1 w.2 f with ⟨rfl, -, -⟩ | ⟨-, he⟩
      · exact absurd (List.mem_map_of_mem hmem) hnd.1
      · exact he.trans hp

end Settle

/-! ## The end of a batch -/

/-- Rows are recorded for a batch of `n` items exactly when `predict_fn` returned `n` of them. -/
lemma outcome_eq_ok {n : ℕ} {b : Behaviour ρ} {results : List ρ} :
    outcome n b = some (.ok results) ↔ b = .returned results ∧ results.length = n := by
  rw [← Behaviour.delivered_eq_returned, outcome]
  cases b.delivered with
  | returned rows =>
    by_cases hn : rows.length = n
    · simp only [hn, ne_eq, not_true_eq_false, if_false, Option.some.injEq,
        Except.ok.injEq, Behaviour.returned.injEq]
      exact ⟨fun h => ⟨h, h ▸ hn⟩, And.left⟩
    · simp only [hn, ne_eq, not_false_eq_true, if_true, Option.some.injEq, reduceCtorEq,
        Behaviour.returned.injEq, false_iff, not_and]
      exact fun h => h ▸ hn
  | raised e => simp
  | cancelled => simp

/-- What the end of a batch of `n` requests means for the `i`-th of them. -/
def answer (n : ℕ) (b : Behaviour ρ) (i : ℕ) : Future ρ :=
  match outcome n b with
  | some (.ok results) =>
    match results[i]? with
    | some r => .result r
    | none => .exception noResultError
  | some (.error e) => .exception e
  | none => .exception noResultError

/-- A batch that ends answers every request, with a result or an exception. -/
lemma answer_done (n : ℕ) (b : Behaviour ρ) (i : ℕ) : (answer n b i).done = true := by
  unfold answer
  split
  · split <;> rfl
  all_goals rfl

/-- A result is the row at the index of the request, in a list with one row for each request. -/
lemma answer_eq_result {n : ℕ} {b : Behaviour ρ} {i : ℕ} {r : ρ}
    (h : answer n b i = .result r) :
    ∃ results, b = .returned results ∧ results.length = n ∧ results[i]? = some r := by
  unfold answer at h
  split at h
  · rename_i results ho
    obtain ⟨rfl, hn⟩ := outcome_eq_ok.mp ho
    refine ⟨results, rfl, hn, ?_⟩
    split at h
    · cases h
      assumption
    · cases h
  all_goals cases h

/-- No two requests of a batch have the same future. -/
lemma FlowInv.batch_nodup (hi : FlowInv s) {k : ℕ} {t : BatchTask ρ}
    (hk : s.tasks[k]? = some t) : (t.batch.map Item.future).Nodup := by
  have hnd := hi.nodup
  simp only [flow, List.map_append, List.nodup_append, List.map_flatten,
    List.nodup_flatten] at hnd
  exact hnd.1.1.1 _ (List.mem_map_of_mem (List.mem_map_of_mem (List.mem_of_getElem? hk)))

/-- **The end of a batch answers its requests**: the `i`-th one, if it is pending, gets the answer
that the end of the batch means for it.

**Proof sketch.** By the outcome. With one row for each request the loop over `zip` gives each
pending future its row; otherwise the loop over the batch gives each of them the exception. The
`finally` clause finds nothing left to do, but for a cancelled task, where it does it all. -/
theorem finish_answer {batch : List Item} (hnd : (batch.map Item.future).Nodup)
    {fs : List (Future ρ)} (b : Behaviour ρ) {i : ℕ} {it : Item} (hit : batch[i]? = some it)
    (hp : fs[it.future]? = some .pending) :
    (settleAll (deliver fs batch (outcome batch.length b))
        (batch.map fun it => (it.future, .exception noResultError)))[it.future]? =
      some (answer batch.length b i) := by
  have hall : ∀ e : PyException, ((batch.map fun it =>
      (it.future, (.exception e : Future ρ))).map Prod.fst).Nodup := by
    intro e
    rw [List.map_map]
    exact hnd
  have hmem := List.mem_of_getElem? hit
  have herr : ∀ e : PyException, (settleAll fs (batch.map fun it =>
      (it.future, .exception e)))[it.future]? = some (.exception e) := fun e =>
    settleAll_of_mem (hall e) (List.mem_map.mpr ⟨it, hmem, rfl⟩) hp
  cases ho : outcome batch.length b with
  | none => simpa [deliver, answer, ho] using herr noResultError
  | some o =>
    cases o with
    | error e =>
      simp only [deliver, answer, ho]
      exact settleAll_of_done (herr e) rfl
    | ok results =>
      have hlen := (outcome_eq_ok.mp ho).2
      have hi : i < results.length := hlen ▸ (List.getElem?_eq_some_iff.mp hit).1
      have hrow : results[i]? = some results[i] := List.getElem?_eq_getElem hi
      simp only [deliver, answer, ho, hrow]
      refine settleAll_of_done ?_ rfl
      refine settleAll_of_mem ?_ ?_ hp
      · rw [List.map_fst_zip (by simp [hlen])]
        exact hnd
      · refine List.mem_of_getElem? (i := i) ?_
        simp [List.getElem?_zip_eq_some, hit, hrow]

/-- What the end of a batch does not mention it leaves alone. -/
lemma finish_other {batch : List Item} {fs : List (Future ρ)} (b : Behaviour ρ) {f : ℕ}
    (hf : ∀ it ∈ batch, it.future ≠ f) :
    (settleAll (deliver fs batch (outcome batch.length b))
        (batch.map fun it => (it.future, .exception noResultError)))[f]? = fs[f]? := by
  have hall : ∀ e : PyException, f ∉ ((batch.map fun it =>
      (it.future, (.exception e : Future ρ))).map Prod.fst) := by
    intro e
    simpa using hf
  rw [settleAll_of_not_mem (hall _)]
  cases ho : outcome batch.length b with
  | none => rfl
  | some o =>
    cases o with
    | error e => exact settleAll_of_not_mem (hall e)
    | ok results =>
      apply settleAll_of_not_mem
      intro hm
      obtain ⟨⟨g, v⟩, hgv, rfl⟩ := List.mem_map.mp hm
      obtain ⟨it, hit, he⟩ := List.mem_map.mp (List.of_mem_zip hgv).1
      exact hf it hit he

/-- What the end of a batch finds done it leaves as it is. -/
lemma finish_keep {batch : List Item} {fs : List (Future ρ)} (b : Behaviour ρ) {f : ℕ}
    {v : Future ρ} (hf : fs[f]? = some v) (hv : v.done = true) :
    (settleAll (deliver fs batch (outcome batch.length b))
        (batch.map fun it => (it.future, .exception noResultError)))[f]? = some v := by
  refine settleAll_of_done ?_ hv
  unfold deliver
  split
  · exact settleAll_of_done hf hv
  · exact settleAll_of_done hf hv
  · exact hf

/-! ## Every step -/

namespace Effect

/-- **A future that is done keeps its value.** -/
theorem futures_keep (h : Effect s a s') {f : ℕ} {v : Future ρ} (hf : s.futures[f]? = some v)
    (hv : v.done = true) : s'.futures[f]? = some v := by
  cases h with
  | accept text cb hc =>
    rw [List.getElem?_append_left (List.getElem?_eq_some_iff.mp hf).1]
    exact hf
  | cancel g =>
    rcases settle_cases s.futures g .cancelled f with ⟨-, hp, -⟩ | ⟨-, he⟩
    · obtain rfl := Option.some.inj (hp.symm.trans hf)
      cases hv
    · exact he.trans hf
  | finish k b batch hk hb => exact finish_keep b hf hv
  | _ => exact hf

/-- **Where the value of a future comes from**: it was there before; the future is new and
pending; its caller is cancelled; or its batch ends, and it is the answer for the request. -/
theorem futures_cases (h : Effect s a s') (hi : FlowInv s) {f : ℕ} {v : Future ρ}
    (hf : s'.futures[f]? = some v) :
    s.futures[f]? = some v ∨ v = .pending ∨ v = .cancelled ∨
      ∃ k b batch i it, a = .finish k b ∧ s.tasks[k]? = some ⟨batch, .running⟩ ∧
        batch[i]? = some it ∧ it.future = f ∧ v = answer batch.length b i := by
  cases h with
  | accept text cb hc =>
    rcases Nat.lt_or_ge f s.futures.length with hlt | hge
    · rw [List.getElem?_append_left hlt] at hf
      exact .inl hf
    · rw [List.getElem?_append_right hge, List.getElem?_singleton] at hf
      split_ifs at hf
      exact .inr (.inl (Option.some.inj hf).symm)
  | cancel g =>
    rcases settle_cases s.futures g .cancelled f with ⟨-, -, he⟩ | ⟨-, he⟩
    · exact .inr (.inr (.inl (Option.some.inj (hf.symm.trans he))))
    · exact .inl (he.symm.trans hf)
  | finish k b batch hk hb =>
    by_cases hm : ∃ it ∈ batch, it.future = f
    · obtain ⟨it, hit, rfl⟩ := hm
      obtain ⟨i, hit⟩ := List.mem_iff_getElem?.mp hit
      have hlt : it.future < s.futures.length := by
        have := (List.getElem?_eq_some_iff.mp hf).1
        simpa using this
      cases hold : s.futures[it.future]? with
      | none => exact absurd hlt (not_lt.mpr (List.getElem?_eq_none_iff.mp hold))
      | some w =>
        by_cases hw : w.done = true
        · exact .inl (hf ▸ hold ▸ (finish_keep b hold hw).symm)
        · obtain rfl := Future.eq_pending hw
          refine .inr (.inr (.inr ⟨k, b, batch, i, it, rfl, hk, hit, rfl, ?_⟩))
          exact Option.some.inj (hf.symm.trans (finish_answer (hi.batch_nodup hk) b hit hold))
    · refine .inl ?_
      rw [← hf]
      exact (finish_other b fun it hit he => hm ⟨it, hit, he⟩).symm
  | _ => exact .inl hf

end Effect

/-! ## Where the answers come from -/

/-- The future `f` has its value `v` from the end of a batch: a task has ended whose batch has the
request with this future at an index for which the end of the batch means `v`. -/
def AnsweredBy (s : InferenceBatcher args ρ) (f : ℕ) (v : Future ρ) : Prop :=
  ∃ t ∈ s.tasks, ∃ b, (t.phase = .finished b ∨ t.phase = .reaped b) ∧
    ∃ (i : ℕ) (it : Item), t.batch[i]? = some it ∧ it.future = f ∧ v = answer t.batch.length b i

/-- A task that has ended stays so, with its batch and the way it ended. -/
lemma Effect.ended_keep (h : Effect s a s') {t : BatchTask ρ} {b : Behaviour ρ}
    (ht : t ∈ s.tasks) (hb : t.phase = .finished b ∨ t.phase = .reaped b) :
    ∃ t' ∈ s'.tasks, t'.batch = t.batch ∧ (t'.phase = .finished b ∨ t'.phase = .reaped b) := by
  obtain ⟨k, hk⟩ := List.mem_iff_getElem?.mp ht
  obtain ⟨q, hq, hqp⟩ := h.tasks_getElem? hk
  refine ⟨⟨t.batch, q⟩, List.mem_of_getElem? hq, rfl, ?_⟩
  rcases hqp with rfl | hm
  · exact hb
  · rcases hb with hb | hb <;> rw [hb] at hm <;> cases hm
    exact .inr rfl

/-- An answer keeps its origin. -/
lemma AnsweredBy.mono {f : ℕ} {v : Future ρ} (hv : s.AnsweredBy f v) (h : Effect s a s') :
    s'.AnsweredBy f v := by
  obtain ⟨t, ht, b, hb, i, it, hit, hf, hv⟩ := hv
  obtain ⟨t', ht', hbatch, hb'⟩ := h.ended_keep ht hb
  exact ⟨t', ht', b, hb', i, it, hbatch ▸ hit, hf, hbatch ▸ hv⟩

/-- A request has one answer: it is in one task, at one index. -/
lemma AnsweredBy.unique (hi : FlowInv s) {f : ℕ} {v w : Future ρ} (hv : s.AnsweredBy f v)
    (hw : s.AnsweredBy f w) : v = w := by
  obtain ⟨t, ht, b, hb, i, it, hit, rfl, rfl⟩ := hv
  obtain ⟨u, hu, c, hc, j, it', hit', hf, rfl⟩ := hw
  obtain ⟨k, hk⟩ := List.mem_iff_getElem?.mp ht
  obtain ⟨l, hl⟩ := List.mem_iff_getElem?.mp hu
  have hlk : l = k :=
    (hi.unique hk (List.mem_of_getElem? hit)).1 l u hl ⟨it', List.mem_of_getElem? hit', hf⟩
  subst hlk
  obtain rfl : u = t := Option.some.inj (hl.symm.trans hk)
  have hbc : c = b := by
    rcases hb with hb | hb <;> rcases hc with hc | hc <;> rw [hb] at hc <;> cases hc <;> rfl
  have hji : j = i := by
    obtain ⟨hjl, -⟩ := List.getElem?_eq_some_iff.mp hit'
    refine (List.getElem?_inj (by simpa using hjl) (hi.batch_nodup hk)).mp ?_
    rw [List.getElem?_map, List.getElem?_map, hit', hit, Option.map_some, Option.map_some, hf]
  rw [hbc, hji]

/-- Every result and every exception in a future comes from the end of a batch. -/
def AnswersMatch (s : InferenceBatcher args ρ) : Prop :=
  ∀ f v, s.futures[f]? = some v → v.done = true → v ≠ .cancelled → s.AnsweredBy f v

/-- Every action keeps it so.

**Proof sketch.** A value in a future is old, or it is the answer of the batch that ends
(`Effect.futures_cases`). -/
lemma Effect.answersMatch (h : Effect s a s') (hi : FlowInv s) (hm : AnswersMatch s) :
    AnswersMatch s' := by
  intro f v hf hd hc
  rcases h.futures_cases hi hf with hold | rfl | rfl | ⟨k, b, batch, i, it, rfl, hk, hit, hfut, hv⟩
  · exact (hm f v hold hd hc).mono h
  · cases hd
  · exact absurd rfl hc
  · refine ⟨⟨batch, .finished b⟩, ?_, b, .inl rfl, i, it, hit, hfut, hv⟩
    cases h with
    | finish _ _ batch' hk' hb =>
      obtain rfl : batch = batch' := by simpa using hk.symm.trans hk'
      exact List.mem_of_getElem? (List.getElem?_set_self (List.getElem?_eq_some_iff.mp hk).1)

/-- **Every result and every exception comes from the end of a batch**, after every run. -/
theorem answers_exec {t₀ : ℚ} {es : List (ℚ × Action ρ)}
    (hrun : Machine.exec step (new args ρ t₀) es = some s) : AnswersMatch s := by
  refine Machine.exec_invariant_relative (fun _ _ _ => flowInv_step) ?_ (flowInv_new t₀) ?_ hrun
  · intro s e s' hi hm h
    obtain ⟨-, heff⟩ := step_effect h
    exact heff.answersMatch (hi.tick _) hm
  · intro f v hf
    simp [new] at hf

/-! ## Rows -/

/-- `predict_fn` has returned the row `r` for `text`: in a call whose input list had `text` at some
index and whose result list had the same length and `r` at that index. -/
def RowFor (s : InferenceBatcher args ρ) (text : String) (r : ρ) : Prop :=
  ∃ t ∈ s.tasks, ∃ results : List ρ,
    (t.phase = .finished (.returned results) ∨ t.phase = .reaped (.returned results)) ∧
    results.length = t.batch.length ∧
    ∃ (i : ℕ) (it : Item), t.batch[i]? = some it ∧ it.text = text ∧ results[i]? = some r

/-- A row that has been computed stays so. -/
lemma RowFor.mono {text : String} {r : ρ} (hr : s.RowFor text r) (h : Effect s a s') :
    s'.RowFor text r := by
  obtain ⟨t, ht, results, hp, hlen, i, it, hit, htext, hrow⟩ := hr
  obtain ⟨t', ht', hbatch, hp'⟩ := h.ended_keep ht hp
  exact ⟨t', ht', results, hp', hbatch ▸ hlen, i, it, hbatch ▸ hit, htext, hrow⟩

/-- Every future that holds a row holds one computed for the text of its request. -/
def ResultsMatch (s : InferenceBatcher args ρ) : Prop :=
  ∀ f r, s.futures[f]? = some (.result r) →
    ∃ it ∈ items s.calls, it.future = f ∧ s.RowFor it.text r

/-- **A future holds only rows computed for the text of its request**, after every run.

**Proof sketch.** A row in a future comes from the end of a batch (`answers_exec`), which has the
request and the row at the same index (`answer_eq_result`). -/
theorem results_exec {t₀ : ℚ} {es : List (ℚ × Action ρ)}
    (hrun : Machine.exec step (new args ρ t₀) es = some s) : ResultsMatch s := by
  intro f r hf
  obtain ⟨t, ht, b, hb, i, it, hit, hfut, hv⟩ :=
    answers_exec hrun f (.result r) hf rfl (by simp)
  obtain ⟨results, rfl, hlen, hrow⟩ := answer_eq_result hv.symm
  obtain ⟨k, hk⟩ := List.mem_iff_getElem?.mp ht
  exact ⟨it, (flowInv_exec hrun).task_mem hk (List.mem_of_getElem? hit), hfut,
    t, ht, results, hb, hlen, i, it, hit, rfl, hrow⟩

end InferenceBatcher

end InferenceServer
