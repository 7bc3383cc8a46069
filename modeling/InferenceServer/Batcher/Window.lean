import InferenceServer.Batcher.Flow

set_option relaxedAutoImplicit false
set_option autoImplicit false

/-!
# The collection window

`_collect_batch` takes its first item at a time `t` and returns when the batch is full, or at
`t + timeout_s`. The machine lets time pass whenever it may; here the collector runs at once
whenever it can, so that the time of each move is that of its cause.

## Main definitions

* `InferenceBatcher.Prompt` — the collector is never late: a condition on the steps of a run.
* `InferenceBatcher.arrivals` — the items that arrive along a run, with their times.
* `InferenceBatcher.Collecting` — the invariant of a collection.
* `InferenceBatcher.Window` — what a collection returns, and when.

## Main results

* `InferenceBatcher.collecting_exec` — the invariant holds while the collection lasts.
* `InferenceBatcher.collection_returns` — a collection can always return in time.
* `InferenceBatcher.collection_window` — what it returns.

## Design

An item that was in the queue when the collection started is available from then on, and an item
that arrives later from its arrival on. While the collector is prompt, whatever is in the queue has
become available at the present moment: `Collecting.waiting`.
-/

namespace InferenceServer

/-- The collector is in `_collect_batch`, after its first item. -/
def Worker.isCollecting : Worker → Bool
  | .loopHead _ _ => true
  | .waitFor _ _ => true
  | _ => false

namespace InferenceBatcher

variable {args : BatcherArgs} {ρ : Type} {s s' m m' : InferenceBatcher args ρ} {a : Action ρ}
  {e : ℚ × Action ρ} {t : ℚ}

/-! ## Promptness and arrivals -/

/-- The collection lasts, and the collector is not late: no time passes at the head of its loop,
nor while an item is there for it, and its timeout does not fire late. -/
def Prompt (s : InferenceBatcher args ρ) (e : ℚ × Action ρ) : Prop :=
  match s.worker with
  | .loopHead _ _ => e.1 = s.now
  | .waitFor _ deadline => s.now < e.1 → s.queue = [] ∧ e.1 ≤ deadline
  | _ => False

instance (s : InferenceBatcher args ρ) (e : ℚ × Action ρ) : Decidable (Prompt s e) := by
  unfold Prompt
  split <;> infer_instance

/-- The item that arrives in a step, with its time. -/
def arrived (s : InferenceBatcher args ρ) (e : ℚ × Action ρ) (_ : InferenceBatcher args ρ) :
    List (Item × ℚ) :=
  (items (newCalls { s with now := e.1 } e.2)).map fun it => (it, e.1)

/-- The items that arrive along a run, with their times. -/
def arrivals (s : InferenceBatcher args ρ) (es : List (ℚ × Action ρ)) : List (Item × ℚ) :=
  Machine.observe step arrived s es

/-- Nothing arrives before the start of a run. -/
lemma le_of_mem_arrivals {es : List (ℚ × Action ρ)} (h : Machine.exec step s es = some s')
    {p : Item × ℚ} (hp : p ∈ arrivals s es) : s.now ≤ p.2 := by
  induction es generalizing s with
  | nil => cases hp
  | cons e es ih =>
    rw [Machine.exec_cons, Option.bind_eq_some_iff] at h
    obtain ⟨m, hm, hrest⟩ := h
    obtain ⟨hle, heff⟩ := step_effect hm
    rw [arrivals, Machine.observe_cons hm, List.mem_append] at hp
    rcases hp with hp | hp
    · obtain ⟨it, -, rfl⟩ := List.mem_map.mp hp
      exact hle
    · calc s.now ≤ e.1 := hle
        _ = m.now := heff.now_eq.symm
        _ ≤ p.2 := ih hrest hp

/-! ## The invariant -/

/-- The collector holds `batch`, having started at `t`. The items `avail` have become available so
far, in this order, at these times: `batch` and the queue. Those in the queue have become available
just now. -/
structure Fills (t : ℚ) (avail : List (Item × ℚ)) (batch : List Item)
    (s : InferenceBatcher args ρ) : Prop where
  items : batch ++ s.queue = avail.map Prod.fst
  early : ∀ p ∈ avail, p.2 ≤ s.now
  waiting : ∀ p ∈ avail.drop batch.length, p.2 = s.now
  started : t ≤ s.now
  inTime : s.now ≤ t + args.timeoutS

/-- The invariant of a collection that started at `t`. At the head of the loop the last item has
been taken just now, and it is the first one unless the window has a length. -/
def Collecting (t : ℚ) (avail : List (Item × ℚ)) (s : InferenceBatcher args ρ) : Prop :=
  match s.worker with
  | .loopHead batch deadline => deadline = t + args.timeoutS ∧ Fills t avail batch s ∧
      (avail.map Prod.snd)[batch.length - 1]? = some s.now ∧
      (batch.length = 1 ∨ 0 < args.timeoutS)
  | .waitFor batch deadline => deadline = t + args.timeoutS ∧ Fills t avail batch s ∧
      0 < args.timeoutS
  | _ => True

/-- The batch and the queue are as long as what has become available. -/
lemma Fills.length_eq {avail : List (Item × ℚ)} {batch : List Item} (h : Fills t avail batch s) :
    batch.length + s.queue.length = avail.length := by
  have he := congrArg List.length h.items
  simpa using he

/-- An item arrives. -/
lemma Fills.arrive {avail : List (Item × ℚ)} {batch : List Item} (h : Fills t avail batch s)
    {it : Item} (hq : s'.queue = s.queue ++ [it]) (hn : s'.now = s.now) :
    Fills t (avail ++ [(it, s.now)]) batch s' where
  items := by
    rw [hq, ← List.append_assoc, h.items]
    simp
  early := by
    intro p hp
    rw [hn]
    rcases List.mem_append.mp hp with hp | hp
    · exact h.early p hp
    · rw [List.mem_singleton.mp hp]
  waiting := by
    intro p hp
    have hle : batch.length ≤ avail.length := by
      have := h.length_eq
      omega
    rw [List.drop_append_of_le_length hle] at hp
    rw [hn]
    rcases List.mem_append.mp hp with hp | hp
    · exact h.waiting p hp
    · rw [List.mem_singleton.mp hp]
  started := hn ▸ h.started
  inTime := hn ▸ h.inTime

/-- Nothing arrives and nothing is taken. -/
lemma Fills.keep {avail : List (Item × ℚ)} {batch : List Item} (h : Fills t avail batch s)
    (hq : s'.queue = s.queue) (hn : s'.now = s.now) : Fills t avail batch s' where
  items := hq ▸ h.items
  early := hn ▸ h.early
  waiting := hn ▸ h.waiting
  started := hn ▸ h.started
  inTime := hn ▸ h.inTime

/-- The collector takes the next item, which has become available just now. -/
lemma Fills.take {avail : List (Item × ℚ)} {batch queue : List Item} {it : Item}
    (h : Fills t avail batch s) (s' : InferenceBatcher args ρ) (hq : s.queue = it :: queue)
    (hq' : s'.queue = queue) (hn : s'.now = s.now) :
    Fills t avail (batch ++ [it]) s' ∧
      (avail.map Prod.snd)[(batch ++ [it]).length - 1]? = some s'.now := by
  have hlt : batch.length < avail.length := by
    have := h.length_eq
    rw [hq, List.length_cons] at this
    omega
  refine ⟨⟨?_, hn ▸ h.early, ?_, hn ▸ h.started, hn ▸ h.inTime⟩, ?_⟩
  · rw [hq', ← h.items, hq, List.append_assoc]
    rfl
  · intro p hp
    rw [hn]
    apply h.waiting p
    rw [List.length_append, List.length_singleton] at hp
    rw [← List.drop_drop] at hp
    exact List.mem_of_mem_drop hp
  · have hmem : avail[batch.length] ∈ avail.drop batch.length := by
      rw [List.drop_eq_getElem_cons hlt]
      exact List.mem_cons_self
    have htime := h.waiting _ hmem
    simp [hlt, htime, hn]

/-! ## Every step -/

/-- Time passes: nothing is waiting for the collector, and its timeout is not over. -/
lemma Fills.tick {avail : List (Item × ℚ)} {batch : List Item} (h : Fills t avail batch s) {u : ℚ}
    (hle : s.now ≤ u) (hu : s.now < u → s.queue = [] ∧ u ≤ t + args.timeoutS) :
    Fills t avail batch { s with now := u } := by
  rcases hle.eq_or_lt with rfl | hlt
  · exact h
  · obtain ⟨hq, hd⟩ := hu hlt
    refine ⟨h.items, fun p hp => (h.early p hp).trans hle, ?_, h.started.trans hle, hd⟩
    have hlen := h.length_eq
    rw [hq, List.length_nil, Nat.add_zero] at hlen
    rw [hlen, List.drop_length]
    simp

/-- A prompt collector has its invariant when the time of its next step has come. -/
lemma Collecting.tick {avail : List (Item × ℚ)} (h : Collecting t avail s) (hp : Prompt s e)
    (hle : s.now ≤ e.1) : Collecting t avail { s with now := e.1 } := by
  unfold Prompt at hp
  unfold Collecting at h ⊢
  dsimp only
  split at hp
  · rename_i batch deadline hw
    simp only [hw] at h ⊢
    obtain ⟨hd, hf, hl, ht⟩ := h
    exact ⟨hd, hf.keep rfl hp, hp ▸ hl, ht⟩
  · rename_i batch deadline hw
    simp only [hw] at h ⊢
    obtain ⟨rfl, hf, ht⟩ := h
    exact ⟨rfl, (hf.tick hle hp).keep rfl rfl, ht⟩
  · cases hp

/-- Only a collector in `_collect_batch` is called prompt. -/
lemma Prompt.isCollecting (hp : Prompt s e) : s.worker.isCollecting = true := by
  unfold Prompt at hp
  split at hp
  · simp [Worker.isCollecting, *]
  · simp [Worker.isCollecting, *]
  · cases hp

/-- Nothing happens to the collector. -/
lemma Collecting.keep {avail : List (Item × ℚ)} (h : Collecting t avail s)
    (hw : s'.worker = s.worker) (hq : s'.queue = s.queue) (hn : s'.now = s.now) :
    Collecting t avail s' := by
  unfold Collecting at h ⊢
  rw [hw]
  split at h
  · obtain ⟨hd, hf, hl, ht⟩ := h
    exact ⟨hd, hf.keep hq hn, hn ▸ hl, ht⟩
  · obtain ⟨hd, hf, ht⟩ := h
    exact ⟨hd, hf.keep hq hn, ht⟩
  · trivial

/-- An item arrives during the collection. -/
lemma Collecting.arrive {avail : List (Item × ℚ)} (h : Collecting t avail s) {it : Item}
    (hw : s'.worker = s.worker) (hq : s'.queue = s.queue ++ [it]) (hn : s'.now = s.now) :
    Collecting t (avail ++ [(it, s.now)]) s' := by
  unfold Collecting at h ⊢
  rw [hw]
  split at h
  · obtain ⟨hd, hf, hl, ht⟩ := h
    refine ⟨hd, hf.arrive hq hn, ?_, ht⟩
    rw [List.map_append, List.getElem?_append_left (List.getElem?_eq_some_iff.mp hl).1, hl, hn]
  · obtain ⟨hd, hf, ht⟩ := h
    exact ⟨hd, hf.arrive hq hn, ht⟩
  · trivial

/-- **Every action keeps the invariant** of a collection, while the collection lasts.

**Proof sketch.** One case for each rule: an item arrives (`Collecting.arrive`), the collector moves
on (`Fills.take`), or nothing happens to it. -/
theorem Effect.collecting {avail : List (Item × ℚ)} (h : Effect s a s')
    (hw : s.worker.isCollecting = true) (hc : Collecting t avail s) :
    Collecting t (avail ++ (items (newCalls s a)).map fun it => (it, s.now)) s' := by
  cases h with
  | reject text cb err he =>
    have hnew : items (newCalls s (.predict text)) = [] := by simp [newCalls, he, items]
    rw [hnew, List.map_nil, List.append_nil]
    exact hc.keep rfl rfl rfl
  | accept text cb he =>
    have hnew : items (newCalls s (.predict text)) = [⟨text, s.futures.length⟩] := by
      simp [newCalls, he, items]
    rw [hnew]
    exact hc.arrive rfl rfl rfl
  | wait batch deadline hw' hlen hd =>
    simp only [Collecting, hw'] at hc
    obtain ⟨rfl, hf, -, -⟩ := hc
    have hpos : 0 < args.timeoutS := by
      have := hf.started
      linarith
    simp only [newCalls, items, List.filterMap_nil, List.map_nil, List.append_nil]
    exact ⟨rfl, hf.keep rfl rfl, hpos⟩
  | collectNext batch deadline item queue hw' hq =>
    simp only [Collecting, hw'] at hc
    obtain ⟨rfl, hf, hpos⟩ := hc
    obtain ⟨hf', hl⟩ := hf.take { s with
      worker := .loopHead (batch ++ [item]) (t + args.timeoutS), queue := queue } hq rfl rfl
    simp only [newCalls, items, List.filterMap_nil, List.map_nil, List.append_nil]
    exact ⟨rfl, hf', hl, .inr hpos⟩
  | full batch deadline hw' hd => trivial
  | collectTimeout batch deadline hw' hd => trivial
  | start hw' hs =>
    rw [hw'] at hw
    cases hw
  | collectFirst item queue hw' hq =>
    rw [hw'] at hw
    cases hw
  | acquire batch hw' hp =>
    rw [hw'] at hw
    cases hw
  | dispatch batch hw' =>
    rw [hw'] at hw
    cases hw
  | stop permits hs hp => cases s.worker <;> simp [Collecting, Worker.cancel]
  | _ =>
    simp only [newCalls, items, List.filterMap_nil, List.map_nil, List.append_nil]
    exact hc.keep rfl rfl rfl

/-- What is available to a collection that starts at `t` with `first`, when `arr` has arrived. -/
def available (t : ℚ) (first : Item) (queue : List Item) (arr : List (Item × ℚ)) :
    List (Item × ℚ) :=
  (first, t) :: (queue.map fun it => (it, t)) ++ arr

/-- The collector takes the first item.

**Proof sketch.** What is in the queue counts as available from now on. -/
lemma collecting_first (htimeout : 0 ≤ args.timeoutS) (h : step s (t, .collectFirst) = some s') :
    ∃ first, s.queue = first :: s'.queue ∧ s'.worker.isCollecting = true ∧
      Collecting t (available t first s'.queue []) s' := by
  obtain ⟨-, heff⟩ := step_effect h
  cases heff with
  | collectFirst first queue hw hq =>
    refine ⟨first, hq, rfl, rfl, ⟨?_, ?_, ?_, le_rfl, ?_⟩, rfl, .inl rfl⟩
    · simp [available, Function.comp_def]
    · intro p hp
      simp only [available, List.append_nil, List.mem_cons, List.mem_map] at hp
      rcases hp with rfl | ⟨it, -, rfl⟩ <;> exact le_rfl
    · intro p hp
      simp only [available, List.append_nil, List.length_singleton, List.drop_succ_cons,
        List.drop_zero, List.mem_map] at hp
      obtain ⟨it, -, rfl⟩ := hp
      rfl
    · show t ≤ t + args.timeoutS
      linarith

/-- **The invariant holds while the collection lasts**, in every run with a prompt collector. -/
theorem collecting_exec {first : Item} {queue : List Item} {pre : List (ℚ × Action ρ)}
    (hc : Collecting t (available t first queue []) s)
    (hpre : Machine.exec step s pre = some m)
    (hprompt : Machine.StepsSatisfy step Prompt s pre) :
    Collecting t (available t first queue (arrivals s pre)) m := by
  refine Machine.exec_induction (P := fun pre m =>
    Machine.StepsSatisfy step Prompt s pre →
      Collecting t (available t first queue (arrivals s pre)) m) (fun _ => hc) ?_ pre m hpre
      hprompt
  intro es e m m' hm ih hstep hprompt
  have hcm := ih (hprompt.of_prefix (List.prefix_append es [e]))
  have hp : Prompt m e := hprompt.last hm
  obtain ⟨hle, heff⟩ := step_effect hstep
  have hnext := heff.collecting hp.isCollecting (hcm.tick hp hle)
  rw [arrivals, Machine.observe_snoc hm hstep, available, ← List.append_assoc]
  exact hnext

/-! ## The end of a collection -/

/-- **The step in which `_collect_batch` returns**: the batch is full and its last item was taken
just now, or it is the deadline. Whatever stays in the queue has become available just now.

**Proof sketch.** The collector leaves the loop at its head, with a full batch or with no time
left, or by its timeout. It is never later than the deadline. -/
theorem Effect.collecting_return {avail : List (Item × ℚ)} (h : Effect s a s') (hi : FlowInv s)
    (hcol : s.worker.isCollecting = true) (hc : Collecting t avail s) {batch : List Item}
    (hret : s'.worker = .acquire batch) :
    Fills t avail batch s' ∧ 1 ≤ batch.length ∧ (batch.length : ℤ) ≤ max 1 args.batchSize ∧
      (batch.length = 1 ∨ 0 < args.timeoutS) ∧
      ((batch.length : ℤ) < args.batchSize → s.now = t + args.timeoutS) ∧
      (args.batchSize ≤ batch.length → (avail.map Prod.snd)[batch.length - 1]? = some s.now) := by
  have hlegal := hi.worker
  cases h with
  | full b deadline hw hd =>
    obtain rfl := Worker.acquire.inj hret
    simp only [Collecting, hw] at hc
    rw [hw] at hlegal
    obtain ⟨rfl, hf, hl, ht⟩ := hc
    refine ⟨hf.keep rfl rfl, hlegal.1, hlegal.2, ht, ?_, fun _ => hl⟩
    intro hlt
    rcases hd with hd | hd
    · omega
    · exact le_antisymm hf.inTime hd
  | collectTimeout b deadline hw hd =>
    obtain rfl := Worker.acquire.inj hret
    simp only [Collecting, hw] at hc
    rw [hw] at hlegal
    obtain ⟨rfl, hf, ht⟩ := hc
    have hlt : (b.length : ℤ) < args.batchSize := hlegal.2
    refine ⟨hf.keep rfl rfl, hlegal.1, hlt.le.trans (le_max_right _ _), .inr ht, ?_, ?_⟩
    · intro _
      exact le_antisymm hf.inTime hd
    · intro hge
      omega
  | stop permits hs hp => cases hw : s.worker <;> simp [Worker.cancel, hw] at hret
  | start | wait | collectFirst | collectNext | acquire | dispatch => cases hret
  | _ =>
    rw [show s.worker = .acquire batch from hret] at hcol
    cases hcol

/-! ## A collection can return -/

/-- The prompt collector, moving alone, can return a batch. -/
def Returns (m : InferenceBatcher args ρ) : Prop :=
  ∃ fs m' batch, Machine.exec step m fs = some m' ∧ Machine.StepsSatisfy step Prompt m fs ∧
    (∀ f ∈ fs, f.2 = .loopTest ∨ f.2 = .collectNext ∨ f.2 = .collectTimeout) ∧
    m'.worker = .acquire batch

/-- It can if it can after one more move. -/
lemma Returns.cons (e : ℚ × Action ρ) (hp : Prompt m e)
    (ha : e.2 = .loopTest ∨ e.2 = .collectNext ∨ e.2 = .collectTimeout)
    (hstep : step m e = some m') (h : Returns m') : Returns m := by
  obtain ⟨fs, u, batch, hexec, hprompt, hall, hw⟩ := h
  refine ⟨e :: fs, u, batch, ?_, ?_, ?_, hw⟩
  · rw [Machine.exec_cons, hstep]
    exact hexec
  · rw [Machine.stepsSatisfy_cons]
    refine ⟨hp, fun s' hs' => ?_⟩
    obtain rfl : m' = s' := Option.some.inj (hstep.symm.trans hs')
    exact hprompt
  · rintro f (_ | ⟨_, hf⟩)
    · exact ha
    · exact hall f hf

/-- It can when it has. -/
lemma returns_acquire {batch : List Item} (hw : m.worker = .acquire batch) : Returns m :=
  ⟨[], m, batch, rfl, Machine.stepsSatisfy_nil m, by simp, hw⟩

/-- What the collector does at the head of the loop. -/
lemma step_loopTest {batch : List Item} {deadline : ℚ} (hw : m.worker = .loopHead batch deadline) :
    step m (m.now, .loopTest) = some { m with worker := .acquire batch } ∨
      step m (m.now, .loopTest) = some { m with worker := .waitFor batch deadline } := by
  simp only [step, le_refl, if_true, act, loopTest, hw]
  split_ifs
  · exact .inl rfl
  · exact .inr rfl
  · exact .inl rfl

/-- **A collection can return in time**: while it is not past the deadline, the collector alone can
bring it to its end, being prompt.

**Proof sketch.** Induction on the length of the queue. At the head of the loop the collector
returns or waits. If the queue is empty it waits until the deadline; otherwise it takes the next
item. -/
theorem collection_returns {batch : List Item} {deadline : ℚ}
    (hw : m.worker = .loopHead batch deadline ∨ m.worker = .waitFor batch deadline)
    (hd : m.now ≤ deadline) : Returns m := by
  induction hn : m.queue.length using Nat.strong_induction_on generalizing m batch with
  | _ n ih =>
    have hwait : ∀ m' : InferenceBatcher args ρ, m'.worker = .waitFor batch deadline →
        m'.now ≤ deadline → m'.queue.length = n → Returns m' := by
      intro m' hw' hd' hn'
      cases hq : m'.queue with
      | nil =>
        have hstep : step m' (deadline, .collectTimeout) =
            some { m' with now := deadline, worker := .acquire batch } := by
          simp [step, act, collectTimeout, hw', hd']
        refine Returns.cons _ ?_ (by simp) hstep (returns_acquire rfl)
        simp [Prompt, hw', hq]
      | cons item queue =>
        have hstep : step m' (m'.now, .collectNext) =
            some { m' with worker := .loopHead (batch ++ [item]) deadline, queue := queue } := by
          simp [step, act, collectNext, hw', hq]
        refine Returns.cons _ ?_ (by simp) hstep ?_
        · simp [Prompt, hw']
        · have hlt : queue.length < n := by
            rw [← hn', hq, List.length_cons]
            omega
          exact ih queue.length hlt (.inl rfl) hd' rfl
    rcases hw with hw | hw
    · have hp : Prompt m (m.now, .loopTest) := by simp [Prompt, hw]
      rcases step_loopTest hw with hstep | hstep
      · exact Returns.cons _ hp (.inl rfl) hstep (returns_acquire rfl)
      · exact Returns.cons _ hp (.inl rfl) hstep (hwait _ rfl hd hn)
    · exact hwait m hw hd hn

/-! ## What a collection returns -/

/-- What a collection that took its first item at `t` returns at `u`. The items that follow the
first one become available at the times of `followers`. -/
structure Window (args : BatcherArgs) (t : ℚ) (followers : List (Item × ℚ)) (batch : List Item)
    (u : ℚ) : Prop where
  /-- Of the followers those before the deadline count, those after it do not, and those exactly at
  it may. -/
  size : ∃ n, followers.countP (fun p => p.2 < t + args.timeoutS) ≤ n ∧
    n ≤ followers.countP (fun p => p.2 ≤ t + args.timeoutS) ∧
    (batch.length : ℤ) = min args.batchSize (1 + n)
  single : args.timeoutMs = 0 → batch.length = 1
  notLate : u ≤ t + args.timeoutS
  atDeadline : (batch.length : ℤ) < args.batchSize → u = t + args.timeoutS
  /-- The time of the last item of a full batch. -/
  asSoonAs : (batch.length : ℤ) = args.batchSize →
    (t :: followers.map Prod.snd)[batch.length - 1]? = some u

/-- Items that are available in time count. -/
lemma length_le_countP {d : ℚ} {l r : List (Item × ℚ)} {n : ℕ} (hn : n ≤ l.length)
    (hl : ∀ p ∈ l, p.2 ≤ d) : n ≤ (l ++ r).countP fun p => p.2 ≤ d := by
  have hall : l.countP (fun p => p.2 ≤ d) = l.length := by
    rw [List.countP_eq_length]
    simpa using hl
  rw [List.countP_append, hall]
  omega

/-- Items that are available only at the deadline or later do not. -/
lemma countP_le_length {d : ℚ} {l r : List (Item × ℚ)} {n : ℕ} (hl : ∀ p ∈ l.drop n, d ≤ p.2)
    (hr : ∀ p ∈ r, d ≤ p.2) : (l ++ r).countP (fun p => p.2 < d) ≤ n := by
  have hnone : ∀ l' : List (Item × ℚ), (∀ p ∈ l', d ≤ p.2) → l'.countP (fun p => p.2 < d) = 0 := by
    intro l' h
    rw [List.countP_eq_zero]
    simpa using h
  calc (l ++ r).countP (fun p => p.2 < d)
      = (l.take n).countP (fun p => p.2 < d) + (l.drop n).countP (fun p => p.2 < d) +
          r.countP (fun p => p.2 < d) := by
        rw [← List.countP_append, List.take_append_drop, List.countP_append]
    _ = (l.take n).countP fun p => p.2 < d := by rw [hnone _ hl, hnone _ hr, Nat.add_zero]
    _ ≤ (l.take n).length := List.countP_le_length
    _ ≤ n := by simp

/-- The batch that a collection returns, in view of everything that arrives later.

**Proof sketch.** All that is in the batch has become available in time. If the batch is not full,
it is the deadline, and what is not in the batch has become available now or will do so later. -/
lemma window_of_fills {first : Item} {queue : List Item} {arr later : List (Item × ℚ)}
    {batch : List Item} (hsize : 1 ≤ args.batchSize)
    (hf : Fills t (available t first queue arr) batch m)
    (hpos : 1 ≤ batch.length) (hle : (batch.length : ℤ) ≤ max 1 args.batchSize)
    (hone : batch.length = 1 ∨ 0 < args.timeoutS)
    (hdead : (batch.length : ℤ) < args.batchSize → m.now = t + args.timeoutS)
    (hfull : args.batchSize ≤ batch.length →
      ((available t first queue arr).map Prod.snd)[batch.length - 1]? = some m.now)
    (hlater : ∀ p ∈ later, m.now ≤ p.2) :
    Window args t ((queue.map fun it => (it, t)) ++ (arr ++ later)) batch m.now := by
  obtain ⟨n, hn⟩ : ∃ n, batch.length = n + 1 := ⟨batch.length - 1, by omega⟩
  have hlen := hf.length_eq
  have hwaiting := hf.waiting
  rw [available, List.cons_append] at hlen hwaiting
  rw [hn, List.drop_succ_cons] at hwaiting
  rw [hn, List.length_cons] at hlen
  have hcount : n ≤ ((queue.map fun it => (it, t)) ++ arr ++ later).countP
      fun p => p.2 ≤ t + args.timeoutS := by
    refine length_le_countP (by omega) fun p hp => ?_
    have hearly : p.2 ≤ m.now := hf.early p (List.mem_cons_of_mem _ hp)
    exact hearly.trans hf.inTime
  rw [← List.append_assoc]
  refine ⟨?_, ?_, hf.inTime, hdead, ?_⟩
  · by_cases hlt : (batch.length : ℤ) < args.batchSize
    · refine ⟨n, countP_le_length ?_ ?_, hcount, by omega⟩
      · intro p hp
        rw [hwaiting p hp, hdead hlt]
      · intro p hp
        rw [← hdead hlt]
        exact hlater p hp
    · refine ⟨_, ?_, le_rfl, by omega⟩
      exact List.countP_mono_left fun p _ hp => by
        simp only [decide_eq_true_eq] at hp ⊢
        exact hp.le
  · intro h0
    have hzero : ¬ 0 < args.timeoutS := by simp [BatcherArgs.timeoutS, h0]
    exact hone.resolve_right hzero
  · intro heq
    have hlast := hfull heq.ge
    rw [available, List.cons_append, List.map_cons] at hlast
    rw [List.map_append, ← List.cons_append, List.getElem?_append_left
      (List.getElem?_eq_some_iff.mp hlast).1]
    exact hlast

/-- **Collection window semantics.** The collector takes its first item at `t`. In every run with a
prompt collector, while the collection lasts it is not past `t + timeout_s`, and the collector alone
can bring it to its end. When it returns, it returns the next items in the order of their arrival
and takes nothing else out of the queue; their number and the time of the return are as in `Window`,
whatever arrives later.

**Proof sketch.** `collecting_exec` for the time before the last step, `collection_returns` for its
end, and `Effect.collecting_return` and `window_of_fills` for what is returned. -/
theorem collection_window (args : BatcherArgs) (ρ : Type) (hsize : 1 ≤ args.batchSize)
    (htimeout : 0 ≤ args.timeoutMs) (t₀ t : ℚ) (es : List (ℚ × Action ρ))
    (s s₁ : InferenceBatcher args ρ) (hrun : Machine.exec step (new args ρ t₀) es = some s)
    (hfirst : step s (t, .collectFirst) = some s₁) :
    ∃ first, s.queue = first :: s₁.queue ∧
    (∀ pre m, Machine.exec step s₁ pre = some m → Machine.StepsSatisfy step Prompt s₁ pre →
      m.worker.isCollecting = true → m.now ≤ t + args.timeoutS ∧ Returns m) ∧
    (∀ pre e rest m m' s₂ batch, Machine.exec step s₁ pre = some m →
      Machine.StepsSatisfy step Prompt s₁ (pre ++ [e]) → step m e = some m' →
      m'.worker = .acquire batch → Machine.exec step m' rest = some s₂ →
        batch ++ m'.queue = first :: s₁.queue ++ (arrivals s₁ pre).map Prod.fst ∧
        Window args t ((s₁.queue.map fun it => (it, t)) ++ arrivals s₁ (pre ++ e :: rest)) batch
          e.1) := by
  have hts : 0 ≤ args.timeoutS := div_nonneg htimeout (by norm_num)
  obtain ⟨first, hq, hcol, hc⟩ := collecting_first hts hfirst
  refine ⟨first, hq, ?_, ?_⟩
  · intro pre m hpre hprompt hcolm
    have hcm := collecting_exec hc hpre hprompt
    unfold Collecting at hcm
    unfold Worker.isCollecting at hcolm
    cases hw : m.worker with
    | loopHead batch deadline =>
      simp only [hw] at hcm
      obtain ⟨rfl, hf, -⟩ := hcm
      exact ⟨hf.inTime, collection_returns (.inl hw) hf.inTime⟩
    | waitFor batch deadline =>
      simp only [hw] at hcm
      obtain ⟨rfl, hf, -⟩ := hcm
      exact ⟨hf.inTime, collection_returns (.inr hw) hf.inTime⟩
    | _ => simp [hw] at hcolm
  · intro pre e rest m m' s₂ batch hpre hprompt hstep hret hrest
    have hcm := collecting_exec hc hpre (hprompt.of_prefix (List.prefix_append pre [e]))
    have hp : Prompt m e := hprompt.last hpre
    have hi : FlowInv m := by
      have hall := Machine.exec_append_eq_some.mpr ⟨s₁, Machine.exec_snoc_eq_some.mpr
        ⟨s, hrun, hfirst⟩, hpre⟩
      exact flowInv_exec hall
    obtain ⟨hle, heff⟩ := step_effect hstep
    have hnow : m'.now = e.1 := heff.now_eq
    obtain ⟨hf, hpos, hmax, hone, hdead, hfull⟩ :=
      heff.collecting_return (hi.tick e.1) hp.isCollecting (hcm.tick hp hle) hret
    refine ⟨?_, ?_⟩
    · rw [hf.items]
      simp [available, Function.comp_def]
    · rw [arrivals, Machine.observe_append hpre, Machine.observe_cons hstep, ← hnow]
      apply window_of_fills hsize hf hpos hmax hone
      · intro hlt
        rw [hnow]
        exact hdead hlt
      · intro hge
        rw [hnow]
        exact hfull hge
      · intro p hp
        rcases List.mem_append.mp hp with hp | hp
        · obtain ⟨it, -, rfl⟩ := List.mem_map.mp hp
          exact hnow.le
        · exact le_of_mem_arrivals hrest hp

/-- The steps of a collection with a timeout of 20 ms before its last one: a second item arrives and
is taken, a third one arrives exactly at the deadline. -/
def windowRun : List (ℚ × Action ℕ) :=
  [(1, .loopTest), (1 + 1 / 200, .predict "b"), (1 + 1 / 200, .collectNext),
    (1 + 1 / 200, .loopTest), (1 + 1 / 50, .predict "c")]

/-- The collection returns two items at the deadline; the third one stays in the queue. -/
theorem collection_window_deadline :
    ∃ s₁ m' : InferenceBatcher ⟨3, 20, 1, ⟨1, 1⟩⟩ ℕ,
      [⟨"a", 0⟩, ⟨"b", 1⟩] ++ m'.queue =
        [⟨"a", 0⟩] ++ (arrivals s₁ windowRun).map Prod.fst ∧
      Window ⟨3, 20, 1, ⟨1, 1⟩⟩ 1
        (arrivals s₁ (windowRun ++ (1 + 1 / 50, .collectTimeout) :: [(2, .predict "d")]))
        [⟨"a", 0⟩, ⟨"b", 1⟩] (1 + 1 / 50) := by
  obtain ⟨s, hs, s₁, hs₁, hq, hq₁, m, hm, hprompt, m', hm', hw, s₂, hs₂⟩ :
      ∃ s ∈ Machine.exec step (new ⟨3, 20, 1, ⟨1, 1⟩⟩ ℕ 0) [(0, .start), (1, .predict "a")],
        ∃ s₁ ∈ step s (1, .collectFirst), s.queue = [⟨"a", 0⟩] ∧ s₁.queue = [] ∧
          ∃ m ∈ Machine.exec step s₁ windowRun,
            Machine.StepsSatisfy step Prompt s₁ (windowRun ++ [(1 + 1 / 50, .collectTimeout)]) ∧
            ∃ m' ∈ step m (1 + 1 / 50, .collectTimeout),
              m'.worker = .acquire [⟨"a", 0⟩, ⟨"b", 1⟩] ∧
              ∃ s₂, s₂ ∈ Machine.exec step m' [(2, .predict "d")] ∧ True := by
    decide +kernel
  obtain ⟨first, hfirst, -, hreturn⟩ :=
    collection_window _ ℕ (by decide) (by decide +kernel) 0 1 _ s s₁ hs hs₁
  obtain ⟨hitems, hwindow⟩ := hreturn windowRun _ _ m m' s₂ _ hm hprompt hm' hw hs₂.1
  rw [hq₁] at hitems hwindow hfirst
  obtain rfl : first = ⟨"a", 0⟩ := by simpa using (hq.symm.trans hfirst).symm
  exact ⟨s₁, m', hitems, hwindow⟩

end InferenceBatcher

end InferenceServer
