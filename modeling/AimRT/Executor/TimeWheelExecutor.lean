import AimRT.Executor.WheelDues

/-!
# The time wheel executor

`TimeWheelExecutor` with its two operations on the wheel: a round of `TimerLoop` (one `Tick` and
`++current_tick_count_`) and `ExecuteAt`.

A task given to `ExecuteAt` for the tick `T` at the tick `t` is handed out at `T` when it is `InTime`:
the slot of its level has not been passed, and the levels below re-slot it by the right remainder.
Both can fail.  A level above the first one is one slot ahead (`start_pos` is `1`), which is one slot
too much for the levels above the second one; and `borrow_func` takes the remainder of the tick count
itself at every level.
-/

namespace AimRT.Executor

open AimRT.Lib

variable {α : Type}

/-- The wheel, the map and the tick counter; `imdQueue` is what went to `Execute`. -/
structure TimeWheelExecutor (α : Type) where
  currentTickCount : ℕ
  timingWheelVec : List (TimingWheelTool α)
  timingTaskMap : TimingTaskMap α
  imdQueue : List α

namespace TimeWheelExecutor

/-- The slot computed by `borrow_func`: `tick_count % wheel.size()`. -/
def slot (size _scale tickCount : ℕ) : Option ℕ := umod tickCount size

def init (o : WheelOptions) : TimeWheelExecutor α where
  currentTickCount := 0
  timingWheelVec := initLevels 0 1 o.wheelSize
  timingTaskMap := initTaskMap
  imdQueue := []

/-- One round of `TimerLoop`: what `Tick` returns is performed, then the counter moves on. -/
def advance (s : TimeWheelExecutor α) : Option (TaskList α × TimeWheelExecutor α) := do
  let (taskList, ws, m) ← tick slot s.timingWheelVec s.timingTaskMap
  return (taskList, { s with
    timingWheelVec := ws
    timingTaskMap := m
    currentTickCount := s.currentTickCount + 1 })

/-- `ExecuteAt`.  The slot number is `target_tick`, divided along with the distance. -/
def executeAt (o : WheelOptions) (s : TimeWheelExecutor α) (tp : ℕ) (task : α) :
    Option (TimeWheelExecutor α) := do
  let virtualTp := usub tp o.startTimePoint
  if virtualTp < s.currentTickCount * o.dtCount % 2 ^ 64 then
    return { s with imdQueue := s.imdQueue ++ [task] }
  else
    let targetTick := virtualTp / o.dtCount
    let diffTickCount := usub targetTick s.currentTickCount
    let (ws, m) ← executeAtLoop (fun _ x => x) ⟨virtualTp / o.dtCount, task⟩
      diffTickCount targetTick s.timingWheelVec s.timingTaskMap
    return { s with timingWheelVec := ws, timingTaskMap := m }

/-! ### Runs -/

/-- A step of a run: a round of the timer loop, or a call between two rounds. -/
inductive Op (α : Type) where
  | advance
  | executeAt (tp : ℕ) (task : α)

/-- The task lists handed out by the ticks of a run, in order; no value at undefined behaviour. -/
def run (o : WheelOptions) : TimeWheelExecutor α → List (Op α) →
    Option (List (TaskList α) × TimeWheelExecutor α)
  | s, [] => some ([], s)
  | s, .advance :: ops => do
    let (taskList, s) ← s.advance
    let (fired, s) ← run o s ops
    return (taskList :: fired, s)
  | s, .executeAt tp task :: ops => do
    let s ← s.executeAt o tp task
    run o s ops

/-- The tasks given to `ExecuteAt`, each with its target tick. -/
def scheduled (o : WheelOptions) : List (Op α) → TaskList α
  | [] => []
  | .advance :: ops => scheduled o ops
  | .executeAt tp task :: ops => ⟨o.targetTick tp, task⟩ :: scheduled o ops

/-- Every call of the run, made at the tick `cur` it finds, has a target tick `T` with `C cur T`. -/
def Calls (o : WheelOptions) (C : (cur T : ℕ) → Prop) : ℕ → List (Op α) → Prop
  | _, [] => True
  | cur, .advance :: ops => Calls o C (cur + 1) ops
  | cur, .executeAt tp _ :: ops => C cur (o.targetTick tp) ∧ Calls o C cur ops

instance Calls.decidable {o : WheelOptions} {C : ℕ → ℕ → Prop} [∀ cur T, Decidable (C cur T)] :
    (cur : ℕ) → (ops : List (Op α)) → Decidable (Calls o C cur ops)
  | _, [] => isTrue trivial
  | cur, .advance :: ops => Calls.decidable (cur + 1) ops
  | cur, .executeAt tp _ :: ops =>
    have := Calls.decidable (o := o) (C := C) cur ops
    inferInstanceAs (Decidable (C cur (o.targetTick tp) ∧ Calls o C cur ops))

/-- The run is defined, and the tick `c` hands out exactly the tasks with the target tick `c`. -/
def FiresOnTime (o : WheelOptions) (ops : List (Op α)) : Prop :=
  ∃ fired s, run o (init o) ops = some (fired, s) ∧
    ∀ c (hc : c < fired.length), fired[c].Perm ((scheduled o ops).filter fun τ => τ.tickCount = c)

@[simp] theorem calls_advance {o : WheelOptions} {C : ℕ → ℕ → Prop} {cur : ℕ}
    {ops : List (Op α)} : Calls o C cur (.advance :: ops) ↔ Calls o C (cur + 1) ops := Iff.rfl

@[simp] theorem calls_executeAt {o : WheelOptions} {C : ℕ → ℕ → Prop} {cur tp : ℕ} {task : α}
    {ops : List (Op α)} :
    Calls o C cur (.executeAt tp task :: ops) ↔ C cur (o.targetTick tp) ∧ Calls o C cur ops := Iff.rfl

/-! ### Which calls fire on time -/

/-- The number of the next slot at the end of the given levels, at the tick `t`: each level is one
slot ahead of the level below it. -/
def nextSlot (t : ℕ) (sizes : List ℕ) : ℕ := sizes.foldl (fun a n => a / n + 1) t

/-- The condition on a call made at the tick `t` for the tick `T`: the slot of the task in its level
is still to come, and the levels passed re-slot it by the remainder of its number there. -/
def InTime (sizes : List ℕ) (t T : ℕ) : Prop :=
  let below := levelsBelow (T - t) sizes
  nextSlot t below ≤ T / below.prod ∧
    ∀ i (hi : i < below.length), T % below[i] = T / (below.take i).prod % below[i]

instance (sizes : List ℕ) (t T : ℕ) : Decidable (InTime sizes t T) :=
  inferInstanceAs (Decidable (_ ∧ _))

theorem onTime_of_inTime {T : ℕ} (ws : List (TimingWheelTool α)) :
    ∀ P a diff, (∀ n ∈ sizesOf ws, 2 ≤ n) → T / P ≤ diff + a →
    nextSlot a (levelsBelow diff (sizesOf ws)) ≤ T / (P * (levelsBelow diff (sizesOf ws)).prod) →
    (∀ i (hi : i < (levelsBelow diff (sizesOf ws)).length),
      T % (levelsBelow diff (sizesOf ws))[i] =
        T / (P * ((levelsBelow diff (sizesOf ws)).take i).prod) %
          (levelsBelow diff (sizesOf ws))[i]) →
    OnTime slot (fun _ x => x) T P a diff (T / P) ws := by
  induction ws with
  | nil =>
    intro P a diff _ _ hlo _
    exact ⟨by simpa [levelsBelow, nextSlot] using hlo, rfl⟩
  | cons w ws ih =>
    intro P a diff hsizes hle hlo hslot
    have hlen : 2 ≤ w.wheel.length := hsizes _ (by simp)
    rw [OnTime]
    by_cases hdiff : diff < w.wheel.length
    · simp only [sizesOf_cons, levelsBelow, if_pos hdiff, nextSlot, List.foldl_nil, List.prod_nil,
        Nat.mul_one] at hlo
      rw [if_pos hdiff]
      exact ⟨hlo, by omega, rfl⟩
    · simp only [sizesOf_cons, levelsBelow, if_neg hdiff] at hlo hslot
      rw [if_neg hdiff, Nat.div_div_eq_div_mul]
      refine ⟨?_, ih _ _ _ (fun n hn => hsizes n (by simp [hn])) ?_ ?_ ?_⟩
      · have := hslot 0 (by simp)
        simp only [List.getElem_cons_zero, List.take_zero, List.prod_nil, Nat.mul_one] at this
        rw [slot, umod, if_neg (by omega), this]
      · rw [← Nat.div_div_eq_div_mul]
        calc T / P / w.wheel.length ≤ (diff + a) / w.wheel.length := Nat.div_le_div_right hle
          _ ≤ diff / w.wheel.length + a / w.wheel.length + 1 :=
            Nat.add_div_le_div_add_div_add_one _ _ _
      · simpa [nextSlot, Nat.mul_assoc] using hlo
      · intro i hi
        have := hslot (i + 1) (by simpa using hi)
        simpa [Nat.mul_assoc] using this

/-! ### The simulation -/

variable {o : WheelOptions} {s : TimeWheelExecutor α} {q : AlarmQueue (TaskWithTimestamp α)}

/-- The wheel of the executor refines an alarm queue. -/
def Refines (o : WheelOptions) (s : TimeWheelExecutor α) (q : AlarmQueue (TaskWithTimestamp α)) :
    Prop :=
  s.currentTickCount = q.now ∧ WheelRefines slot o s.timingWheelVec s.timingTaskMap q

theorem refines_init (o : WheelOptions) : Refines o (init (α := α) o) AlarmQueue.init :=
  ⟨rfl, wheelRefines_init slot o⟩

theorem Refines.advance (h : Refines o s q) :
    ∃ out s', s.advance = some (out, s') ∧ (out : Multiset _) = q.dueNow (·.tickCount) ∧
      Refines o s' (q.tick (·.tickCount)) := by
  obtain ⟨hnow, hwheel⟩ := h
  obtain ⟨out, ws, m, htick, hout, hwheel'⟩ := hwheel.tick
  refine ⟨out, { s with
    timingWheelVec := ws, timingTaskMap := m, currentTickCount := s.currentTickCount + 1 }, ?_, hout,
    congrArg (· + 1) hnow, hwheel'⟩
  simp [TimeWheelExecutor.advance, htick]

theorem Refines.executeAt (h : Refines o s q) {tp : ℕ} (task : α)
    (hcur : q.now ≤ o.targetTick tp) (htime : InTime o.wheelSize q.now (o.targetTick tp)) :
    ∃ s', s.executeAt o tp task = some s' ∧ Refines o s' (q.add ⟨o.targetTick tp, task⟩) := by
  obtain ⟨hnow, hwheel⟩ := h
  have hdiff : usub (o.targetTick tp) s.currentTickCount = o.targetTick tp - q.now := by
    rw [hnow, usub_of_le hcur (o.targetTick_lt tp)]
  have hon : OnTime slot (fun _ x => x) (o.targetTick tp) 1 q.now (o.targetTick tp - q.now)
      (o.targetTick tp) s.timingWheelVec := by
    have := onTime_of_inTime (T := o.targetTick tp) s.timingWheelVec 1 q.now
      (o.targetTick tp - q.now)
    rw [hwheel.sizes] at this
    simpa using this o.two_le (by simp; omega) (by simpa using htime.1) (by simpa using htime.2)
  obtain ⟨ws, m, hloop, hwheel'⟩ :=
    hwheel.executeAtLoop (τ := ⟨o.targetTick tp, task⟩) hon
  refine ⟨{ s with timingWheelVec := ws, timingTaskMap := m }, ?_, hnow, hwheel'⟩
  have hlate := WheelOptions.not_late (hnow.symm ▸ hcur)
  rw [TimeWheelExecutor.executeAt, if_neg hlate]
  rw [← hdiff] at hloop
  simp only [WheelOptions.targetTick] at hloop ⊢
  rw [hloop]
  rfl

theorem run_refines (ops : List (Op α)) : ∀ {s q added fired}, Refines o s q →
    AlarmQueue.Run (·.tickCount) q added fired →
    Calls o (fun cur T => cur ≤ T ∧ InTime o.wheelSize cur T) q.now ops →
    ∃ lists s' q', run o s ops = some (lists, s') ∧ Refines o s' q' ∧
      AlarmQueue.Run (·.tickCount) q' (scheduled o ops + added)
        (fired ++ lists.map ((↑) : TaskList α → Multiset (TaskWithTimestamp α))) := by
  induction ops with
  | nil =>
    intro s q added fired h hr _
    exact ⟨[], s, q, rfl, h, by simpa [scheduled] using hr⟩
  | cons op ops ih =>
    intro s q added fired h hr hc
    cases op with
    | advance =>
      obtain ⟨out, s₁, hadv, hout, h₁⟩ := h.advance
      obtain ⟨lists, s', q', hrun, h', hr'⟩ := ih h₁ hr.tick hc
      refine ⟨out :: lists, s', q', by simp [run, hadv, hrun], h', ?_⟩
      simpa [scheduled, hout] using hr'
    | executeAt tp task =>
      obtain ⟨⟨hcur, htime⟩, hc⟩ := hc
      obtain ⟨s₁, hat, h₁⟩ := h.executeAt task hcur htime
      obtain ⟨lists, s', q', hrun, h', hr'⟩ := ih h₁ (hr.add hcur) hc
      refine ⟨lists, s', q', by simp [run, hat, hrun], h', ?_⟩
      simpa [scheduled, ← Multiset.cons_coe] using hr'

/-- **Main result.**  When every call of a run has a target tick that has not passed and is in
time, each tick hands out exactly the tasks scheduled for it. -/
theorem firesOnTime (o : WheelOptions) (ops : List (Op α))
    (h : Calls o (fun cur T => cur ≤ T ∧ InTime o.wheelSize cur T) 0 ops) : FiresOnTime o ops := by
  obtain ⟨lists, s, q, hrun, _, hr⟩ := run_refines ops (refines_init o) AlarmQueue.Run.init h
  rw [add_zero, List.nil_append] at hr
  exact ⟨lists, s, hrun, hr.fired_perm⟩

/-- Calls at every level and in the map that are in time. -/
theorem firesOnTime_wheel32 : FiresOnTime wheel32
    [.executeAt 2 0, .executeAt 5 1, .executeAt 6 2, .advance, .executeAt 14 3, .advance] :=
  firesOnTime wheel32 _ (by decide)

theorem not_firesOnTime_of_run {o : WheelOptions} {ops : List (Op α)}
    (fired : List (TaskList α)) (hrun : (run o (init o) ops).map Prod.fst = some fired) {c : ℕ}
    (hc : c < fired.length)
    (hne : fired[c].length ≠ ((scheduled o ops).filter fun τ => τ.tickCount = c).length) :
    ¬ FiresOnTime o ops := by
  rintro ⟨fired', s, hrun', h⟩
  rw [hrun'] at hrun
  obtain rfl : fired' = fired := Option.some.inj hrun
  exact hne (h c hc).length_eq

/-- Two calls that are not in time.  Scheduled at the tick `0` for `7`, a task comes down from the
map to the slot `7 % 2` of the second level, not to `7 / 3 % 2`, and misses its tick.  Scheduled at
the tick `3` for `9`, it is stored under the key `1` of the map when the map is already at `2`. -/
theorem not_firesOnTime :
    (Calls wheel32 (· ≤ ·) 0 (.executeAt 7 () :: List.replicate 8 .advance) ∧
      ¬ FiresOnTime wheel32 (.executeAt 7 () :: List.replicate 8 .advance)) ∧
    Calls wheel32 (· ≤ ·) 0 (List.replicate 3 .advance ++ .executeAt 9 () :: List.replicate 7 .advance) ∧
      ¬ FiresOnTime wheel32
        (List.replicate 3 .advance ++ .executeAt 9 () :: List.replicate 7 .advance) :=
  ⟨⟨by decide,
      not_firesOnTime_of_run (List.replicate 8 []) rfl (c := 7) (by decide) (by decide)⟩,
    by decide,
      not_firesOnTime_of_run (List.replicate 10 []) rfl (c := 9) (by decide) (by decide)⟩

/-! ### The map -/

/-- Every key of the map is one that `borrow_func` of the last level will still look up. -/
def NothingStranded (s : TimeWheelExecutor α) : Prop := ∀ e ∈ s.timingTaskMap.entries, s.timingTaskMap.pos ≤ e.1

/-- The condition on a call made at the tick `t` for the tick `T`: if the task passes all levels, the map is not beyond
its key. -/
def KeyAhead (sizes : List ℕ) (t T : ℕ) : Prop :=
  levelsBelow (T - t) sizes = sizes → mapPos t sizes ≤ T / sizes.prod

instance (sizes : List ℕ) (t T : ℕ) : Decidable (KeyAhead sizes t T) := inferInstanceAs (Decidable (_ → _))

theorem hasSlots_slot {sizes : List ℕ} (hsizes : ∀ n ∈ sizes, 2 ≤ n) (T : ℕ) :
    ∀ P diff, HasSlots slot T P diff sizes := by
  induction sizes with
  | nil => exact fun P diff => trivial
  | cons size sizes ih =>
    intro P diff
    have hsize : 2 ≤ size := hsizes size List.mem_cons_self
    refine Or.inr ⟨⟨T % size, Nat.mod_lt _ (by omega), ?_⟩, ih (fun n hn => hsizes n (List.mem_cons_of_mem _ hn)) _ _⟩
    rw [slot, umod, if_neg (by omega)]

/-- A tick leaves the map as it is, or takes the list at its position. -/
theorem map_of_tick {slot : ℕ → ℕ → ℕ → Option ℕ} {ws ws' : List (TimingWheelTool α)} {m m' : TimingTaskMap α}
    {out : TaskList α} (h : tick slot ws m = some (out, ws', m')) :
    m' = m ∨ m' = { m.erase m.pos with pos := m.pos + 1 } := by
  induction ws generalizing out ws' m' with
  | nil =>
    simp only [tick, Option.some.injEq, Prod.mk.injEq] at h
    exact .inr h.2.2.symm
  | cons w ws ih =>
    simp only [tick, Option.bind_eq_bind, Option.bind_eq_some_iff] at h
    obtain ⟨ts, -, h⟩ := h
    split_ifs at h with hwrap
    · obtain ⟨⟨borrowed, ws₁, m₁⟩, htick, h⟩ := Option.bind_eq_some_iff.1 h
      obtain ⟨w₁, -, h⟩ := Option.bind_eq_some_iff.1 h
      obtain ⟨-, -, rfl⟩ : _ ∧ _ ∧ m₁ = m' := by simpa using h
      exact ih htick
    · obtain ⟨-, -, rfl⟩ : _ ∧ _ ∧ m = m' := by simpa using h
      exact .inl rfl

/-- A task that passes all levels goes to the map under its number there. -/
theorem map_of_executeAtLoop {τ : TaskWithTimestamp α} {ws ws' : List (TimingWheelTool α)} {m m' : TimingTaskMap α} :
    ∀ {diff x}, executeAtLoop (fun _ x => x) τ diff x ws m = some (ws', m') →
    m' = if levelsBelow diff (sizesOf ws) = sizesOf ws then m.emplaceBack (x / (sizesOf ws).prod) τ else m := by
  induction ws generalizing ws' m' with
  | nil =>
    intro diff x h
    simp only [executeAtLoop, Option.some.injEq, Prod.mk.injEq] at h
    simpa [levelsBelow] using h.2.symm
  | cons w ws ih =>
    intro diff x h
    rw [executeAtLoop] at h
    by_cases hdiff : diff < w.wheel.length
    · simp only [if_pos hdiff, Option.bind_eq_bind, Option.bind_eq_some_iff] at h
      obtain ⟨i, -, w', -, h⟩ := h
      obtain ⟨-, rfl⟩ : _ ∧ m = m' := by simpa using h
      simp [levelsBelow, hdiff]
    · simp only [if_neg hdiff, Option.bind_eq_bind, Option.bind_eq_some_iff] at h
      obtain ⟨⟨ws₁, m₁⟩, hloop, h⟩ := h
      obtain ⟨-, rfl⟩ : _ ∧ m₁ = m' := by simpa using h
      simpa [levelsBelow, hdiff, Nat.div_div_eq_div_mul] using ih hloop

/-- The wheel of the executor turns as it should, whatever is in it. -/
def Turns (o : WheelOptions) (s : TimeWheelExecutor α) : Prop :=
  ∃ q, s.currentTickCount = q.now ∧ WheelKeeps slot o s.timingWheelVec s.timingTaskMap q

theorem turns_init (o : WheelOptions) : Turns o (init (α := α) o) := ⟨_, rfl, wheelKeeps_init slot o⟩

theorem Turns.advance (h : Turns o s) : ∃ out s', s.advance = some (out, s') ∧ Turns o s' ∧
    s'.currentTickCount = s.currentTickCount + 1 ∧ (NothingStranded s → NothingStranded s') := by
  obtain ⟨q, hnow, hwheel⟩ := h
  obtain ⟨out, ws, m, htick, -, hwheel'⟩ := hwheel.tick
  refine ⟨out, { s with
    timingWheelVec := ws, timingTaskMap := m, currentTickCount := s.currentTickCount + 1 }, ?_,
    ⟨_, congrArg (· + 1) hnow, hwheel'⟩, rfl, fun hmap => ?_⟩
  · simp [TimeWheelExecutor.advance, htick]
  · intro e he
    rcases map_of_tick htick with rfl | rfl
    · exact hmap e he
    · -- the key at the position is gone
      obtain ⟨hold, hne⟩ := List.mem_filter.1 he
      have hle := hmap e hold
      have hkey : e.1 ≠ s.timingTaskMap.pos := of_decide_eq_true hne
      show s.timingTaskMap.pos + 1 ≤ e.1
      omega

/-- A call that is not late, with a clock that may be behind the wheel. -/
theorem executeAt_of_not_late {q : AlarmQueue (ℕ × TaskWithTimestamp α)}
    (h : WheelKeeps slot o s.timingWheelVec s.timingTaskMap q) {tp : ℕ} (task : α)
    (hlate : ¬ usub tp o.startTimePoint < s.currentTickCount * o.dtCount % 2 ^ 64) :
    ∃ ws m, executeAtLoop (fun _ x => x) ⟨o.targetTick tp, task⟩ (usub (o.targetTick tp) s.currentTickCount)
        (o.targetTick tp) s.timingWheelVec s.timingTaskMap = some (ws, m) ∧
      s.executeAt o tp task = some { s with timingWheelVec := ws, timingTaskMap := m } ∧
      WheelKeeps slot o ws m (withDue q ⟨o.targetTick tp, task⟩ (dueAt slot (fun _ x => x) (o.targetTick tp)
        (fun k _ => k) 1 q.now (usub (o.targetTick tp) s.currentTickCount) (o.targetTick tp) o.wheelSize)) := by
  obtain ⟨ws, m, hloop, hwheel⟩ := h.executeAtLoop (fun _ x => x) ⟨o.targetTick tp, task⟩
    (usub (o.targetTick tp) s.currentTickCount) (o.targetTick tp) fun _ => hasSlots_slot o.two_le _ _ _
  refine ⟨ws, m, hloop, ?_, hwheel⟩
  rw [TimeWheelExecutor.executeAt, if_neg hlate]
  simp only [WheelOptions.targetTick] at hloop ⊢
  rw [hloop]
  rfl

theorem Turns.executeAt (h : Turns o s) {tp : ℕ} (task : α) (hcur : s.currentTickCount ≤ o.targetTick tp) :
    ∃ s', s.executeAt o tp task = some s' ∧ Turns o s' ∧ s'.currentTickCount = s.currentTickCount ∧
      (NothingStranded s → (NothingStranded s' ↔ KeyAhead o.wheelSize s.currentTickCount (o.targetTick tp))) := by
  obtain ⟨q, hnow, hwheel⟩ := h
  obtain ⟨ws, m, hloop, hat, hwheel'⟩ := executeAt_of_not_late hwheel task (WheelOptions.not_late hcur)
  refine ⟨_, hat, ⟨_, by simpa using hnow, hwheel'⟩, rfl, fun hmap => ?_⟩
  have hpos : s.timingTaskMap.pos = mapPos s.currentTickCount o.wheelSize := by
    rw [pos_eq_of_placed slot hwheel.placed, hwheel.sizes, hnow]
  have hm := map_of_executeAtLoop hloop
  rw [hwheel.sizes, usub_of_le hcur (o.targetTick_lt tp)] at hm
  rw [KeyAhead]
  split_ifs at hm with hpassed
  · rw [← hpos]
    simp only [hpassed, forall_const]
    constructor
    · intro hmap'
      have hnew := hmap' (o.targetTick tp / o.wheelSize.prod, ⟨o.targetTick tp, task⟩) (by
        simp [hm, TimingTaskMap.emplaceBack])
      simpa [hm, TimingTaskMap.emplaceBack] using hnew
    · intro hle e he
      simp only [hm, TimingTaskMap.emplaceBack] at he ⊢
      rcases List.mem_append.1 he with hold | hnew
      · exact hmap e hold
      · rw [List.mem_singleton.1 hnew]
        exact hle
  · simp only [hpassed, false_implies, iff_true]
    intro e he
    simp only [hm] at he ⊢
    exact hmap e he

/-- The run is defined, and nothing is stranded in its states. -/
def StrandsNothing (o : WheelOptions) : TimeWheelExecutor α → List (Op α) → Prop
  | s, [] => NothingStranded s
  | s, .advance :: ops => NothingStranded s ∧ ∃ out s', s.advance = some (out, s') ∧ StrandsNothing o s' ops
  | s, .executeAt tp task :: ops =>
    NothingStranded s ∧ ∃ s', s.executeAt o tp task = some s' ∧ StrandsNothing o s' ops

theorem StrandsNothing.head {ops : List (Op α)} (h : StrandsNothing o s ops) : NothingStranded s := by
  cases ops with
  | nil => exact h
  | cons op ops => cases op <;> exact h.1

theorem Turns.strandsNothing_iff_calls {ops : List (Op α)} :
    ∀ {s : TimeWheelExecutor α}, Turns o s → NothingStranded s → Calls o (· ≤ ·) s.currentTickCount ops →
    (StrandsNothing o s ops ↔ Calls o (KeyAhead o.wheelSize) s.currentTickCount ops) := by
  induction ops with
  | nil => exact fun _ hmap _ => ⟨fun _ => trivial, fun _ => hmap⟩
  | cons op ops ih =>
    intro s h hmap hcalls
    cases op with
    | advance =>
      obtain ⟨out, s', hadv, h', hcount, hkeep⟩ := h.advance
      rw [calls_advance, ← hcount] at hcalls ⊢
      rw [← ih h' (hkeep hmap) hcalls]
      simp [StrandsNothing, hmap, hadv]
    | executeAt tp task =>
      obtain ⟨hcur, hcalls⟩ := hcalls
      obtain ⟨s', hat, h', hcount, hkey⟩ := h.executeAt task hcur
      rw [calls_executeAt, ← hkey hmap]
      rw [← hcount] at hcalls ⊢
      simp only [StrandsNothing, hmap, hat, Option.some.injEq, exists_eq_left', true_and]
      constructor
      · intro hrest
        exact ⟨hrest.head, (ih h' hrest.head hcalls).1 hrest⟩
      · rintro ⟨hmap', hrest⟩
        exact (ih h' hmap' hcalls).2 hrest

/-- **Nothing is stranded in a run if and only if the map is never beyond the key of a call.** -/
theorem strandsNothing_iff (o : WheelOptions) {ops : List (Op α)} (hcalls : Calls o (· ≤ ·) 0 ops) :
    StrandsNothing o (init o) ops ↔ Calls o (KeyAhead o.wheelSize) 0 ops :=
  (turns_init o).strandsNothing_iff_calls (fun e he => by cases he) hcalls

/-- Calls that pass all levels, before and behind the wrap of the last one. -/
theorem strandsNothing_wheel32 : StrandsNothing wheel32 (init wheel32)
    ([.executeAt 6 0] ++ List.replicate 3 .advance ++ [.executeAt 12 1, .executeAt 8 2, .advance]) :=
  (strandsNothing_iff wheel32 (by decide)).2 (by decide)

/-- Scheduled at the tick `3` for `9`, a task is stored under the key `1` of the map when the map is already at `2`. -/
theorem not_strandsNothing :
    let ops : List (Op Unit) := List.replicate 3 .advance ++ [.executeAt 9 ()]
    Calls wheel32 (· ≤ ·) 0 ops ∧ ¬ StrandsNothing wheel32 (init wheel32) ops := by
  refine ⟨by decide, fun h => ?_⟩
  have hkeys := ((turns_init wheel32).strandsNothing_iff_calls (fun e he => by cases he) (by decide)).1 h
  exact absurd hkeys (by decide)

end TimeWheelExecutor

end AimRT.Executor
