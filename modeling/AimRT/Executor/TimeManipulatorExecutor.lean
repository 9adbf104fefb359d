import AimRT.Executor.WheelDues

/-!
# The time manipulator executor

`TimeManipulatorExecutor`: a round of `TimerLoop` reads the time ratio and then makes one tick or
`real_ratio` ticks; `ExecuteAt` may come between any two of them.

Two index computations differ from those of the time wheel executor.  The slot number of a task is
the sum of two quotients, of the distance and of the current tick, and a carry between the two is
lost; and `borrow_func` takes the remainder by the scale of the level, the weight of the level above,
which is the slot only when the lower digits of the tick count are zero.
-/

namespace AimRT.Executor

open AimRT.Lib

variable {α : Type}

/-- What `SetTimeRatio` leaves in `ratio_direction_` and `real_ratio_`, whatever its argument. -/
structure TimeRatio where
  ratioDirection : Bool
  realRatio : ℕ
  one_le : 1 ≤ realRatio
  lt : realRatio < 2 ^ 32

/-- The largest `uint32_t` stands for a pause. -/
def TimeRatio.paused (r : TimeRatio) : Prop := r.realRatio = 2 ^ 32 - 1

instance (r : TimeRatio) : Decidable r.paused := inferInstanceAs (Decidable (_ = _))

/-- The ticks of a round that begins under the ratio. -/
def TimeRatio.ticks (r : TimeRatio) : ℕ := if r.ratioDirection then r.realRatio else 1

/-- The tick counter and the ticks that the current round of `TimerLoop` still has to make. -/
structure TickClock where
  ratio : TimeRatio
  diffTickCount : ℕ
  currentTickCount : ℕ

namespace TickClock

/-- The next step of `TimerLoop`: at the end of a round it reads the ratio, where a pause goes back
to the head of the loop; inside a round it makes a tick. -/
def next (k : TickClock) : TickClock :=
  if k.diffTickCount = 0 then
    if k.ratio.paused then k else { k with diffTickCount := k.ratio.ticks }
  else
    { k with
      diffTickCount := k.diffTickCount - 1
      currentTickCount := k.currentTickCount + 1 }

end TickClock

/-- The clock, the wheel and the map; `executed` is what `ExecuteAt` passed on at once. -/
structure TimeManipulatorExecutor (α : Type) where
  clock : TickClock
  timingWheelVec : List (TimingWheelTool α)
  timingTaskMap : TimingTaskMap α
  executed : List α

namespace TimeManipulatorExecutor

/-- The slot computed by `borrow_func`: `tick_count % scale`. -/
def slot (_size scale tickCount : ℕ) : Option ℕ := umod tickCount scale

/-- The slot number computed by `ExecuteAt`: `diff_tick_count + temp_current_tick_count`. -/
def pos (diffTickCount tempCurrentTickCount : ℕ) : ℕ := diffTickCount + tempCurrentTickCount

def init (o : WheelOptions) (initRatio : TimeRatio) : TimeManipulatorExecutor α where
  clock := { ratio := initRatio, diffTickCount := 0, currentTickCount := 0 }
  timingWheelVec := initLevels 0 1 o.wheelSize
  timingTaskMap := initTaskMap
  executed := []

def setTimeRatio (s : TimeManipulatorExecutor α) (ratio : TimeRatio) : TimeManipulatorExecutor α :=
  { s with clock := { s.clock with ratio := ratio } }

/-- The next step of `TimerLoop`, with the task list it hands to the bound executor if it ticks. -/
def timerLoop (s : TimeManipulatorExecutor α) :
    Option (Option (TaskList α) × TimeManipulatorExecutor α) :=
  if s.clock.diffTickCount = 0 then
    some (none, { s with clock := s.clock.next })
  else do
    let (taskList, ws, m) ← tick slot s.timingWheelVec s.timingTaskMap
    return (some taskList, { s with
      timingWheelVec := ws
      timingTaskMap := m
      clock := s.clock.next })

def executeAt (o : WheelOptions) (s : TimeManipulatorExecutor α) (tp : ℕ) (task : α) :
    Option (TimeManipulatorExecutor α) := do
  let virtualTp := usub tp o.startTimePoint
  if virtualTp < s.clock.currentTickCount * o.dtCount % 2 ^ 64 then
    return { s with executed := s.executed ++ [task] }
  else
    let tempCurrentTickCount := s.clock.currentTickCount
    let diffTickCount := usub (virtualTp / o.dtCount) s.clock.currentTickCount
    let (ws, m) ← executeAtLoop pos ⟨virtualTp / o.dtCount, task⟩
      diffTickCount tempCurrentTickCount s.timingWheelVec s.timingTaskMap
    return { s with timingWheelVec := ws, timingTaskMap := m }

/-! ### Runs -/

inductive Op (α : Type) where
  | timerLoop
  | setTimeRatio (ratio : TimeRatio)
  | executeAt (tp : ℕ) (task : α)

/-- The task lists handed over by the ticks of a run, in order; no value at undefined behaviour. -/
def run (o : WheelOptions) : TimeManipulatorExecutor α → List (Op α) →
    Option (List (TaskList α) × TimeManipulatorExecutor α)
  | s, [] => some ([], s)
  | s, .timerLoop :: ops => do
    let (taskList, s) ← s.timerLoop
    let (fired, s) ← run o s ops
    return (taskList.toList ++ fired, s)
  | s, .setTimeRatio ratio :: ops => run o (s.setTimeRatio ratio) ops
  | s, .executeAt tp task :: ops => do
    let s ← s.executeAt o tp task
    run o s ops

/-- The tasks given to `ExecuteAt`, each with its target tick. -/
def scheduled (o : WheelOptions) : List (Op α) → TaskList α
  | [] => []
  | .executeAt tp task :: ops => ⟨o.targetTick tp, task⟩ :: scheduled o ops
  | _ :: ops => scheduled o ops

/-- Every call of the run, made at the tick `cur` that the clock shows, has a target tick `T` with
`C cur T`. -/
def Calls (o : WheelOptions) (C : (cur T : ℕ) → Prop) : TickClock → List (Op α) → Prop
  | _, [] => True
  | k, .timerLoop :: ops => Calls o C k.next ops
  | k, .setTimeRatio ratio :: ops => Calls o C { k with ratio := ratio } ops
  | k, .executeAt tp _ :: ops => C k.currentTickCount (o.targetTick tp) ∧ Calls o C k ops

instance Calls.decidable {o : WheelOptions} {C : ℕ → ℕ → Prop} [∀ cur T, Decidable (C cur T)] :
    (k : TickClock) → (ops : List (Op α)) → Decidable (Calls o C k ops)
  | _, [] => isTrue trivial
  | k, .timerLoop :: ops => Calls.decidable k.next ops
  | k, .setTimeRatio ratio :: ops => Calls.decidable { k with ratio := ratio } ops
  | k, .executeAt tp _ :: ops =>
    have := Calls.decidable (o := o) (C := C) k ops
    inferInstanceAs (Decidable (C k.currentTickCount (o.targetTick tp) ∧ Calls o C k ops))

/-- The run is defined, and the tick `c` hands over exactly the tasks with the target tick `c`. -/
def HandsOverOnTime (o : WheelOptions) (initRatio : TimeRatio) (ops : List (Op α)) : Prop :=
  ∃ fired s, run o (init o initRatio) ops = some (fired, s) ∧
    ∀ c (hc : c < fired.length), fired[c].Perm ((scheduled o ops).filter fun τ => τ.tickCount = c)

/-! ### Which calls fire on time -/

/-- The condition on a call made at the tick `t` for the tick `T`, with `P` the weight of the level
of the task: no carry is lost between the two quotients, and above the second level `P` divides the
tick count. -/
def InTime (sizes : List ℕ) (t T : ℕ) : Prop :=
  let below := levelsBelow (T - t) sizes
  t % below.prod ≤ T % below.prod ∧ (2 ≤ below.length → below.prod ∣ T)

instance (sizes : List ℕ) (t T : ℕ) : Decidable (InTime sizes t T) :=
  inferInstanceAs (Decidable (_ ∧ _))

/-- The two quotients add up when no carry is lost. -/
theorem div_add_div_of_mod_le {t T P : ℕ} (hle : t ≤ T) (hmod : t % P ≤ T % P) :
    (T - t) / P + t / P = T / P := by
  rcases Nat.eq_zero_or_pos P with rfl | hP
  · simp
  · have hsum : T - t + t = T := Nat.sub_add_cancel hle
    have hlt : (T - t) % P < P := Nat.mod_lt _ hP
    have hdiv := Nat.add_div (a := T - t) (b := t) hP
    have hrem := Nat.add_mod_eq_ite (m := T - t) (n := t) (k := P)
    rw [hsum] at hdiv hrem
    split at hrem
    · omega
    · rw [if_neg (by assumption)] at hdiv
      omega

theorem onTime_above {t T : ℕ} (hT : T < 2 ^ 64) (hle : t ≤ T) (ws : List (TimingWheelTool α)) :
    ∀ {P m}, 0 < P → Sound slot P (t / P + 1) ws m → 1 ≤ (T - t) / P →
    t % (P * (levelsBelow ((T - t) / P) (sizesOf ws)).prod) ≤
      T % (P * (levelsBelow ((T - t) / P) (sizesOf ws)).prod) →
    (levelsBelow ((T - t) / P) (sizesOf ws) ≠ [] →
      P * (levelsBelow ((T - t) / P) (sizesOf ws)).prod ∣ T) →
    OnTime slot pos T P (t / P + 1) ((T - t) / P) (t / P) ws := by
  induction ws with
  | nil =>
    intro P m hP _ hdiff hmod _
    have hsum := div_add_div_of_mod_le hle (by simpa [levelsBelow] using hmod)
    exact ⟨by omega, hsum⟩
  | cons w ws ih =>
    intro P m hP hs hdiff hmod hdvd
    obtain ⟨hw, _, hws⟩ := hs
    have hlen := hw.two_le
    rw [OnTime]
    by_cases hlt : (T - t) / P < w.wheel.length
    · simp only [sizesOf_cons, levelsBelow, if_pos hlt, List.prod_nil, Nat.mul_one] at hmod
      have hsum := div_add_div_of_mod_le hle hmod
      rw [if_pos hlt]
      exact ⟨by omega, by omega, hsum⟩
    · simp only [sizesOf_cons, levelsBelow, if_neg hlt, List.prod_cons, ← Nat.mul_assoc] at hmod hdvd
      rw [if_neg hlt]
      -- the level of the task is above the next one, so its weight divides both tick counts
      have hT' := hdvd (by simp)
      rw [Nat.dvd_iff_mod_eq_zero.1 hT'] at hmod
      have ht' := Nat.dvd_of_mod_eq_zero (Nat.le_zero.1 hmod)
      have hwT : P * w.wheel.length ∣ T := (Nat.dvd_mul_right _ _).trans hT'
      have hwt : w.wheel.length ∣ t / P :=
        Nat.dvd_div_of_mul_dvd ((Nat.dvd_mul_right _ _).trans ht')
      have hdivx : (t / P + 1) / w.wheel.length = t / P / w.wheel.length := by
        rw [Nat.succ_div, if_neg, Nat.add_zero]
        intro h
        have := (Nat.dvd_add_right hwt).1 h
        have := Nat.le_of_dvd (by decide) this
        omega
      have hscale : w.scale = P * w.wheel.length := by
        rw [hw.scale_eq, Nat.mod_eq_of_lt]
        have : P * w.wheel.length ≤ T - t := by
          rw [Nat.mul_comm]
          exact (Nat.le_div_iff_mul_le hP).1 (by omega)
        omega
      refine ⟨?_, ?_⟩
      · have hTP : w.wheel.length ∣ T / P := Nat.dvd_div_of_mul_dvd hwT
        rw [slot, umod, hscale, if_neg (by positivity), Nat.dvd_iff_mod_eq_zero.1 hwT,
          Nat.dvd_iff_mod_eq_zero.1 hTP]
      · rw [hdivx] at hws ⊢
        have hone : 1 ≤ (T - t) / P / w.wheel.length :=
          (Nat.one_le_div_iff (by omega)).2 (by omega)
        rw [Nat.div_div_eq_div_mul] at hws hmod hone hT' ⊢
        rw [Nat.div_div_eq_div_mul]
        exact ih (by positivity) hws hone (hmod.trans (Nat.zero_le _)) fun _ => hT'

theorem onTime_of_inTime {t T : ℕ} (hT : T < 2 ^ 64) (hle : t ≤ T) {ws : List (TimingWheelTool α)}
    {m : TimingTaskMap α} (hne : sizesOf ws ≠ []) (hs : Sound slot 1 t ws m)
    (h : InTime (sizesOf ws) t T) : OnTime slot pos T 1 t (T - t) t ws := by
  cases ws with
  | nil => exact absurd rfl hne
  | cons w ws =>
    obtain ⟨hw, _, hws⟩ := hs
    have hlen := hw.two_le
    obtain ⟨hmod, hdvd⟩ := h
    rw [OnTime]
    by_cases hlt : T - t < w.wheel.length
    · rw [if_pos hlt, Nat.div_one, pos]
      exact ⟨by omega, by omega, by omega⟩
    · simp only [sizesOf_cons, levelsBelow, if_neg hlt, List.prod_cons, List.length_cons] at hmod hdvd
      rw [Nat.one_mul] at hws
      rw [if_neg hlt, Nat.one_mul]
      refine ⟨?_, ?_⟩
      · -- the first level re-slots by its own size
        rw [slot, umod, hw.scale_eq, Nat.one_mul, Nat.mod_eq_of_lt (show w.wheel.length < 2 ^ 64 by omega),
          if_neg (by omega), Nat.div_one]
      · refine onTime_above hT hle ws (by omega) hws ((Nat.one_le_div_iff (by omega)).2 (by omega))
          hmod fun hbelow => hdvd ?_
        have := List.length_pos_iff.2 hbelow
        omega

/-! ### The simulation -/

variable {o : WheelOptions} {s : TimeManipulatorExecutor α}
  {q : AlarmQueue (TaskWithTimestamp α)}

/-- The wheel of the executor refines an alarm queue. -/
def Refines (o : WheelOptions) (s : TimeManipulatorExecutor α)
    (q : AlarmQueue (TaskWithTimestamp α)) : Prop :=
  s.clock.currentTickCount = q.now ∧ WheelRefines slot o s.timingWheelVec s.timingTaskMap q

theorem refines_init (o : WheelOptions) (r : TimeRatio) :
    Refines o (init (α := α) o r) AlarmQueue.init :=
  ⟨rfl, wheelRefines_init slot o⟩

/-- A step of the timer loop is a tick of the queue or none. -/
theorem Refines.timerLoop (h : Refines o s q) :
    ∃ out s', s.timerLoop = some (out, s') ∧ s'.clock = s.clock.next ∧
      ((out = none ∧ Refines o s' q) ∨
        ∃ taskList, out = some taskList ∧ (taskList : Multiset _) = q.dueNow (·.tickCount) ∧
          Refines o s' (q.tick (·.tickCount))) := by
  obtain ⟨hnow, hwheel⟩ := h
  unfold TimeManipulatorExecutor.timerLoop
  by_cases hround : s.clock.diffTickCount = 0
  · rw [if_pos hround]
    refine ⟨_, _, rfl, rfl, Or.inl ⟨rfl, ?_, hwheel⟩⟩
    simp only [TickClock.next, if_pos hround]
    split <;> exact hnow
  · obtain ⟨taskList, ws, m, htick, hout, hwheel'⟩ := hwheel.tick
    rw [if_neg hround, htick]
    refine ⟨_, _, rfl, rfl, Or.inr ⟨taskList, rfl, hout, ?_, hwheel'⟩⟩
    simp only [TickClock.next, if_neg hround]
    exact congrArg (· + 1) hnow

theorem Refines.executeAt (h : Refines o s q) {tp : ℕ} (task : α)
    (hcur : q.now ≤ o.targetTick tp) (htime : InTime o.wheelSize q.now (o.targetTick tp)) :
    ∃ s', s.executeAt o tp task = some s' ∧ s'.clock = s.clock ∧
      Refines o s' (q.add ⟨o.targetTick tp, task⟩) := by
  obtain ⟨hnow, hwheel⟩ := h
  have hdiff : usub (o.targetTick tp) s.clock.currentTickCount = o.targetTick tp - q.now := by
    rw [hnow, usub_of_le hcur (o.targetTick_lt tp)]
  have hon := onTime_of_inTime (o.targetTick_lt tp) hcur (hwheel.sizes ▸ o.wheelSize_ne)
    hwheel.sound (hwheel.sizes ▸ htime)
  obtain ⟨ws, m, hloop, hwheel'⟩ :=
    hwheel.executeAtLoop (τ := ⟨o.targetTick tp, task⟩) hon
  refine ⟨{ s with timingWheelVec := ws, timingTaskMap := m }, ?_, rfl, hnow, hwheel'⟩
  have hlate := WheelOptions.not_late (hnow.symm ▸ hcur)
  rw [TimeManipulatorExecutor.executeAt, if_neg hlate]
  rw [← hdiff, ← hnow] at hloop
  simp only [WheelOptions.targetTick] at hloop ⊢
  rw [hloop]
  rfl

theorem run_refines (ops : List (Op α)) : ∀ {s q added fired}, Refines o s q →
    AlarmQueue.Run (·.tickCount) q added fired →
    Calls o (fun cur T => cur ≤ T ∧ InTime o.wheelSize cur T) s.clock ops →
    ∃ lists s' q', run o s ops = some (lists, s') ∧ Refines o s' q' ∧
      AlarmQueue.Run (·.tickCount) q' (scheduled o ops + added)
        (fired ++ lists.map ((↑) : TaskList α → Multiset (TaskWithTimestamp α))) := by
  induction ops with
  | nil =>
    intro s q added fired h hr _
    exact ⟨[], s, q, rfl, h, by simpa [scheduled] using hr⟩
  | cons op ops ih =>
    intro s q added fired h hr hc
    cases op with
    | timerLoop =>
      obtain ⟨out, s₁, hstep, hclock, h₁⟩ := h.timerLoop
      rw [Calls, ← hclock] at hc
      rcases h₁ with ⟨rfl, h₁⟩ | ⟨taskList, rfl, hout, h₁⟩
      · obtain ⟨lists, s', q', hrun, h', hr'⟩ := ih h₁ hr hc
        exact ⟨lists, s', q', by simp [run, hstep, hrun], h', hr'⟩
      · obtain ⟨lists, s', q', hrun, h', hr'⟩ := ih h₁ hr.tick hc
        refine ⟨taskList :: lists, s', q', by simp [run, hstep, hrun], h', ?_⟩
        simpa [scheduled, hout] using hr'
    | setTimeRatio ratio =>
      exact ih (s := s.setTimeRatio ratio) h hr hc
    | executeAt tp task =>
      obtain ⟨⟨hcur, htime⟩, hc⟩ := hc
      rw [h.1] at hcur htime
      obtain ⟨s₁, hat, hclock, h₁⟩ := h.executeAt task hcur htime
      obtain ⟨lists, s', q', hrun, h', hr'⟩ := ih h₁ (hr.add hcur) (hclock ▸ hc)
      refine ⟨lists, s', q', by simp [run, hat, hrun], h', ?_⟩
      simpa [scheduled, ← Multiset.cons_coe] using hr'

/-- **Main result.**  When every call of a run has a target tick that has not passed and is in
time, each tick hands over exactly the tasks scheduled for it, under every sequence of ratios. -/
theorem handsOverOnTime (o : WheelOptions) (initRatio : TimeRatio) (ops : List (Op α))
    (h : Calls o (fun cur T => cur ≤ T ∧ InTime o.wheelSize cur T)
      { ratio := initRatio, diffTickCount := 0, currentTickCount := 0 } ops) :
    HandsOverOnTime o initRatio ops := by
  obtain ⟨lists, s, q, hrun, _, hr⟩ := run_refines (s := init o initRatio) ops
    (refines_init o initRatio) AlarmQueue.Run.init h
  rw [add_zero, List.nil_append] at hr
  exact ⟨lists, s, hrun, hr.fired_perm⟩

/-- The real speed, and twice the real speed. -/
def ratio1 : TimeRatio := ⟨true, 1, by decide, by decide⟩

def ratio2 : TimeRatio := ⟨true, 2, by decide, by decide⟩

/-- Calls that are in time, at the head of a round and between the ticks of one. -/
theorem handsOverOnTime_wheel32 : HandsOverOnTime wheel32 ratio2
    [.executeAt 2 0, .timerLoop, .executeAt 5 1, .timerLoop, .executeAt 4 2, .timerLoop,
      .setTimeRatio ⟨false, 3, by decide, by decide⟩, .timerLoop, .timerLoop] :=
  handsOverOnTime wheel32 ratio2 _ (by decide)

/-- Two runs at the real speed with a call that is not in time.  Scheduled at the tick `1` for `6`,
a task is handed over at `3`: the carry of `5 / 3 + 1 / 3` is lost.  Scheduled at the tick `0` for
`8`, it comes down from the map to the slot `8 % 6` of a level of two slots. -/
theorem not_handsOverOnTime :
    let calls := Calls (α := Unit) wheel32 (· ≤ ·)
      { ratio := ratio1, diffTickCount := 0, currentTickCount := 0 }
    let early : List (Op Unit) :=
      [.timerLoop, .timerLoop, .executeAt 6 ()] ++ List.replicate 12 .timerLoop
    let outOfRange : List (Op Unit) := .executeAt 8 () :: List.replicate 6 .timerLoop
    (calls early ∧ ¬ HandsOverOnTime wheel32 ratio1 early) ∧
      calls outOfRange ∧ run wheel32 (init wheel32 ratio1) outOfRange = none := by
  refine ⟨⟨by decide, ?_⟩, by decide, rfl⟩
  rintro ⟨fired, s, hrun, h⟩
  have hfired : some fired = some [[], [], [], [⟨6, ()⟩], [], [], []] := by
    rw [← show _ = some fired from congrArg (Option.map Prod.fst) hrun]
    rfl
  obtain rfl := Option.some.inj hfired
  exact absurd (h 6 (by decide)).length_eq (by decide)

/-! ### The indices -/

/-- The condition on a call made at the tick `t` for the tick `T`: unless the map is beyond its key, the remainder by
the weight of the level above is a slot of each level the task comes down to. -/
def SlotsExist (sizes : List ℕ) (t T : ℕ) : Prop :=
  let below := levelsBelow (T - t) sizes
  (below = sizes → mapPos t sizes ≤ (T - t) / sizes.prod + t / sizes.prod) →
    ∀ i (hi : i < below.length), T % (below.take (i + 1)).prod < below[i]

instance (sizes : List ℕ) (t T : ℕ) : Decidable (SlotsExist sizes t T) := inferInstanceAs (Decidable (_ → _))

theorem hasSlots_slot {T D : ℕ} (hD : D < 2 ^ 64) (sizes : List ℕ) : ∀ P, 0 < P →
    (∀ i (hi : i < (levelsBelow (D / P) sizes).length),
      T % (P * ((levelsBelow (D / P) sizes).take (i + 1)).prod) < (levelsBelow (D / P) sizes)[i]) →
    HasSlots slot T P (D / P) sizes := by
  induction sizes with
  | nil => exact fun P _ _ => trivial
  | cons size sizes ih =>
    intro P hP h
    rcases Nat.lt_or_ge (D / P) size with hlt | hge
    · exact .inl hlt
    · have hscale : P * size ≤ D := by
        rw [Nat.mul_comm]
        exact (Nat.le_div_iff_mul_le hP).1 hge
      have hbelow : levelsBelow (D / P) (size :: sizes) = size :: levelsBelow (D / (P * size)) sizes := by
        rw [levelsBelow, if_neg (Nat.not_lt.2 hge), Nat.div_div_eq_div_mul]
      simp only [hbelow] at h
      have hhead := h 0 (by simp)
      simp only [List.take_succ_cons, List.take_zero, List.prod_cons, List.prod_nil, Nat.mul_one,
        List.getElem_cons_zero] at hhead
      have hsize : 0 < size := by omega
      refine .inr ⟨⟨_, hhead, ?_⟩, ?_⟩
      · rw [slot, umod, Nat.mod_eq_of_lt (by omega), if_neg (by positivity)]
      · rw [Nat.div_div_eq_div_mul]
        refine ih _ (by positivity) fun i hi => ?_
        have htail := h (i + 1) (by simpa using hi)
        simpa [Nat.mul_assoc] using htail

/-- The wheel of the executor turns as it should, whatever is in it. -/
def Turns (o : WheelOptions) (s : TimeManipulatorExecutor α) : Prop :=
  ∃ q, s.clock.currentTickCount = q.now ∧ WheelKeeps slot o s.timingWheelVec s.timingTaskMap q

theorem turns_init (o : WheelOptions) (r : TimeRatio) : Turns o (init (α := α) o r) := ⟨_, rfl, wheelKeeps_init slot o⟩

theorem Turns.timerLoop (h : Turns o s) :
    ∃ out s', s.timerLoop = some (out, s') ∧ s'.clock = s.clock.next ∧ Turns o s' := by
  obtain ⟨q, hnow, hwheel⟩ := h
  unfold TimeManipulatorExecutor.timerLoop
  by_cases hround : s.clock.diffTickCount = 0
  · rw [if_pos hround]
    refine ⟨_, _, rfl, rfl, q, ?_, hwheel⟩
    simp only [TickClock.next, if_pos hround]
    split <;> exact hnow
  · obtain ⟨taskList, ws, m, htick, -, hwheel'⟩ := hwheel.tick
    rw [if_neg hround, htick]
    refine ⟨_, _, rfl, rfl, _, ?_, hwheel'⟩
    simp only [TickClock.next, if_neg hround]
    exact congrArg (· + 1) hnow

theorem Turns.executeAt (h : Turns o s) {tp : ℕ} (task : α) (hcur : s.clock.currentTickCount ≤ o.targetTick tp)
    (hslots : SlotsExist o.wheelSize s.clock.currentTickCount (o.targetTick tp)) :
    ∃ s', s.executeAt o tp task = some s' ∧ s'.clock = s.clock ∧ Turns o s' := by
  obtain ⟨q, hnow, hwheel⟩ := h
  have hdiff : usub (o.targetTick tp) s.clock.currentTickCount = o.targetTick tp - s.clock.currentTickCount :=
    usub_of_le hcur (o.targetTick_lt tp)
  have hhas : (dueAt slot pos (o.targetTick tp) (fun k _ => k) 1 q.now (o.targetTick tp - s.clock.currentTickCount)
      s.clock.currentTickCount o.wheelSize).isSome = true →
      HasSlots slot (o.targetTick tp) 1 (o.targetTick tp - s.clock.currentTickCount) o.wheelSize := by
    intro hsome
    rw [isSome_dueAt_iff, ← hnow] at hsome
    have hlt := o.targetTick_lt tp
    have hall := hasSlots_slot (T := o.targetTick tp) (D := o.targetTick tp - s.clock.currentTickCount) (by omega)
      o.wheelSize 1 Nat.one_pos
    rw [Nat.div_one] at hall
    exact hall (by simpa using hslots hsome)
  obtain ⟨ws, m, hloop, hwheel'⟩ := hwheel.executeAtLoop pos ⟨o.targetTick tp, task⟩
    (o.targetTick tp - s.clock.currentTickCount) s.clock.currentTickCount hhas
  refine ⟨{ s with timingWheelVec := ws, timingTaskMap := m }, ?_, rfl, _, (withDue_now _ _ _).symm ▸ hnow, hwheel'⟩
  rw [TimeManipulatorExecutor.executeAt, if_neg (WheelOptions.not_late hcur)]
  rw [← hdiff] at hloop
  simp only [WheelOptions.targetTick] at hloop ⊢
  rw [hloop]
  rfl

theorem Turns.isSome_run_of_calls (ops : List (Op α)) : ∀ {s}, Turns o s →
    Calls o (fun cur T => cur ≤ T ∧ SlotsExist o.wheelSize cur T) s.clock ops → (run o s ops).isSome = true := by
  induction ops with
  | nil => exact fun _ _ => rfl
  | cons op ops ih =>
    intro s h hcalls
    cases op with
    | timerLoop =>
      obtain ⟨out, s', hstep, hclock, h'⟩ := h.timerLoop
      rw [Calls, ← hclock] at hcalls
      obtain ⟨r, hr⟩ := Option.isSome_iff_exists.1 (ih h' hcalls)
      simp [run, hstep, hr]
    | setTimeRatio ratio => exact ih (s := s.setTimeRatio ratio) h hcalls
    | executeAt tp task =>
      obtain ⟨⟨hcur, hslots⟩, hcalls⟩ := hcalls
      obtain ⟨s', hat, hclock, h'⟩ := h.executeAt task hcur hslots
      rw [run, hat]
      exact ih h' (hclock ▸ hcalls)

/-- **All indices of a run are in range** when the levels that its tasks come down to have slots for them. -/
theorem isSome_run (o : WheelOptions) (initRatio : TimeRatio) (ops : List (Op α))
    (h : Calls o (fun cur T => cur ≤ T ∧ SlotsExist o.wheelSize cur T)
      { ratio := initRatio, diffTickCount := 0, currentTickCount := 0 } ops) :
    (run o (init o initRatio) ops).isSome = true :=
  (turns_init o initRatio).isSome_run_of_calls ops h

/-- Two tasks come down from the map, and one stays there. -/
theorem isSome_run_wheel32 : (run wheel32 (init wheel32 ratio1)
    ([.executeAt 6 0, .executeAt 13 1] ++ List.replicate 6 .timerLoop ++ [.executeAt 10 2] ++
      List.replicate 30 .timerLoop)).isSome = true :=
  isSome_run wheel32 ratio1 _ (by decide)

/-- Scheduled at the tick `0` for `8`, a task comes down from the map to the slot `8 % 6` of a level of two slots. -/
theorem not_isSome_run :
    let ops : List (Op Unit) := .executeAt 8 () :: List.replicate 6 .timerLoop
    Calls wheel32 (· ≤ ·) { ratio := ratio1, diffTickCount := 0, currentTickCount := 0 } ops ∧
      run wheel32 (init wheel32 ratio1) ops = none :=
  ⟨by decide, rfl⟩

end TimeManipulatorExecutor

end AimRT.Executor
