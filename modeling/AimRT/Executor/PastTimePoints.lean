import AimRT.Executor.TimeManipulatorExecutor
import AimRT.Executor.TimeWheelExecutor

/-!
# Time points in the past

`ExecuteAt` subtracts the start of the executor from a time point before it compares: the difference is a `uint64_t`,
and that of a time point before the start is not negative but huge.  So such a task is not late, it is stored for a tick
that is centuries away.

A time point from the start up to `Now()` is in order: its task goes to `Execute`, or, when it is in the current tick,
to the slot that the next `Tick` takes.  Both executors behave alike here, whatever has been stored before.
-/

namespace AimRT.Executor

variable {α : Type}

/-! ### The next slot -/

/-- A task is put in the slot of the first level that the next `Tick` takes. -/
def toNextSlot (τ : TaskWithTimestamp α) : List (TimingWheelTool α) → List (TimingWheelTool α)
  | [] => []
  | w :: ws => { w with wheel := w.wheel.modify w.currentPos (· ++ [τ]) } :: ws

/-- The first level is at the slot of the tick `c`. -/
def AtTick (c : ℕ) (ws : List (TimingWheelTool α)) : Prop :=
  ∃ w rest, ws = w :: rest ∧ 2 ≤ w.wheel.length ∧ w.currentPos = c % w.wheel.length

theorem atTick_initLevels {sizes : List ℕ} (hne : sizes ≠ []) (hsizes : ∀ n ∈ sizes, 2 ≤ n) :
    AtTick 0 (initLevels (α := α) 0 1 sizes) := by
  obtain ⟨size, rest, rfl⟩ := List.exists_cons_of_ne_nil hne
  refine ⟨_, _, rfl, ?_, ?_⟩
  · rw [List.length_replicate]
    exact hsizes size List.mem_cons_self
  · rw [if_pos rfl, Nat.zero_mod]

theorem emplaceBack_keeps {w w' : TimingWheelTool α} {i : ℕ} {τ : TaskWithTimestamp α}
    (h : w.emplaceBack i τ = some w') : w'.wheel.length = w.wheel.length ∧ w'.currentPos = w.currentPos := by
  unfold TimingWheelTool.emplaceBack at h
  split_ifs at h
  obtain rfl := Option.some.inj h
  exact ⟨List.length_modify .., rfl⟩

theorem respread_keeps {slot : ℕ → ℕ → ℕ → Option ℕ} {ts : TaskList α} {w w' : TimingWheelTool α}
    (h : respread slot w ts = some w') : w'.wheel.length = w.wheel.length ∧ w'.currentPos = w.currentPos := by
  induction ts generalizing w with
  | nil =>
    obtain rfl := Option.some.inj h
    exact ⟨rfl, rfl⟩
  | cons τ ts ih =>
    simp only [respread, Option.bind_eq_bind, Option.bind_eq_some_iff] at h
    obtain ⟨i, -, w₁, hw₁, hrest⟩ := h
    obtain ⟨hlen, hpos⟩ := emplaceBack_keeps hw₁
    obtain ⟨hlen', hpos'⟩ := ih hrest
    exact ⟨hlen'.trans hlen, hpos'.trans hpos⟩

/-- A tick goes on to the next slot, whatever comes down to the level. -/
theorem AtTick.tick {slot : ℕ → ℕ → ℕ → Option ℕ} {c : ℕ} {ws ws' : List (TimingWheelTool α)}
    {m m' : TimingTaskMap α} {out : TaskList α} (h : AtTick c ws) (htick : tick slot ws m = some (out, ws', m')) :
    AtTick (c + 1) ws' := by
  obtain ⟨w, rest, rfl, hlen, hpos⟩ := h
  simp only [Executor.tick, Option.bind_eq_bind, Option.bind_eq_some_iff, List.length_set] at htick
  obtain ⟨ts, -, htick⟩ := htick
  split_ifs at htick with hwrap
  · obtain ⟨⟨borrowed, ws₁, m₁⟩, -, htick⟩ := Option.bind_eq_some_iff.1 htick
    obtain ⟨w₁, hw₁, htick⟩ := Option.bind_eq_some_iff.1 htick
    obtain ⟨-, rfl, -⟩ : _ ∧ w₁ :: ws₁ = ws' ∧ _ := by simpa using htick
    obtain ⟨hlen₁, hpos₁⟩ := respread_keeps hw₁
    rw [List.length_set] at hlen₁
    refine ⟨w₁, ws₁, rfl, hlen₁ ▸ hlen, ?_⟩
    rw [hpos₁, hlen₁, (succ_div_mod_of_wrap (hpos ▸ hwrap)).2]
  · obtain ⟨-, rfl, -⟩ : _ ∧ _ :: rest = ws' ∧ _ := by simpa using htick
    have hlt : c % w.wheel.length < w.wheel.length := Nat.mod_lt _ (by omega)
    refine ⟨_, rest, rfl, by simpa using hlen, ?_⟩
    simp only [List.length_set]
    rw [(succ_div_mod_of_lt (by omega)).2, hpos]

theorem AtTick.executeAtLoop {pos : ℕ → ℕ → ℕ} {τ : TaskWithTimestamp α} {c diff x : ℕ}
    {ws ws' : List (TimingWheelTool α)} {m m' : TimingTaskMap α} (h : AtTick c ws)
    (hloop : executeAtLoop pos τ diff x ws m = some (ws', m')) : AtTick c ws' := by
  obtain ⟨w, rest, rfl, hlen, hpos⟩ := h
  simp only [Executor.executeAtLoop, Option.bind_eq_bind] at hloop
  split_ifs at hloop
  · obtain ⟨i, -, hloop⟩ := Option.bind_eq_some_iff.1 hloop
    obtain ⟨w₁, hw₁, hloop⟩ := Option.bind_eq_some_iff.1 hloop
    obtain ⟨rfl, -⟩ : w₁ :: rest = ws' ∧ _ := by simpa using hloop
    obtain ⟨hlen₁, hpos₁⟩ := emplaceBack_keeps hw₁
    exact ⟨w₁, rest, rfl, hlen₁ ▸ hlen, by rw [hpos₁, hlen₁, hpos]⟩
  · obtain ⟨⟨ws₁, m₁⟩, -, hloop⟩ := Option.bind_eq_some_iff.1 hloop
    obtain ⟨rfl, -⟩ : w :: ws₁ = ws' ∧ _ := by simpa using hloop
    exact ⟨w, ws₁, rfl, hlen, hpos⟩

/-- Where a task is put tells the slots apart. -/
theorem modify_append_inj {β : Type} {l : List (List β)} {b : β} {i j : ℕ} (hj : j < l.length)
    (h : l.modify i (· ++ [b]) = l.modify j (· ++ [b])) : i = j := by
  by_contra hne
  have hget := congrArg (·[j]?) h
  simp [hne, List.getElem?_eq_getElem hj] at hget

/-- The loop of `ExecuteAt` reaches the next slot at the level and the slot of the current tick. -/
theorem executeAtLoop_toNextSlot_iff {pos : ℕ → ℕ → ℕ} {τ : TaskWithTimestamp α} {diff x : ℕ} {w : TimingWheelTool α}
    {rest : List (TimingWheelTool α)} {m : TimingTaskMap α} (hpos : w.currentPos < w.wheel.length) :
    executeAtLoop pos τ diff x (w :: rest) m = some (toNextSlot τ (w :: rest), m) ↔
      diff < w.wheel.length ∧ pos diff x % w.wheel.length = w.currentPos := by
  have hmod : pos diff x % w.wheel.length < w.wheel.length := Nat.mod_lt _ (by omega)
  by_cases hdiff : diff < w.wheel.length
  · have hloop : executeAtLoop pos τ diff x (w :: rest) m =
        some ({ w with wheel := w.wheel.modify (pos diff x % w.wheel.length) (· ++ [τ]) } :: rest, m) := by
      rw [executeAtLoop, if_pos hdiff, umod, if_neg (by omega), Option.bind_eq_bind, Option.bind_some,
        TimingWheelTool.emplaceBack, if_pos hmod]
      rfl
    rw [hloop, toNextSlot, and_iff_right hdiff]
    constructor
    · intro h
      have hwheel : w.wheel.modify (pos diff x % w.wheel.length) (· ++ [τ]) =
          w.wheel.modify w.currentPos (· ++ [τ]) := by
        simpa using h
      exact modify_append_inj hpos hwheel
    · intro h
      rw [h]
  · refine iff_of_false (fun h => ?_) fun h => hdiff h.1
    -- the first level is left as it is
    simp only [executeAtLoop, if_neg hdiff, Option.bind_eq_bind] at h
    obtain ⟨⟨ws, m'⟩, -, hloop⟩ := Option.bind_eq_some_iff.1 h
    have hwheel : w = { w with wheel := w.wheel.modify w.currentPos (· ++ [τ]) } := by
      have hhead := congrArg (fun r => (r.map fun p => p.1.head?).join) hloop
      simpa [toNextSlot] using hhead
    have hget := congrArg (fun v => v.wheel[w.currentPos]?) hwheel
    simp [List.getElem?_eq_getElem hpos] at hget

/-- A task is put in the next slot exactly when its tick is the current one. -/
theorem AtTick.toNextSlot_iff {pos : ℕ → ℕ → ℕ} {τ : TaskWithTimestamp α} {c T x : ℕ} {ws : List (TimingWheelTool α)}
    {m : TimingTaskMap α} (h : AtTick c ws) (hle : c ≤ T) (hT : pos (T - c) x = T) :
    Executor.executeAtLoop pos τ (T - c) x ws m = some (toNextSlot τ ws, m) ↔ T = c := by
  obtain ⟨w, rest, rfl, hlen, hpos⟩ := h
  rw [executeAtLoop_toNextSlot_iff (hpos ▸ Nat.mod_lt _ (by omega)), hT, hpos]
  constructor
  · rintro ⟨hdiff, hmod⟩
    exact eq_of_mod_eq hle (by omega) hmod
  · rintro rfl
    exact ⟨by omega, rfl⟩

/-! ### The clock -/

/-- `Now()` at the tick `c`. -/
def WheelOptions.now (o : WheelOptions) (c : ℕ) : BitVec 64 := BitVec.ofNat 64 (c * o.dtCount + o.startTimePoint)

/-- A time point is not in the future at the tick `c`, which ends in the range of the clock. -/
structure Past (o : WheelOptions) (c : ℕ) (tp : BitVec 64) : Prop where
  past : tp.toInt ≤ (o.now c).toInt
  range : o.startTimePoint + (c + 1) * o.dtCount ≤ 2 ^ 63

variable {o : WheelOptions} {c : ℕ} {tp : BitVec 64}

/-- Only from the start on is the difference the time since the start. -/
theorem Past.usub_lt_iff (h : Past o c tp) :
    usub tp.toNat o.startTimePoint < (c + 1) * o.dtCount ↔ o.startTimePoint ≤ tp.toInt := by
  obtain ⟨hpast, hrange⟩ := h
  have hdt := o.dtCount_pos
  rw [Nat.succ_mul] at hrange ⊢
  have hnow : (o.now c).toNat = c * o.dtCount + o.startTimePoint := by
    rw [WheelOptions.now, BitVec.toNat_ofNat, Nat.mod_eq_of_lt (by omega)]
  rw [BitVec.toInt_eq_toNat_cond, BitVec.toInt_eq_toNat_cond, hnow] at hpast
  rw [BitVec.toInt_eq_toNat_cond]
  have hlt := tp.isLt
  unfold usub
  split_ifs at hpast ⊢ <;> omega

theorem targetTick_eq_iff {u : ℕ} (hle : c * o.dtCount ≤ usub u o.startTimePoint) :
    o.targetTick u = c ↔ usub u o.startTimePoint < (c + 1) * o.dtCount := by
  rw [← Nat.div_lt_iff_lt_mul o.dtCount_pos, Nat.lt_succ_iff]
  have hge : c ≤ o.targetTick u := (Nat.le_div_iff_mul_le o.dtCount_pos).2 hle
  exact ⟨fun h => h.le, fun h => h.antisymm hge⟩

/-- A call that executes the task or goes to the loop: the task is executed, or put in the next slot. -/
theorem AtTick.executed_or_toNextSlot_iff {S : Type} {executed : S}
    {stored : List (TimingWheelTool α) × TimingTaskMap α → S} (hinj : stored.Injective) (hne : ∀ r, stored r ≠ executed)
    {pos : ℕ → ℕ → ℕ} {ws : List (TimingWheelTool α)} {m : TimingTaskMap α} (h : AtTick c ws)
    (hrange : c * o.dtCount < 2 ^ 64) {u x : ℕ} {task : α}
    (hT : c ≤ o.targetTick u → pos (o.targetTick u - c) x = o.targetTick u) {result : Option S} (hresult : result =
      if usub u o.startTimePoint < c * o.dtCount % 2 ^ 64 then some executed
      else (Executor.executeAtLoop pos ⟨o.targetTick u, task⟩ (usub (o.targetTick u) c) x ws m).map stored) :
    result = some executed ∨ result = some (stored (toNextSlot ⟨o.targetTick u, task⟩ ws, m)) ↔
      usub u o.startTimePoint < (c + 1) * o.dtCount := by
  rw [Nat.mod_eq_of_lt hrange] at hresult
  by_cases hlate : usub u o.startTimePoint < c * o.dtCount
  · rw [if_pos hlate] at hresult
    exact iff_of_true (.inl hresult) (hlate.trans_le (Nat.mul_le_mul_right _ (Nat.le_succ _)))
  · have hle : c ≤ o.targetTick u := (Nat.le_div_iff_mul_le o.dtCount_pos).2 (Nat.not_lt.1 hlate)
    rw [if_neg hlate, usub_of_le hle (o.targetTick_lt u)] at hresult
    rw [hresult, ← targetTick_eq_iff (Nat.not_lt.1 hlate),
      ← h.toNextSlot_iff (τ := ⟨o.targetTick u, task⟩) (m := m) hle (hT hle)]
    constructor
    · rintro (hexecuted | hslot)
      · obtain ⟨r, -, hr⟩ := Option.map_eq_some_iff.1 hexecuted
        exact absurd hr (hne r)
      · obtain ⟨r, hloop, hr⟩ := Option.map_eq_some_iff.1 hslot
        rw [hloop, hinj hr]
    · intro hloop
      rw [hloop]
      exact .inr rfl

/-! ### The executors -/

namespace TimeWheelExecutor

/-- `ExecuteAt` hands a task to `Execute`, or puts it in the slot of the next `Tick`. -/
def AtOnce (o : WheelOptions) (s : TimeWheelExecutor α) (u : ℕ) (task : α) : Prop :=
  s.executeAt o u task = some { s with imdQueue := s.imdQueue ++ [task] } ∨
    s.executeAt o u task = some { s with timingWheelVec := toNextSlot ⟨o.targetTick u, task⟩ s.timingWheelVec }

theorem executeAt_eq (s : TimeWheelExecutor α) (u : ℕ) (task : α) : s.executeAt o u task =
    if usub u o.startTimePoint < s.currentTickCount * o.dtCount % 2 ^ 64 then
      some { s with imdQueue := s.imdQueue ++ [task] }
    else
      (executeAtLoop (fun _ x => x) ⟨o.targetTick u, task⟩ (usub (o.targetTick u) s.currentTickCount) (o.targetTick u)
        s.timingWheelVec s.timingTaskMap).map fun r => { s with timingWheelVec := r.1, timingTaskMap := r.2 } := by
  unfold TimeWheelExecutor.executeAt
  dsimp only
  split_ifs
  · rfl
  · exact (Option.map_eq_bind ..).symm

theorem atTick_of_executeAt {s s' : TimeWheelExecutor α} (h : AtTick s.currentTickCount s.timingWheelVec) {u : ℕ}
    {task : α} (hat : s.executeAt o u task = some s') : AtTick s'.currentTickCount s'.timingWheelVec := by
  rw [executeAt_eq] at hat
  split_ifs at hat
  · obtain rfl := Option.some.inj hat
    exact h
  · obtain ⟨⟨ws, m⟩, hloop, rfl⟩ := Option.map_eq_some_iff.1 hat
    exact h.executeAtLoop hloop

theorem atTick_of_advance {s s' : TimeWheelExecutor α} (h : AtTick s.currentTickCount s.timingWheelVec)
    {out : TaskList α} (hadv : s.advance = some (out, s')) : AtTick s'.currentTickCount s'.timingWheelVec := by
  obtain ⟨⟨out', ws, m⟩, htick, hadv⟩ := Option.bind_eq_some_iff.1 hadv
  obtain ⟨-, rfl⟩ := Prod.mk.inj (Option.some.inj hadv)
  exact h.tick htick

/-- Every run keeps the first level at its tick, whatever its calls store. -/
theorem atTick_of_run {ops : List (Op α)} : ∀ {s s' : TimeWheelExecutor α} {fired : List (TaskList α)},
    AtTick s.currentTickCount s.timingWheelVec → run o s ops = some (fired, s') →
      AtTick s'.currentTickCount s'.timingWheelVec := by
  induction ops with
  | nil =>
    intro s s' fired h hrun
    obtain ⟨-, rfl⟩ := Prod.mk.inj (Option.some.inj hrun)
    exact h
  | cons op ops ih =>
    intro s s' fired h hrun
    cases op with
    | advance =>
      obtain ⟨⟨out, s₁⟩, hadv, hrun⟩ := Option.bind_eq_some_iff.1 hrun
      obtain ⟨⟨fired', s₂⟩, hrest, hrun⟩ := Option.bind_eq_some_iff.1 hrun
      obtain ⟨-, rfl⟩ := Prod.mk.inj (Option.some.inj hrun)
      exact ih (atTick_of_advance h hadv) hrest
    | executeAt u task =>
      obtain ⟨s₁, hat, hrest⟩ := Option.bind_eq_some_iff.1 hrun
      exact ih (atTick_of_executeAt h hat) hrest

theorem atOnce_iff {s : TimeWheelExecutor α} (h : AtTick s.currentTickCount s.timingWheelVec)
    (hrange : s.currentTickCount * o.dtCount < 2 ^ 64) (u : ℕ) (task : α) :
    s.AtOnce o u task ↔ usub u o.startTimePoint < (s.currentTickCount + 1) * o.dtCount := by
  refine h.executed_or_toNextSlot_iff ?_ ?_ hrange (fun _ => rfl) (s.executeAt_eq u task)
  · rintro ⟨ws, m⟩ ⟨ws', m'⟩ hr
    exact Prod.ext (congrArg timingWheelVec hr) (congrArg timingTaskMap hr)
  · intro r hr
    have hqueue := congrArg imdQueue hr
    simp at hqueue

end TimeWheelExecutor

namespace TimeManipulatorExecutor

/-- `ExecuteAt` hands a task to `Execute`, or puts it in the slot of the next `Tick`. -/
def AtOnce (o : WheelOptions) (s : TimeManipulatorExecutor α) (u : ℕ) (task : α) : Prop :=
  s.executeAt o u task = some { s with executed := s.executed ++ [task] } ∨
    s.executeAt o u task = some { s with timingWheelVec := toNextSlot ⟨o.targetTick u, task⟩ s.timingWheelVec }

theorem executeAt_eq (s : TimeManipulatorExecutor α) (u : ℕ) (task : α) : s.executeAt o u task =
    if usub u o.startTimePoint < s.clock.currentTickCount * o.dtCount % 2 ^ 64 then
      some { s with executed := s.executed ++ [task] }
    else
      (executeAtLoop pos ⟨o.targetTick u, task⟩ (usub (o.targetTick u) s.clock.currentTickCount)
        s.clock.currentTickCount s.timingWheelVec s.timingTaskMap).map fun r =>
          { s with timingWheelVec := r.1, timingTaskMap := r.2 } := by
  unfold TimeManipulatorExecutor.executeAt
  dsimp only
  split_ifs
  · rfl
  · exact (Option.map_eq_bind ..).symm

theorem atTick_of_executeAt {s s' : TimeManipulatorExecutor α}
    (h : AtTick s.clock.currentTickCount s.timingWheelVec) {u : ℕ} {task : α} (hat : s.executeAt o u task = some s') :
    AtTick s'.clock.currentTickCount s'.timingWheelVec := by
  rw [executeAt_eq] at hat
  split_ifs at hat
  · obtain rfl := Option.some.inj hat
    exact h
  · obtain ⟨⟨ws, m⟩, hloop, rfl⟩ := Option.map_eq_some_iff.1 hat
    exact h.executeAtLoop hloop

theorem atTick_of_timerLoop {s s' : TimeManipulatorExecutor α}
    (h : AtTick s.clock.currentTickCount s.timingWheelVec) {out : Option (TaskList α)}
    (hloop : s.timerLoop = some (out, s')) : AtTick s'.clock.currentTickCount s'.timingWheelVec := by
  unfold TimeManipulatorExecutor.timerLoop at hloop
  by_cases hround : s.clock.diffTickCount = 0
  · rw [if_pos hround] at hloop
    obtain ⟨-, rfl⟩ := Prod.mk.inj (Option.some.inj hloop)
    have hcount : s.clock.next.currentTickCount = s.clock.currentTickCount := by
      rw [TickClock.next, if_pos hround]
      split_ifs <;> rfl
    exact hcount.symm ▸ h
  · rw [if_neg hround] at hloop
    obtain ⟨⟨out', ws, m⟩, htick, hloop⟩ := Option.bind_eq_some_iff.1 hloop
    obtain ⟨-, rfl⟩ := Prod.mk.inj (Option.some.inj hloop)
    have hcount : s.clock.next.currentTickCount = s.clock.currentTickCount + 1 := by rw [TickClock.next, if_neg hround]
    exact hcount.symm ▸ h.tick htick

/-- Every run keeps the first level at its tick, whatever its calls store. -/
theorem atTick_of_run {ops : List (Op α)} : ∀ {s s' : TimeManipulatorExecutor α} {fired : List (TaskList α)},
    AtTick s.clock.currentTickCount s.timingWheelVec → run o s ops = some (fired, s') →
      AtTick s'.clock.currentTickCount s'.timingWheelVec := by
  induction ops with
  | nil =>
    intro s s' fired h hrun
    obtain ⟨-, rfl⟩ := Prod.mk.inj (Option.some.inj hrun)
    exact h
  | cons op ops ih =>
    intro s s' fired h hrun
    cases op with
    | timerLoop =>
      obtain ⟨⟨out, s₁⟩, hloop, hrun⟩ := Option.bind_eq_some_iff.1 hrun
      obtain ⟨⟨fired', s₂⟩, hrest, hrun⟩ := Option.bind_eq_some_iff.1 hrun
      obtain ⟨-, rfl⟩ := Prod.mk.inj (Option.some.inj hrun)
      exact ih (atTick_of_timerLoop h hloop) hrest
    | setTimeRatio ratio => exact ih (s := s.setTimeRatio ratio) h hrun
    | executeAt u task =>
      obtain ⟨s₁, hat, hrest⟩ := Option.bind_eq_some_iff.1 hrun
      exact ih (atTick_of_executeAt h hat) hrest

theorem atOnce_iff {s : TimeManipulatorExecutor α} (h : AtTick s.clock.currentTickCount s.timingWheelVec)
    (hrange : s.clock.currentTickCount * o.dtCount < 2 ^ 64) (u : ℕ) (task : α) :
    s.AtOnce o u task ↔ usub u o.startTimePoint < (s.clock.currentTickCount + 1) * o.dtCount := by
  refine h.executed_or_toNextSlot_iff ?_ ?_ hrange (fun hle => Nat.sub_add_cancel hle) (s.executeAt_eq u task)
  · rintro ⟨ws, m⟩ ⟨ws', m'⟩ hr
    exact Prod.ext (congrArg timingWheelVec hr) (congrArg timingTaskMap hr)
  · intro r hr
    have hqueue := congrArg executed hr
    simp at hqueue

end TimeManipulatorExecutor

theorem Past.mul_lt (h : Past o c tp) : c * o.dtCount < 2 ^ 64 := by
  have hrange := h.range
  rw [Nat.succ_mul] at hrange
  omega

/-- **A time point that is not in the future runs at once** if and only if it is not before the start, in both executors
and after every run. -/
theorem past_runs_at_once_iff (o : WheelOptions) (tp : BitVec 64) (task : α) :
    (∀ {ops : List (TimeWheelExecutor.Op α)} {fired s}, TimeWheelExecutor.run o (.init o) ops = some (fired, s) →
        Past o s.currentTickCount tp → (s.AtOnce o tp.toNat task ↔ o.startTimePoint ≤ tp.toInt)) ∧
      ∀ {initRatio : TimeRatio} {ops : List (TimeManipulatorExecutor.Op α)} {fired s},
        TimeManipulatorExecutor.run o (.init o initRatio) ops = some (fired, s) →
        Past o s.clock.currentTickCount tp → (s.AtOnce o tp.toNat task ↔ o.startTimePoint ≤ tp.toInt) := by
  have hinit : AtTick 0 (initLevels (α := α) 0 1 o.wheelSize) := atTick_initLevels o.wheelSize_ne o.two_le
  constructor
  · intro ops fired s hrun hpast
    rw [TimeWheelExecutor.atOnce_iff (TimeWheelExecutor.atTick_of_run hinit hrun) hpast.mul_lt]
    exact hpast.usub_lt_iff
  · intro initRatio ops fired s hrun hpast
    rw [TimeManipulatorExecutor.atOnce_iff (TimeManipulatorExecutor.atTick_of_run hinit hrun) hpast.mul_lt]
    exact hpast.usub_lt_iff

/-- The same wheel, with a clock that starts at five. -/
def wheelFrom5 : WheelOptions := { wheel32 with startTimePoint := 5 }

/-- At the first tick the start itself is the present, and its task is put in the next slot. -/
theorem start_runs_at_once : (TimeWheelExecutor.init wheelFrom5).AtOnce wheelFrom5 5 () ∧
    (TimeManipulatorExecutor.init wheelFrom5 TimeManipulatorExecutor.ratio1).AtOnce wheelFrom5 5 () := by
  have hpast : Past wheelFrom5 0 5 := ⟨by decide, by decide⟩
  obtain ⟨hwheel, hmanipulator⟩ := past_runs_at_once_iff wheelFrom5 5 ()
  constructor
  · exact (@hwheel [] [] _ rfl hpast).2 (by decide)
  · exact (@hmanipulator TimeManipulatorExecutor.ratio1 [] [] _ rfl hpast).2 (by decide)

/-- The epoch is in the past, and its task is stored, for a tick almost `2 ^ 64` nanoseconds ahead. -/
theorem epoch_is_stored :
    (¬ ∀ (o : WheelOptions) (tp : BitVec 64) (task : Unit) (ops : List (TimeWheelExecutor.Op Unit)) (fired s),
      TimeWheelExecutor.run o (.init o) ops = some (fired, s) → tp.toInt ≤ (o.now s.currentTickCount).toInt →
        s.AtOnce o tp.toNat task) ∧
      ¬ ∀ (o : WheelOptions) (tp : BitVec 64) (task : Unit) (initRatio : TimeRatio)
        (ops : List (TimeManipulatorExecutor.Op Unit)) (fired s),
        TimeManipulatorExecutor.run o (.init o initRatio) ops = some (fired, s) →
        tp.toInt ≤ (o.now s.clock.currentTickCount).toInt → s.AtOnce o tp.toNat task := by
  have hinit : AtTick 0 (initLevels (α := Unit) 0 1 wheelFrom5.wheelSize) :=
    atTick_initLevels wheelFrom5.wheelSize_ne wheelFrom5.two_le
  constructor
  · intro h
    have hat := h wheelFrom5 0 () [] _ _ rfl (by decide)
    rw [TimeWheelExecutor.atOnce_iff hinit (by decide)] at hat
    exact absurd hat (by decide)
  · intro h
    have hat := h wheelFrom5 0 () TimeManipulatorExecutor.ratio1 [] _ _ rfl (by decide)
    rw [TimeManipulatorExecutor.atOnce_iff hinit (by decide)] at hat
    exact absurd hat (by decide)

end AimRT.Executor
