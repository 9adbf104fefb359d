import AimRT.Executor.Timer

/-!
# The timer and its executor

A timer with the closures that are with its executor: `Reset` and `ExecuteLoop` schedule one, the executor runs each
once, and the task that it runs may reset or cancel the timer as well.  What is done inside the task is followed by the
rest of the closure.

A closure that is not for `next_call_time_` any more does nothing, and as that time does not go back, at most one of
those scheduled runs the task.  Behind a `Reset` it is the one a period later, but for a `Reset` inside the task: the
closure then moves its time on once more.
-/

namespace AimRT.Executor

open Lib.Run

/-- A closure of `ExecuteLoop` that waits for its `planned_time`, with a number to tell it from the others. -/
structure Closure where
  id : ℕ
  plannedTime : ℤ
  deriving DecidableEq, Repr

/-- An execution of the task: the closure it was in, its time, and that of the last `Reset` if the timer was not
executed or cancelled since then. -/
structure Execution where
  id : ℕ
  time : ℤ
  resetAt : Option ℤ
  deriving DecidableEq, Repr

/-- The timer, the clock of its executor and the closures that are with it. -/
structure TimerCycle where
  timer : Timer
  now : ℤ
  pending : List Closure
  nextId : ℕ
  resetAt : Option ℤ
  executed : List Execution
  deriving DecidableEq, Repr

namespace TimerCycle

/-- `CreateTimer` without `auto_start`. -/
def create (period now : ℤ) : TimerCycle := ⟨.create period, now, [], 0, none, []⟩

/-- `ExecuteLoop`. -/
def executeLoop (s : TimerCycle) : TimerCycle :=
  { s with pending := s.pending ++ [⟨s.nextId, s.timer.nextCallTime⟩], nextId := s.nextId + 1 }

/-- What can happen outside of the task and inside it. -/
inductive Act where
  | reset
  | cancel
  | elapse (d : ℕ)
  deriving DecidableEq, Repr

def act (s : TimerCycle) : Act → TimerCycle
  | .reset => executeLoop { s with timer := s.timer.reset s.now, resetAt := some s.now }
  | .cancel => { s with timer := s.timer.cancel, resetAt := none }
  | .elapse d => { s with now := s.now + d }

/-- The closure, with what happens `inside` of its task. -/
def closure (s : TimerCycle) (c : Closure) (inside : List Act) : TimerCycle :=
  if s.timer.runsTask c.plannedTime then
    let s := inside.foldl act { s with executed := s.executed ++ [⟨c.id, s.now, s.resetAt⟩], resetAt := none }
    executeLoop { s with timer := s.timer.advance s.now }
  else s

inductive Op where
  | act (a : Act)
  | run (i : ℕ) (inside : List Act)
  deriving DecidableEq, Repr

def step (s : TimerCycle) : Op → TimerCycle
  | .act a => s.act a
  | .run i inside =>
    match s.pending[i]? with
    | none => s
    | some c => closure { s with pending := s.pending.eraseIdx i } c inside

/-- The executor runs a closure at its time: none is early, and no time passes for as long as one is due. -/
def OnTime (s : TimerCycle) : Op → Prop
  | .act (.elapse d) => ∀ c ∈ s.pending, s.now + d ≤ c.plannedTime
  | .act _ => True
  | .run i _ => ∀ c ∈ s.pending[i]?, c.plannedTime ≤ s.now

/-- `Reset` is not called inside the task. -/
def NoResetInside : Op → Prop
  | .act _ => True
  | .run _ inside => Act.reset ∉ inside

instance (s : TimerCycle) (op : Op) : Decidable (s.OnTime op) :=
  match op with
  | .act (.elapse _) | .run _ _ => inferInstanceAs (Decidable (∀ c ∈ _, _))
  | .act .reset | .act .cancel => isTrue trivial

instance (op : Op) : Decidable (NoResetInside op) :=
  match op with
  | .act _ => isTrue trivial
  | .run _ inside => inferInstanceAs (Decidable (Act.reset ∉ inside))

/-- The executions in closures that are with the executor in `s`. -/
def executedOf (s s' : TimerCycle) : List Execution :=
  s'.executed.filter fun e => e.id ∈ s.pending.map Closure.id

/-- What a reset promises, where `Fine` are the steps that can come: at most one of the closures that are with the
executor executes the task, behind a `Reset` at `t` those and only those that wait for a period later do, of which there
is one, and the next execution was at that time. -/
structure Restarted (Fine : TimerCycle → Op → Prop) (s : TimerCycle) : Prop where
  one_live : ∀ ops, AllMeet step Fine s ops → (executedOf s (ops.foldl step s)).length ≤ 1
  waiting : ∀ t ∈ s.resetAt, (∃ c ∈ s.pending, c.plannedTime = t + s.timer.period) ∧
    ∀ c ∈ s.pending, s.timer.runsTask c.plannedTime = true ↔ c.plannedTime = t + s.timer.period
  executed_at : ∀ e ∈ s.executed, ∀ t ∈ e.resetAt, e.time = t + s.timer.period

variable {s : TimerCycle}

/-! ### One step -/

/-- Inside the task, without a `Reset`: time has passed, and the timer may be cancelled. -/
theorem exists_inside {inside : List Act} (hinside : Act.reset ∉ inside) (hreset : s.resetAt = none) :
    ∃ (d : ℕ) (cancelled : Bool), inside.foldl act s =
      { s with now := s.now + d, timer := { s.timer with cancelled := cancelled } } := by
  induction inside generalizing s with
  | nil => exact ⟨0, s.timer.cancelled, by simp⟩
  | cons a inside ih =>
    have hrest : Act.reset ∉ inside := fun h => hinside (List.mem_cons_of_mem _ h)
    cases a with
    | reset => exact absurd List.mem_cons_self hinside
    | cancel =>
      obtain ⟨d, cancelled, h⟩ := ih (s := s.act .cancel) hrest rfl
      refine ⟨d, cancelled, h.trans ?_⟩
      simp [act, Timer.cancel, hreset]
    | elapse d =>
      obtain ⟨d', cancelled, h⟩ := ih (s := s.act (.elapse d)) hrest hreset
      refine ⟨d + d', cancelled, h.trans ?_⟩
      simp [act, add_assoc]

/-- What is left when the closure `c` in place `i` has executed the task and has done so until `now`. -/
def executedUntil (s : TimerCycle) (i : ℕ) (c : Closure) (now : ℤ) (cancelled : Bool) : TimerCycle :=
  let nextCallTime := (s.timer.advance now).nextCallTime
  { timer := ⟨s.timer.period, nextCallTime, cancelled⟩
    now := now
    pending := s.pending.eraseIdx i ++ [⟨s.nextId, nextCallTime⟩]
    nextId := s.nextId + 1
    resetAt := none
    executed := s.executed ++ [⟨c.id, s.now, s.resetAt⟩] }

/-- A closure that is not the one for `next_call_time_` is gone, the one that is executes the task. -/
theorem run_cases {i : ℕ} {inside : List Act} {c : Closure} (hc : s.pending[i]? = some c)
    (hinside : Act.reset ∉ inside) :
    (s.timer.runsTask c.plannedTime = false ∧ s.step (.run i inside) = { s with pending := s.pending.eraseIdx i }) ∨
      s.timer.runsTask c.plannedTime = true ∧ ∃ (d : ℕ) (cancelled : Bool),
        s.step (.run i inside) = s.executedUntil i c (s.now + d) cancelled := by
  cases hruns : s.timer.runsTask c.plannedTime with
  | false => exact .inl ⟨rfl, by simp [step, hc, closure, hruns]⟩
  | true =>
    refine .inr ⟨rfl, ?_⟩
    obtain ⟨d, cancelled, h⟩ := exists_inside (s := { s with
      pending := s.pending.eraseIdx i
      executed := s.executed ++ [⟨c.id, s.now, s.resetAt⟩]
      resetAt := none }) hinside rfl
    refine ⟨d, cancelled, ?_⟩
    simp only [step, hc, closure, hruns, if_true, h, executeLoop, executedUntil]
    simp only [Timer.advance]
    split_ifs <;> rfl

/-! ### The invariant -/

/-- No closure waits for a time behind `next_call_time_`, which is not further ahead than a period; a timer that is not
cancelled has a closure for it. -/
structure Inv (s : TimerCycle) : Prop where
  period_pos : 0 < s.timer.period
  le_next : ∀ c ∈ s.pending, c.plannedTime ≤ s.timer.nextCallTime
  next_le : s.pending ≠ [] → s.timer.nextCallTime ≤ s.now + s.timer.period
  live : s.timer.cancelled = false → ∃ c ∈ s.pending, c.plannedTime = s.timer.nextCallTime
  id_lt : ∀ c ∈ s.pending, c.id < s.nextId
  id_ne : s.pending.Pairwise fun c c' => c.id ≠ c'.id
  executed_ne : ∀ e ∈ s.executed, ∀ c ∈ s.pending, e.id ≠ c.id
  executed_lt : ∀ e ∈ s.executed, e.id < s.nextId
  waiting : ∀ t ∈ s.resetAt, s.timer.cancelled = false ∧ s.timer.nextCallTime = t + s.timer.period ∧
    s.now ≤ t + s.timer.period
  executed_at : ∀ e ∈ s.executed, ∀ t ∈ e.resetAt, e.time = t + s.timer.period

theorem inv_create {period now : ℤ} (hperiod : 0 < period) : (create period now).Inv where
  period_pos := hperiod
  le_next := by simp [create]
  next_le := by simp [create]
  live := by simp [create, Timer.create]
  id_lt := by simp [create]
  id_ne := by simp [create]
  executed_ne := by simp [create]
  executed_lt := by simp [create]
  waiting := by simp [create]
  executed_at := by simp [create]

theorem pairwise_append_new {pending : List Closure} {id : ℕ} {plannedTime : ℤ}
    (hne : pending.Pairwise fun c c' => c.id ≠ c'.id) (hlt : ∀ c ∈ pending, c.id < id) :
    (pending ++ [Closure.mk id plannedTime]).Pairwise fun c c' => c.id ≠ c'.id := by
  refine List.pairwise_append.2 ⟨hne, List.pairwise_singleton _ _, fun c hc c' hc' => ?_⟩
  rw [List.mem_singleton.1 hc']
  exact (hlt c hc).ne

theorem Inv.reset (h : s.Inv) : (s.act .reset).Inv where
  period_pos := h.period_pos
  le_next c hc := by
    rcases List.mem_append.1 hc with hc | hc
    · exact (h.le_next c hc).trans (h.next_le (List.ne_nil_of_mem hc))
    · rw [List.mem_singleton.1 hc]
      exact le_rfl
  next_le _ := le_rfl
  live _ := ⟨_, List.mem_append_right _ (List.mem_singleton_self _), rfl⟩
  id_lt c hc := by
    rcases List.mem_append.1 hc with hc | hc
    · exact Nat.lt_succ_of_lt (h.id_lt c hc)
    · rw [List.mem_singleton.1 hc]
      exact Nat.lt_succ_self _
  id_ne := pairwise_append_new h.id_ne h.id_lt
  executed_ne e he c hc := by
    rcases List.mem_append.1 hc with hc | hc
    · exact h.executed_ne e he c hc
    · rw [List.mem_singleton.1 hc]
      exact (h.executed_lt e he).ne
  executed_lt e he := Nat.lt_succ_of_lt (h.executed_lt e he)
  waiting t ht := by
    obtain rfl : s.now = t := Option.some.inj ht
    exact ⟨rfl, rfl, le_add_of_nonneg_right h.period_pos.le⟩
  executed_at := h.executed_at

theorem Inv.cancel (h : s.Inv) : (s.act .cancel).Inv :=
  { h with
    live := fun hlive => absurd hlive (by simp [act, Timer.cancel])
    waiting := fun t ht => absurd ht (by simp [act]) }

theorem Inv.elapse (h : s.Inv) {d : ℕ} (honTime : s.OnTime (.act (.elapse d))) : (s.act (.elapse d)).Inv :=
  { h with
    next_le := fun hne => by
      have := h.next_le hne
      simp only [act]
      omega
    waiting := fun t ht => by
      obtain ⟨hlive, hnext, -⟩ := h.waiting t ht
      -- the closure that is waited for does not let more time pass
      obtain ⟨c, hc, hplanned⟩ := h.live hlive
      have hd : s.now + d ≤ c.plannedTime := honTime c hc
      exact ⟨hlive, hnext, by simp only [act]; omega⟩ }

theorem mem_eraseIdx_of_ne {i : ℕ} {c c' : Closure} (hc : s.pending[i]? = some c) (hc' : c' ∈ s.pending)
    (hne : c' ≠ c) : c' ∈ s.pending.eraseIdx i := by
  obtain ⟨j, hj⟩ := List.mem_iff_getElem?.1 hc'
  refine List.mem_eraseIdx_iff_getElem?.2 ⟨j, ?_, hj⟩
  rintro rfl
  exact hne (Option.some.inj (hj.symm.trans hc))

theorem Inv.stale (h : s.Inv) {i : ℕ} {c : Closure} (hc : s.pending[i]? = some c)
    (hstale : s.timer.runsTask c.plannedTime = false) : Inv { s with pending := s.pending.eraseIdx i } :=
  { h with
    le_next := fun c' hc' => h.le_next c' (List.mem_of_mem_eraseIdx hc')
    next_le := fun hne => h.next_le fun hnil => hne (by simp [hnil])
    live := fun hlive => by
      obtain ⟨c', hc', hplanned⟩ := h.live hlive
      refine ⟨c', mem_eraseIdx_of_ne hc hc' ?_, hplanned⟩
      rintro rfl
      exact absurd (Timer.runsTask_iff.2 ⟨hlive, hplanned⟩) (by simp [hstale])
    id_lt := fun c' hc' => h.id_lt c' (List.mem_of_mem_eraseIdx hc')
    id_ne := h.id_ne.sublist (List.eraseIdx_sublist ..)
    executed_ne := fun e he c' hc' => h.executed_ne e he c' (List.mem_of_mem_eraseIdx hc') }

/-- The closure that executes the task is the one for `next_call_time_`, and it is not early. -/
theorem due_of_onTime {i : ℕ} {c : Closure} (hc : s.pending[i]? = some c) {inside : List Act}
    (hruns : s.timer.runsTask c.plannedTime = true) (honTime : s.OnTime (.run i inside)) :
    s.timer.nextCallTime ≤ s.now := by
  rw [← (Timer.runsTask_iff.1 hruns).2]
  exact honTime c hc

theorem Inv.id_ne_of_mem_eraseIdx (h : s.Inv) {i : ℕ} {c c' : Closure} (hc : s.pending[i]? = some c)
    (hc' : c' ∈ s.pending.eraseIdx i) : c.id ≠ c'.id := by
  obtain ⟨j, hne, hj⟩ := List.mem_eraseIdx_iff_getElem?.1 hc'
  obtain ⟨hi, rfl⟩ := List.getElem?_eq_some_iff.1 hc
  obtain ⟨hj', rfl⟩ := List.getElem?_eq_some_iff.1 hj
  rcases lt_or_gt_of_ne hne with hlt | hlt
  · exact (List.pairwise_iff_getElem.1 h.id_ne j i hj' hi hlt).symm
  · exact List.pairwise_iff_getElem.1 h.id_ne i j hi hj' hlt

theorem Inv.executed (h : s.Inv) {i : ℕ} {c : Closure} (hc : s.pending[i]? = some c)
    (hdue : s.timer.nextCallTime ≤ s.now) (d : ℕ) (cancelled : Bool) :
    (s.executedUntil i c (s.now + d) cancelled).Inv where
  period_pos := h.period_pos
  le_next c' hc' := by
    rcases List.mem_append.1 hc' with hc' | hc'
    · exact (h.le_next c' (List.mem_of_mem_eraseIdx hc')).trans (Timer.lt_advance h.period_pos).le
    · rw [List.mem_singleton.1 hc']
      exact le_rfl
  next_le _ := Timer.advance_le h.period_pos (by omega)
  live _ := ⟨_, List.mem_append_right _ (List.mem_singleton_self _), rfl⟩
  id_lt c' hc' := by
    rcases List.mem_append.1 hc' with hc' | hc'
    · exact Nat.lt_succ_of_lt (h.id_lt c' (List.mem_of_mem_eraseIdx hc'))
    · rw [List.mem_singleton.1 hc']
      exact Nat.lt_succ_self _
  id_ne := pairwise_append_new (h.id_ne.sublist (List.eraseIdx_sublist ..))
    fun c' hc' => h.id_lt c' (List.mem_of_mem_eraseIdx hc')
  executed_ne e he c' hc' := by
    rcases List.mem_append.1 he with he | he <;> rcases List.mem_append.1 hc' with hc' | hc'
    · exact h.executed_ne e he c' (List.mem_of_mem_eraseIdx hc')
    · rw [List.mem_singleton.1 hc']
      exact (h.executed_lt e he).ne
    · rw [List.mem_singleton.1 he]
      exact h.id_ne_of_mem_eraseIdx hc hc'
    · rw [List.mem_singleton.1 he, List.mem_singleton.1 hc']
      exact (h.id_lt c (List.mem_of_getElem? hc)).ne
  executed_lt e he := by
    rcases List.mem_append.1 he with he | he
    · exact Nat.lt_succ_of_lt (h.executed_lt e he)
    · rw [List.mem_singleton.1 he]
      exact Nat.lt_succ_of_lt (h.id_lt c (List.mem_of_getElem? hc))
  waiting t ht := absurd ht (by simp [executedUntil])
  executed_at e he t ht := by
    rcases List.mem_append.1 he with he | he
    · exact h.executed_at e he t ht
    · rw [List.mem_singleton.1 he] at ht ⊢
      obtain ⟨-, hnext, hnow⟩ := h.waiting t ht
      -- it was waited for until then, and it is due
      exact le_antisymm hnow (hnext ▸ hdue)

/-- The steps that come: on time, and without a `Reset` inside the task. -/
def Fine (s : TimerCycle) (op : Op) : Prop := s.OnTime op ∧ NoResetInside op

theorem Inv.step (h : s.Inv) {op : Op} (hfine : s.Fine op) : (s.step op).Inv := by
  obtain ⟨honTime, hinside⟩ := hfine
  match op with
  | .act .reset => exact h.reset
  | .act .cancel => exact h.cancel
  | .act (.elapse d) => exact h.elapse honTime
  | .run i inside =>
    cases hc : s.pending[i]? with
    | none => simpa [TimerCycle.step, hc] using h
    | some c =>
      rcases run_cases hc hinside with ⟨hstale, hstep⟩ | ⟨hruns, d, cancelled, hstep⟩ <;> rw [hstep]
      · exact h.stale hc hstale
      · exact h.executed hc (due_of_onTime hc hruns honTime) d cancelled

/-! ### One chain -/

/-- None of the closures that were with the executor in `s₀` has executed the task in between, or one has and those left
wait for a time that is gone. -/
structure Once (s₀ s : TimerCycle) : Prop where
  old : ∀ c ∈ s₀.pending, c.id < s.nextId
  once : executedOf s₀ s = [] ∨ (executedOf s₀ s).length = 1 ∧
    ∀ c ∈ s.pending, c.id ∈ s₀.pending.map Closure.id → c.plannedTime < s.timer.nextCallTime

variable {s₀ : TimerCycle}

theorem Inv.once_self (h : s.Inv) : Once s s where
  old := h.id_lt
  once := .inl (List.filter_eq_nil_iff.2 fun e he hmem => by
    obtain ⟨c, hc, hid⟩ := List.mem_map.1 (of_decide_eq_true hmem)
    exact h.executed_ne e he c hc hid.symm)

theorem Once.length_le (h : Once s₀ s) : (executedOf s₀ s).length ≤ 1 := by
  rcases h.once with hnone | ⟨hone, -⟩
  · simp [hnone]
  · exact hone.le

theorem Once.new_notMem (h : Once s₀ s) : s.nextId ∉ s₀.pending.map Closure.id := by
  intro hmem
  obtain ⟨c, hc, hid⟩ := List.mem_map.1 hmem
  exact (h.old c hc).ne hid

theorem Once.reset (hinv : s.Inv) (h : Once s₀ s) : Once s₀ (s.act .reset) where
  old c hc := Nat.lt_succ_of_lt (h.old c hc)
  once := h.once.imp id fun ⟨hone, hgone⟩ => ⟨hone, fun c hc hold => by
    rcases List.mem_append.1 hc with hc | hc
    · exact (hgone c hc hold).trans_le (hinv.next_le (List.ne_nil_of_mem hc))
    · rw [List.mem_singleton.1 hc] at hold
      exact absurd hold h.new_notMem⟩

theorem Once.executed (hinv : s.Inv) (h : Once s₀ s) {i : ℕ} {c : Closure} (hc : s.pending[i]? = some c)
    (hruns : s.timer.runsTask c.plannedTime = true) (now : ℤ) (cancelled : Bool) :
    Once s₀ (s.executedUntil i c now cancelled) where
  old c' hc' := Nat.lt_succ_of_lt (h.old c' hc')
  once := by
    have hgone : ∀ c' ∈ (s.executedUntil i c now cancelled).pending, c'.id ∈ s₀.pending.map Closure.id →
        c'.plannedTime < (s.timer.advance now).nextCallTime := fun c' hc' hold => by
      rcases List.mem_append.1 hc' with hc' | hc'
      · exact (hinv.le_next c' (List.mem_of_mem_eraseIdx hc')).trans_lt (Timer.lt_advance hinv.period_pos)
      · rw [List.mem_singleton.1 hc'] at hold
        exact absurd hold h.new_notMem
    have happend : executedOf s₀ (s.executedUntil i c now cancelled) = executedOf s₀ s ++
        if c.id ∈ s₀.pending.map Closure.id then [⟨c.id, s.now, s.resetAt⟩] else [] := by
      simp only [executedOf, executedUntil, List.filter_append, List.filter_singleton, Bool.cond_decide]
    rw [happend]
    by_cases hold : c.id ∈ s₀.pending.map Closure.id
    · rcases h.once with hnone | ⟨-, hstale⟩
      · exact .inr ⟨by simp [hnone, hold], hgone⟩
      · -- one has done so before, and `c` waits for `next_call_time_`
        exact absurd (hstale c (List.mem_of_getElem? hc) hold) ((Timer.runsTask_iff.1 hruns).2 ▸ lt_irrefl _)
    · rw [if_neg hold, List.append_nil]
      exact h.once.imp_right fun ⟨hone, _⟩ => ⟨hone, hgone⟩

theorem Once.step (hinv : s.Inv) (h : Once s₀ s) {op : Op} (hinside : NoResetInside op) : Once s₀ (s.step op) := by
  match op with
  | .act .reset => exact h.reset hinv
  | .act .cancel | .act (.elapse d) => exact ⟨h.old, h.once⟩
  | .run i inside =>
    cases hc : s.pending[i]? with
    | none => simpa [TimerCycle.step, hc] using h
    | some c =>
      rcases run_cases hc hinside with ⟨-, hstep⟩ | ⟨hruns, d, cancelled, hstep⟩ <;> rw [hstep]
      · exact ⟨h.old, h.once.imp_right fun ⟨hone, hgone⟩ =>
          ⟨hone, fun c' hc' => hgone c' (List.mem_of_mem_eraseIdx hc')⟩⟩
      · exact h.executed hinv hc hruns _ cancelled

theorem Inv.restarted (h : s.Inv) : Restarted Fine s where
  one_live ops hops :=
    (allHold_of_allMeet (fun s' => s'.Inv ∧ Once s s') (fun h => h.2.length_le)
      (fun h _ hfine => ⟨h.1.step hfine, h.2.step h.1 hfine.2⟩) ⟨h, h.once_self⟩ hops).last
  waiting t ht := by
    obtain ⟨hlive, hnext, -⟩ := h.waiting t ht
    obtain ⟨c, hc, hplanned⟩ := h.live hlive
    refine ⟨⟨c, hc, hplanned.trans hnext⟩, fun c' _ => ?_⟩
    rw [Timer.runsTask_iff, hnext]
    exact and_iff_right hlive
  executed_at := h.executed_at

/-- Where the task itself does not call `Reset`, every run keeps what a reset promises. -/
theorem reset_restarts_the_cycle {period : ℤ} (hperiod : 0 < period) (now : ℤ) (ops : List Op)
    (honTime : AllMeet step OnTime (create period now) ops) (hinside : ∀ op ∈ ops, NoResetInside op) :
    AllHold step (Restarted Fine) (create period now) ops := by
  have hfine : AllMeet step Fine (create period now) ops := honTime.imp fun op hop _ h => ⟨h, hinside op hop⟩
  exact allHold_of_allMeet Inv Inv.restarted Inv.step (inv_create hperiod) hfine

/-- A reset at 5 from outside, the task executed at 15. -/
def outsideRun : List Op := [.act .reset, .act (.elapse 5), .act .reset, .act (.elapse 5), .run 0 [],
  .act (.elapse 5), .run 0 [.elapse 3]]

theorem reset_restarts_the_cycle_outside : AllHold step (Restarted Fine) (create 10 0) outsideRun :=
  reset_restarts_the_cycle (by decide) 0 outsideRun
    ⟨by decide, by decide, by decide, by decide, by decide, by decide, by decide, trivial⟩ (by decide)

/-- The task that is executed at 10 resets the timer.  The closure for 20 does nothing when it runs, and the task is
executed at 30. -/
def insideRun : List Op := [.act .reset, .act (.elapse 10), .run 0 [.reset], .act (.elapse 10), .run 0 [],
  .act (.elapse 10), .run 0 []]

theorem reset_inside_skips_a_period :
    AllMeet step OnTime (create 10 0) insideRun ∧ ¬ AllHold step (Restarted OnTime) (create 10 0) insideRun :=
  ⟨⟨by decide, by decide, by decide, by decide, by decide, by decide, by decide, trivial⟩,
    fun h => absurd (h.last.executed_at ⟨2, 30, some 10⟩ (by decide) 10 (by decide)) (by decide)⟩

end TimerCycle

end AimRT.Executor
