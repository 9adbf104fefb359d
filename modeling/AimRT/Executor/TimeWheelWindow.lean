import AimRT.Executor.TimeWheelExecutor

/-!
# Scheduling while a tick is performed

When a `Tick` of `TimerLoop` returns tasks, the mutex is released while they are performed, and `current_tick_count_`
still has the value of the tick: the wheel is one tick ahead of the clock.  `ExecuteAt`, called by one of these tasks
or by another thread, computes the distance from the clock and the slot from the target tick, so a task for the tick
that is being performed comes to the slot that was just emptied, and one for a higher level may come to a slot that
this tick has brought down (`InTimeAt` with the wheel at `t + 1`).

The calls between two rounds and the calls of the other tasks may be what they will: they have no influence on when a
task comes out.
-/

namespace AimRT.Executor

open AimRT.Lib

variable {α : Type}

namespace TimeWheelExecutor

/-- The condition on a call made when the clock shows `t` and the next slot of the first level has the number `a`. -/
def InTimeAt (sizes : List ℕ) (a t T : ℕ) : Prop :=
  let below := levelsBelow (T - t) sizes
  nextSlot a below ≤ T / below.prod ∧
    ∀ i (hi : i < below.length), T % below[i] = T / (below.take i).prod % below[i]

instance (sizes : List ℕ) (a t T : ℕ) : Decidable (InTimeAt sizes a t T) := inferInstanceAs (Decidable (_ ∧ _))

/-- Between two rounds the wheel is where the clock is. -/
example (sizes : List ℕ) (t T : ℕ) : InTimeAt sizes t t T ↔ InTime sizes t T := Iff.rfl

/-! ### When a task comes out at its tick -/

theorem mul_add_eq_iff {n r k K : ℕ} (hr : r < n) : k * n + r = K ↔ k = K / n ∧ r = K % n := by
  constructor
  · rintro rfl
    rw [Nat.mul_comm, Nat.mul_add_div (by omega), Nat.mul_add_mod, Nat.div_eq_of_lt hr, Nat.mod_eq_of_lt hr]
    exact ⟨(Nat.add_zero k).symm, rfl⟩
  · rintro ⟨rfl, rfl⟩
    rw [Nat.mul_comm]
    exact Nat.div_add_mod K n

/-- The remainders of `T` by the sizes are its digits, from the weight `P` on. -/
def DigitsAgree (T : ℕ) : (P : ℕ) → List ℕ → Prop
  | _, [] => True
  | P, n :: ns => T % n = T / P % n ∧ DigitsAgree T (P * n) ns

theorem digitsAgree_cons {T P n : ℕ} {ns : List ℕ} :
    DigitsAgree T P (n :: ns) ↔ T % n = T / P % n ∧ DigitsAgree T (P * n) ns := Iff.rfl

theorem digitsAgree_iff {T : ℕ} (ns : List ℕ) : ∀ P, DigitsAgree T P ns ↔
    ∀ i (hi : i < ns.length), T % ns[i] = T / (P * (ns.take i).prod) % ns[i] := by
  induction ns with
  | nil => simp [DigitsAgree]
  | cons n ns ih =>
    intro P
    rw [digitsAgree_cons, ih]
    constructor
    · rintro ⟨hhead, htail⟩ i hi
      cases i with
      | zero => simpa using hhead
      | succ i => simpa [Nat.mul_assoc] using htail i (by simpa using hi)
    · intro h
      refine ⟨?_, fun i hi => ?_⟩
      · have hhead := h 0 (by simp)
        simpa using hhead
      · have htail := h (i + 1) (by simpa using hi)
        simpa [Nat.mul_assoc] using htail

/-- A task comes out at the tick `T` if and only if the slot of `T` in its level is still to come, and the levels below
re-slot it by the digits of `T`; `L` stands for the levels below the first one here. -/
theorem dueAt_eq_iff {T : ℕ} (sizes : List ℕ) : ∀ {L : Prop} {down : ℕ → ℕ → ℕ} {P a diff : ℕ}, (∀ n ∈ sizes, 2 ≤ n) →
    (∀ k, down k T = T ↔ k = T / P ∧ L) → T / P ≤ diff + a →
    (dueAt slot (fun _ x => x) T down P a diff (T / P) sizes = some T ↔
      L ∧ nextSlot a (levelsBelow diff sizes) ≤ T / (P * (levelsBelow diff sizes).prod) ∧
        DigitsAgree T P (levelsBelow diff sizes)) := by
  induction sizes with
  | nil =>
    intro L down P a diff _ hdown _
    simp [dueAt_nil, levelsBelow, nextSlot, hdown, DigitsAgree, and_comm]
  | cons size sizes ih =>
    intro L down P a diff hsizes hdown hle
    have hsize : 2 ≤ size := hsizes size List.mem_cons_self
    rw [dueAt_cons]
    by_cases hdiff : diff < size
    · have hnumber : numberFrom a size (T / P % size) = T / P ↔ a ≤ T / P := by
        refine ⟨fun h => ?_, fun hlo => numberFrom_eq (by omega) hlo (by omega)⟩
        rw [← h]
        exact Nat.le_add_right _ _
      simp [levelsBelow, nextSlot, hdiff, hdown, hnumber, DigitsAgree, and_comm]
    · have hlower : ∀ k, lower slot size (P * size % 2 ^ 64) down k T = T ↔
          k = T / (P * size) ∧ T % size = T / P % size ∧ L := by
        intro k
        have hslot : (slot size (P * size % 2 ^ 64) T).getD 0 = T % size := by
          rw [slot, umod, if_neg (by omega), Option.getD_some]
        rw [lower, hslot, hdown, mul_add_eq_iff (Nat.mod_lt _ (by omega)), Nat.div_div_eq_div_mul, and_assoc]
      have hnext : T / (P * size) ≤ diff / size + (a / size + 1) := by
        rw [← Nat.div_div_eq_div_mul]
        calc T / P / size ≤ (diff + a) / size := Nat.div_le_div_right hle
          _ ≤ diff / size + a / size + 1 := Nat.add_div_le_div_add_div_add_one _ _ _
      rw [if_neg hdiff, Nat.div_div_eq_div_mul, ih (fun n hn => hsizes n (List.mem_cons_of_mem _ hn)) hlower hnext]
      simp only [levelsBelow, if_neg hdiff, nextSlot, List.foldl_cons, List.prod_cons, ← Nat.mul_assoc, digitsAgree_cons]
      tauto

/-- A task of a call that is not late comes out at its tick. -/
theorem dueAt_eq_iff_inTimeAt {sizes : List ℕ} (hsizes : ∀ n ∈ sizes, 2 ≤ n) {a t T : ℕ} (hle : t ≤ a) :
    dueAt slot (fun _ x => x) T (fun k _ => k) 1 a (T - t) T sizes = some T ↔ InTimeAt sizes a t T := by
  have hdue : dueAt slot (fun _ x => x) T (fun k _ => k) 1 a (T - t) (T / 1) sizes = some T ↔ _ :=
    dueAt_eq_iff (L := True) sizes hsizes (by simp) (by rw [Nat.div_one]; omega)
  rw [digitsAgree_iff] at hdue
  simpa [InTimeAt] using hdue

end TimeWheelExecutor

/-! ### The loop -/

/-- The executor, and whether the timer thread performs the tasks of a tick, with the mutex released. -/
structure TimerLoop (α : Type) where
  executor : TimeWheelExecutor α
  performing : Bool

inductive LoopOp (α : Type) where
  | next
  | executeAt (tp : ℕ) (task : α)

namespace TimerLoop

def start (o : WheelOptions) : TimerLoop α := { executor := TimeWheelExecutor.init o, performing := false }

/-- The next part of a round: `Tick`, with the task list that is to be performed, and the update of the clock.  When
there is nothing to perform, the mutex is held over both. -/
def next (s : TimerLoop α) : Option (Option (TaskList α) × TimerLoop α) :=
  let count (e : TimeWheelExecutor α) := { e with currentTickCount := e.currentTickCount + 1 }
  if s.performing then
    some (none, { executor := count s.executor, performing := false })
  else do
    let (taskList, ws, m) ← tick TimeWheelExecutor.slot s.executor.timingWheelVec s.executor.timingTaskMap
    let executor := { s.executor with timingWheelVec := ws, timingTaskMap := m }
    if taskList.isEmpty then
      return (some taskList, { executor := count executor, performing := false })
    else
      return (some taskList, { executor := executor, performing := true })

def executeAt (o : WheelOptions) (s : TimerLoop α) (tp : ℕ) (task : α) : Option (TimerLoop α) := do
  let executor ← s.executor.executeAt o tp task
  return { s with executor := executor }

/-- The task lists of the ticks of a run, in order; no value at undefined behaviour. -/
def run (o : WheelOptions) : TimerLoop α → List (LoopOp α) → Option (List (TaskList α) × TimerLoop α)
  | s, [] => some ([], s)
  | s, .next :: ops => do
    let (taskList, s) ← s.next
    let (lists, s) ← run o s ops
    return (taskList.toList ++ lists, s)
  | s, .executeAt tp task :: ops => do
    let s ← s.executeAt o tp task
    run o s ops

theorem run_nil (o : WheelOptions) (s : TimerLoop α) : run o s [] = some ([], s) := rfl

theorem run_next (o : WheelOptions) (s : TimerLoop α) (ops : List (LoopOp α)) : run o s (.next :: ops) = do
    let (taskList, s) ← s.next
    let (lists, s) ← run o s ops
    return (taskList.toList ++ lists, s) := rfl

theorem run_executeAt (o : WheelOptions) (s : TimerLoop α) (tp : ℕ) (task : α) (ops : List (LoopOp α)) :
    run o s (.executeAt tp task :: ops) = s.executeAt o tp task >>= fun s => run o s ops := rfl

/-! ### What is promised -/

/-- The task is performed by the advance `c`, and by no other. -/
def PerformedAt (lists : List (TaskList α)) (task : α) (c : ℕ) : Prop :=
  ∀ i (hi : i < lists.length), task ∈ lists[i].map (·.task) ↔ i = c

/-- **What is promised to a call** that is made while a tick is performed. -/
structure Prompt (o : WheelOptions) (s : TimerLoop α) (tp : ℕ) (task : α) (lists : List (TaskList α)) : Prop where
  later : s.executor.currentTickCount < o.targetTick tp → PerformedAt lists task (o.targetTick tp)
  now : o.targetTick tp = s.executor.currentTickCount →
    (∃ e, s.executor.executeAt o tp task = some e ∧ e.imdQueue = s.executor.imdQueue ++ [task]) ∨
      PerformedAt lists task (s.executor.currentTickCount + 1)

/-- No call of the run is for this task. -/
def Fresh (task : α) (ops : List (LoopOp α)) : Prop := ∀ tp, .executeAt tp task ∉ ops

/-! ### When the tasks of a run come out -/

/-- The number of the next tick. -/
def ticks (s : TimerLoop α) : ℕ := s.executor.currentTickCount + if s.performing then 1 else 0

/-- The tick at which the task of a call comes out; none where the call is late. -/
def due (o : WheelOptions) (s : TimerLoop α) (tp : ℕ) : Option ℕ :=
  if usub tp o.startTimePoint < s.executor.currentTickCount * o.dtCount % 2 ^ 64 then none
  else dueAt TimeWheelExecutor.slot (fun _ x => x) (o.targetTick tp) (fun k _ => k) 1 s.ticks
    (usub (o.targetTick tp) s.executor.currentTickCount) (o.targetTick tp) o.wheelSize

/-- The tasks of the calls of a run, with the ticks at which they come out. -/
def scheduled (o : WheelOptions) : TimerLoop α → List (LoopOp α) → List (ℕ × TaskWithTimestamp α)
  | _, [] => []
  | s, .next :: ops => s.next.elim [] fun (_, s) => scheduled o s ops
  | s, .executeAt tp task :: ops =>
    ((due o s tp).toList.map fun d => (d, ⟨o.targetTick tp, task⟩)) ++
      (s.executeAt o tp task).elim [] fun s => scheduled o s ops

theorem scheduled_nil (o : WheelOptions) (s : TimerLoop α) : scheduled o s [] = [] := rfl

theorem scheduled_next (o : WheelOptions) (s : TimerLoop α) (ops : List (LoopOp α)) :
    scheduled o s (.next :: ops) = s.next.elim [] fun (_, s) => scheduled o s ops := rfl

theorem scheduled_executeAt (o : WheelOptions) (s : TimerLoop α) (tp : ℕ) (task : α) (ops : List (LoopOp α)) :
    scheduled o s (.executeAt tp task :: ops) = ((due o s tp).toList.map fun d => (d, ⟨o.targetTick tp, task⟩)) ++
      (s.executeAt o tp task).elim [] fun s => scheduled o s ops := rfl

variable {o : WheelOptions} {s : TimerLoop α} {q : AlarmQueue (ℕ × TaskWithTimestamp α)}

/-- The wheel of the executor keeps what an alarm queue keeps. -/
def Keeps (o : WheelOptions) (s : TimerLoop α) (q : AlarmQueue (ℕ × TaskWithTimestamp α)) : Prop :=
  s.ticks = q.now ∧ WheelKeeps TimeWheelExecutor.slot o s.executor.timingWheelVec s.executor.timingTaskMap q

theorem keeps_start (o : WheelOptions) : Keeps o (start (α := α) o) AlarmQueue.init :=
  ⟨rfl, wheelKeeps_init _ o⟩

/-- A part of a round is a tick of the queue, or it changes nothing. -/
theorem Keeps.next (h : Keeps o s q) : ∃ out s', s.next = some (out, s') ∧
    ((s.performing = true ∧ s'.performing = false ∧ out = none ∧ Keeps o s' q) ∨
      s.performing = false ∧ ∃ taskList, out = some taskList ∧
        (taskList.map fun τ => (q.now, τ) : Multiset (ℕ × TaskWithTimestamp α)) = q.dueNow Prod.fst ∧
        Keeps o s' (q.tick Prod.fst)) := by
  obtain ⟨hnow, hwheel⟩ := h
  unfold TimerLoop.next
  cases hperforming : s.performing with
  | true =>
    refine ⟨_, _, rfl, .inl ⟨rfl, rfl, rfl, ?_, hwheel⟩⟩
    simpa [ticks, hperforming] using hnow
  | false =>
    obtain ⟨taskList, ws, m, htick, hout, hwheel'⟩ := hwheel.tick
    rw [ticks, hperforming] at hnow
    simp only [Bool.false_eq_true, if_false, htick, Option.bind_eq_bind, Option.bind_some]
    split_ifs with hempty
    · exact ⟨_, _, rfl, .inr ⟨trivial, taskList, rfl, hout, congrArg (· + 1) hnow, hwheel'⟩⟩
    · exact ⟨_, _, rfl, .inr ⟨trivial, taskList, rfl, hout, congrArg (· + 1) hnow, hwheel'⟩⟩

theorem Keeps.executeAt (h : Keeps o s q) (tp : ℕ) (task : α) :
    ∃ s', s.executeAt o tp task = some s' ∧ Keeps o s' (withDue q ⟨o.targetTick tp, task⟩ (due o s tp)) := by
  obtain ⟨hnow, hwheel⟩ := h
  rw [due, hnow]
  by_cases hlate : usub tp o.startTimePoint < s.executor.currentTickCount * o.dtCount % 2 ^ 64
  · rw [if_pos hlate, TimerLoop.executeAt, TimeWheelExecutor.executeAt, if_pos hlate]
    exact ⟨_, rfl, hnow, hwheel⟩
  · obtain ⟨ws, m, -, hat, hwheel'⟩ := TimeWheelExecutor.executeAt_of_not_late hwheel task hlate
    rw [if_neg hlate, TimerLoop.executeAt, hat]
    exact ⟨_, rfl, (withDue_now _ _ _).symm ▸ hnow, hwheel'⟩

/-- A run is defined, and its ticks hand out what they would of the queue. -/
theorem run_keeps (ops : List (LoopOp α)) : ∀ {s q added fired}, Keeps o s q →
    AlarmQueue.Run Prod.fst q added fired →
    ∃ lists s' q' fired', run o s ops = some (lists, s') ∧ Keeps o s' q' ∧
      AlarmQueue.Run Prod.fst q' (scheduled o s ops + added) (fired ++ fired') ∧
      fired'.map (Multiset.map Prod.snd) = lists.map ((↑) : TaskList α → Multiset (TaskWithTimestamp α)) := by
  induction ops with
  | nil =>
    intro s q added fired h hr
    exact ⟨[], s, q, [], rfl, h, by simpa [scheduled_nil] using hr, rfl⟩
  | cons op ops ih =>
    intro s q added fired h hr
    cases op with
    | next =>
      obtain ⟨out, s₁, hnext, ⟨-, -, rfl, h₁⟩ | ⟨-, taskList, rfl, hout, h₁⟩⟩ := h.next
      · obtain ⟨lists, s', q', fired', hrun, h', hr', hmap⟩ := ih h₁ hr
        refine ⟨lists, s', q', fired', by simp [run_next, hnext, hrun], h', ?_, hmap⟩
        simpa [scheduled_next, hnext] using hr'
      · obtain ⟨lists, s', q', fired', hrun, h', hr', hmap⟩ := ih h₁ hr.tick
        refine ⟨taskList :: lists, s', q', q.dueNow Prod.fst :: fired', by simp [run_next, hnext, hrun], h', ?_, ?_⟩
        · simpa [scheduled_next, hnext] using hr'
        · rw [List.map_cons, List.map_cons, hmap, ← hout]
          simp
    | executeAt tp task =>
      obtain ⟨s₁, hat, h₁⟩ := h.executeAt tp task
      cases hdue : due o s tp with
      | none =>
        rw [hdue] at h₁
        obtain ⟨lists, s', q', fired', hrun, h', hr', hmap⟩ := ih h₁ hr
        refine ⟨lists, s', q', fired', by simp [run_executeAt, hat, hrun], h', ?_, hmap⟩
        simpa [scheduled_executeAt, hat, hdue] using hr'
      | some d =>
        have hle : q.now ≤ d := by
          rw [due, h.1] at hdue
          split_ifs at hdue
          exact le_of_dueAt hdue
        rw [hdue] at h₁
        obtain ⟨lists, s', q', fired', hrun, h', hr', hmap⟩ := ih h₁ (hr.add hle)
        refine ⟨lists, s', q', fired', by simp [run_executeAt, hat, hrun], h', ?_, hmap⟩
        simpa [scheduled_executeAt, hat, hdue, ← Multiset.cons_coe] using hr'

/-- A tick hands out the tasks that come out at it. -/
theorem mem_handed_iff {ops : List (LoopOp α)} {lists : List (TaskList α)} {s' : TimerLoop α}
    (hrun : run o (start o) ops = some (lists, s')) {c : ℕ} (hc : c < lists.length) (τ : TaskWithTimestamp α) :
    τ ∈ lists[c] ↔ (c, τ) ∈ scheduled o (start o) ops := by
  obtain ⟨lists', s₁, q, fired, hrun', -, hr, hmap⟩ := run_keeps ops (keeps_start o) AlarmQueue.Run.init
  rw [hrun', Option.some.injEq, Prod.mk.injEq] at hrun
  obtain ⟨rfl, -⟩ := hrun
  rw [add_zero, List.nil_append] at hr
  have hlength : fired.length = lists'.length := by simpa using congrArg List.length hmap
  have hfired := hr.fired_eq c (by omega)
  have hlist : (fired[c].map Prod.snd : Multiset (TaskWithTimestamp α)) = lists'[c] := by
    have hget := congrArg (·[c]?) hmap
    simpa [hc, hlength] using hget
  rw [← Multiset.mem_coe, ← hlist, hfired]
  simp

theorem exists_of_run_next {ops : List (LoopOp α)} {lists : List (TaskList α)} {s₁ : TimerLoop α}
    (h : run o s (.next :: ops) = some (lists, s₁)) : ∃ out s' lists',
      s.next = some (out, s') ∧ run o s' ops = some (lists', s₁) ∧ lists = out.toList ++ lists' := by
  simp only [run_next, Option.bind_eq_bind, Option.bind_eq_some_iff] at h
  obtain ⟨⟨out, s'⟩, hnext, ⟨lists', s''⟩, hrun, heq⟩ := h
  obtain ⟨rfl, rfl⟩ : out.toList ++ lists' = lists ∧ s'' = s₁ := by simpa using heq
  exact ⟨out, s', lists', hnext, hrun, rfl⟩

theorem exists_of_run_executeAt {tp : ℕ} {task : α} {ops : List (LoopOp α)} {lists : List (TaskList α)}
    {s₁ : TimerLoop α} (h : run o s (.executeAt tp task :: ops) = some (lists, s₁)) :
    ∃ s', s.executeAt o tp task = some s' ∧ run o s' ops = some (lists, s₁) := by
  simpa only [run_executeAt, Option.bind_eq_bind, Option.bind_eq_some_iff] using h

theorem run_append {before after : List (LoopOp α)} : ∀ {s lists s₁}, run o s before = some (lists, s₁) →
    run o s (before ++ after) = (run o s₁ after).map fun (lists', s') => (lists ++ lists', s') := by
  induction before with
  | nil =>
    intro s lists s₁ h
    obtain ⟨rfl, rfl⟩ : [] = lists ∧ s = s₁ := by simpa [run_nil] using h
    cases hrun : run o s after <;> simp [hrun]
  | cons op before ih =>
    intro s lists s₁ h
    cases op with
    | next =>
      obtain ⟨out, s', lists', hnext, hrun, rfl⟩ := exists_of_run_next h
      simp only [List.cons_append, run_next, hnext, Option.bind_eq_bind, Option.bind_some, ih hrun]
      cases run o s₁ after <;> simp
    | executeAt tp task =>
      obtain ⟨s', hat, hrun⟩ := exists_of_run_executeAt h
      simp only [List.cons_append, run_executeAt, hat, Option.bind_eq_bind, Option.bind_some, ih hrun]

theorem scheduled_append {before after : List (LoopOp α)} : ∀ {s lists s₁}, run o s before = some (lists, s₁) →
    scheduled o s (before ++ after) = scheduled o s before ++ scheduled o s₁ after := by
  induction before with
  | nil =>
    intro s lists s₁ h
    obtain ⟨-, rfl⟩ : [] = lists ∧ s = s₁ := by simpa [run_nil] using h
    rfl
  | cons op before ih =>
    intro s lists s₁ h
    cases op with
    | next =>
      obtain ⟨out, s', lists', hnext, hrun, -⟩ := exists_of_run_next h
      simp [scheduled_next, hnext, ih hrun]
    | executeAt tp task =>
      obtain ⟨s', hat, hrun⟩ := exists_of_run_executeAt h
      simp [scheduled_executeAt, hat, ih hrun]

theorem Fresh.notMem_scheduled {task : α} {ops : List (LoopOp α)} (h : Fresh task ops) :
    ∀ s, ∀ e ∈ scheduled o s ops, e.2.task ≠ task := by
  induction ops with
  | nil => exact fun s e he => by cases he
  | cons op ops ih =>
    have hrest : Fresh task ops := fun tp hmem => h tp (List.mem_cons_of_mem _ hmem)
    intro s e he
    cases op with
    | next =>
      simp only [scheduled_next] at he
      cases hnext : s.next with
      | none => simp [hnext] at he
      | some r => exact ih hrest r.2 e (by simpa [hnext] using he)
    | executeAt tp other =>
      simp only [scheduled_executeAt, List.mem_append, List.mem_map] at he
      rcases he with ⟨d, -, rfl⟩ | he
      · rintro rfl
        exact h tp List.mem_cons_self
      · cases hat : s.executeAt o tp other with
        | none => simp [hat] at he
        | some s' => exact ih hrest s' e (by simpa [hat] using he)

/-- Every other part of a round makes a tick. -/
theorem Keeps.exists_ticks (n : ℕ) : ∀ {s : TimerLoop α} {q}, Keeps o s q → ∃ lists s',
    run o s (List.replicate n .next) = some (lists, s') ∧ n ≤ 2 * lists.length + if s.performing then 1 else 0 := by
  induction n with
  | zero => exact fun _ => ⟨[], _, rfl, Nat.zero_le _⟩
  | succ n ih =>
    intro s q h
    obtain ⟨out, s₁, hnext, ⟨hperforming, hdone, rfl, h₁⟩ | ⟨hperforming, taskList, rfl, -, h₁⟩⟩ := h.next
    · obtain ⟨lists, s', hrun, hle⟩ := ih h₁
      refine ⟨lists, s', by simp [List.replicate_succ, run_next, hnext, hrun], ?_⟩
      simp only [hdone, hperforming, Bool.false_eq_true, if_false, if_true] at hle ⊢
      omega
    · obtain ⟨lists, s', hrun, hle⟩ := ih h₁
      refine ⟨taskList :: lists, s', by simp [List.replicate_succ, run_next, hnext, hrun], ?_⟩
      rw [List.length_cons]
      split_ifs at hle <;> omega

/-- The task of a call is performed by the advance at which it comes out, and by no other. -/
theorem performed_iff {before after : List (LoopOp α)} {tp : ℕ} {task : α} {lists lists' : List (TaskList α)}
    {s' : TimerLoop α} (hbefore : run o (start o) before = some (lists, s)) (hfresh : Fresh task before)
    (hrest : Fresh task after) (hrun : run o (start o) (before ++ .executeAt tp task :: after) = some (lists', s'))
    {c : ℕ} (hc : c < lists'.length) : task ∈ lists'[c].map (·.task) ↔ due o s tp = some c := by
  rw [List.mem_map]
  simp only [mem_handed_iff hrun hc, scheduled_append hbefore, scheduled_executeAt, List.mem_append, List.mem_map,
    Option.mem_toList, Prod.mk.injEq]
  constructor
  · rintro ⟨τ, hold | ⟨d, hd, rfl, -⟩ | hnew, hτ⟩
    · exact absurd hτ (hfresh.notMem_scheduled _ _ hold)
    · exact hd
    · cases hat : s.executeAt o tp task with
      | none => simp [hat] at hnew
      | some s₁ => exact absurd hτ (hrest.notMem_scheduled s₁ _ (by simpa [hat] using hnew))
  · exact fun hdue => ⟨⟨o.targetTick tp, task⟩, .inr (.inl ⟨c, hdue, rfl, rfl⟩), rfl⟩

/-- While a tick is performed, the task of a call that is not late comes out at its tick if and only if it is in
time. -/
theorem due_eq_iff (hperforming : s.performing = true) {tp : ℕ}
    (hcur : s.executor.currentTickCount ≤ o.targetTick tp) :
    due o s tp = some (o.targetTick tp) ↔ TimeWheelExecutor.InTimeAt o.wheelSize (s.executor.currentTickCount + 1)
      s.executor.currentTickCount (o.targetTick tp) := by
  rw [due, if_neg (WheelOptions.not_late hcur), usub_of_le hcur (o.targetTick_lt tp), ticks, if_pos hperforming]
  exact TimeWheelExecutor.dueAt_eq_iff_inTimeAt o.two_le (Nat.le_succ _)

/-- The slot of the tick that is performed was emptied: the next time it comes up is a rotation later. -/
theorem not_next_of_due {d : ℕ} (hperforming : s.performing = true) {tp : ℕ}
    (hnow : o.targetTick tp = s.executor.currentTickCount) (hdue : due o s tp = some d) :
    s.executor.currentTickCount + 1 < d := by
  rw [due, if_neg (WheelOptions.not_late hnow.ge), usub_of_le hnow.ge (o.targetTick_lt tp), ticks, if_pos hperforming,
    hnow, Nat.sub_self] at hdue
  cases hsizes : o.wheelSize with
  | nil => exact absurd hsizes o.wheelSize_ne
  | cons size sizes =>
    have hsize : 2 ≤ size := o.two_le size (by simp [hsizes])
    rw [hsizes, dueAt_cons, if_pos (by omega), Option.some.injEq] at hdue
    have hmod : numberFrom (s.executor.currentTickCount + 1) size (s.executor.currentTickCount % size) % size =
        s.executor.currentTickCount % size := numberFrom_mod (Nat.mod_lt _ (by omega))
    rw [hdue] at hmod
    have hge : s.executor.currentTickCount + 1 ≤ d := hdue ▸ Nat.le_add_right _ _
    by_contra hlt
    obtain rfl : d = s.executor.currentTickCount + 1 := by omega
    have hdvd := (Nat.modEq_iff_dvd' (Nat.le_succ _)).1 (show s.executor.currentTickCount ≡ _ [MOD size] from hmod.symm)
    have hle := Nat.le_of_dvd (by omega) hdvd
    omega

theorem exists_keeps {ops : List (LoopOp α)} {lists : List (TaskList α)}
    (hrun : run o (start o) ops = some (lists, s)) : ∃ q, Keeps o s q := by
  obtain ⟨lists', s', q, -, hrun', h, -, -⟩ := run_keeps ops (keeps_start o) AlarmQueue.Run.init
  obtain ⟨-, rfl⟩ : lists' = lists ∧ s' = s := by simpa [hrun'] using hrun
  exact ⟨q, h⟩

/-- A run that goes on makes as many ticks as it likes. -/
theorem le_length_of_run {before : List (LoopOp α)} {lists lists' : List (TaskList α)} {s' : TimerLoop α} {tp n : ℕ}
    {task : α} (hbefore : run o (start o) before = some (lists, s))
    (hrun : run o (start o) (before ++ .executeAt tp task :: List.replicate n .next) = some (lists', s')) :
    n ≤ 2 * lists'.length + 1 := by
  obtain ⟨q, h⟩ := exists_keeps hbefore
  obtain ⟨s₁, hat, h₁⟩ := h.executeAt tp task
  obtain ⟨lists₁, s₂, hnext, hle⟩ := h₁.exists_ticks n
  rw [run_append hbefore, run_executeAt, hat] at hrun
  simp only [Option.bind_eq_bind, Option.bind_some, hnext, Option.map_some, Option.some.injEq, Prod.mk.injEq] at hrun
  rw [← hrun.1, List.length_append]
  split_ifs at hle <;> omega

/-- A call that is not late is not passed on to `Execute`. -/
theorem not_immediate (hkeeps : Keeps o s q) {tp : ℕ} {task : α}
    (hcur : s.executor.currentTickCount ≤ o.targetTick tp) :
    ¬ ∃ e, s.executor.executeAt o tp task = some e ∧ e.imdQueue = s.executor.imdQueue ++ [task] := by
  rintro ⟨e, he, hqueue⟩
  obtain ⟨ws, m, -, hat, -⟩ := TimeWheelExecutor.executeAt_of_not_late hkeeps.2 task (WheelOptions.not_late hcur)
  rw [hat, Option.some.injEq] at he
  rw [← he] at hqueue
  simpa using congrArg List.length hqueue

/-- **A call that is made while a tick is performed is served promptly, however the run goes on, if and only if it is in
time for the wheel, which is one tick ahead.**  The call is the only one that is made for its task. -/
theorem prompt_iff (o : WheelOptions) {before : List (LoopOp α)} {lists : List (TaskList α)} {s : TimerLoop α}
    (hbefore : run o (start o) before = some (lists, s)) (hperforming : s.performing = true) {tp : ℕ}
    (hcur : s.executor.currentTickCount ≤ o.targetTick tp) {task : α} (hfresh : Fresh task before) :
    (∀ after, Fresh task after → ∃ lists' s',
      run o (start o) (before ++ .executeAt tp task :: after) = some (lists', s') ∧ Prompt o s tp task lists') ↔
      TimeWheelExecutor.InTimeAt o.wheelSize (s.executor.currentTickCount + 1) s.executor.currentTickCount
        (o.targetTick tp) := by
  rw [← due_eq_iff hperforming hcur]
  constructor
  · intro h
    -- the run goes on until the target tick is behind it
    set n := 2 * (o.targetTick tp + 3) with hn
    obtain ⟨lists', s', hrun, hprompt⟩ := h (List.replicate n .next) fun tp' hmem => by
      cases List.eq_of_mem_replicate hmem
    have hlong : o.targetTick tp + 1 < lists'.length := by
      have hle := le_length_of_run hbefore hrun
      omega
    have hat := fun c (hc : c < lists'.length) =>
      performed_iff hbefore hfresh (fun tp' hmem => by cases List.eq_of_mem_replicate hmem) hrun hc
    rcases Nat.lt_or_eq_of_le hcur with hlt | heq
    · exact (hat _ (by omega)).1 ((hprompt.later hlt _ (by omega)).2 rfl)
    · rcases hprompt.now heq.symm with himmediate | hperformed
      · obtain ⟨q, hkeeps⟩ := exists_keeps hbefore
        exact absurd himmediate (not_immediate hkeeps hcur)
      · have hdue := (hat _ (by omega)).1 ((hperformed _ (by omega)).2 rfl)
        exact absurd (not_next_of_due hperforming heq.symm hdue) (Nat.lt_irrefl _)
  · intro hdue after hrest
    obtain ⟨lists', s', -, -, hrun, -, -, -⟩ := run_keeps (before ++ .executeAt tp task :: after) (keeps_start o)
      AlarmQueue.Run.init
    refine ⟨lists', s', hrun, fun _ c hc => ?_, fun hnow => ?_⟩
    · rw [performed_iff hbefore hfresh hrest hrun hc, hdue, Option.some.injEq, eq_comm]
    · have hlater := not_next_of_due hperforming hnow hdue
      omega

/-- While the tick `0` of two levels of three and two slots is performed, a task is scheduled for the tick `2`. -/
theorem prompt_wheel32 : ∃ s, run wheel32 (start wheel32) [.executeAt 0 0, .next] = some ([[⟨0, 0⟩]], s) ∧
    ∀ after, Fresh 1 after → ∃ lists' s',
      run wheel32 (start wheel32) ([.executeAt 0 0, .next] ++ .executeAt 2 1 :: after) = some (lists', s') ∧
        Prompt wheel32 s 2 1 lists' := by
  refine ⟨_, rfl, ?_⟩
  exact (prompt_iff wheel32 rfl rfl (by decide) fun tp h => by simp at h).2 (by decide)

/-- Two calls that are not served promptly.  While the tick `0` is performed, a task is scheduled for `Now()`: it is
performed by the advance `3`.  While the tick `2` is performed, a task is scheduled for the tick `5`, three ticks later:
the slot of the second level was brought down by this tick, and it is performed by the advance `11`. -/
theorem not_prompt :
    let notPrompt (before : List (LoopOp ℕ)) (tp n : ℕ) : Prop := ∃ lists s lists' s',
      run wheel32 (start wheel32) before = some (lists, s) ∧ s.performing = true ∧
        s.executor.currentTickCount ≤ wheel32.targetTick tp ∧
        run wheel32 (start wheel32) (before ++ .executeAt tp 1 :: List.replicate n .next) = some (lists', s') ∧
        ¬ Prompt wheel32 s tp 1 lists'
    notPrompt [.executeAt 0 0, .next] 0 5 ∧ notPrompt [.executeAt 2 0, .next, .next, .next] 5 10 := by
  refine ⟨⟨_, _, [[⟨0, 0⟩], [], [], [⟨0, 1⟩]], _, rfl, rfl, by decide, rfl, fun h => ?_⟩,
    ⟨_, _, [[], [], [⟨2, 0⟩], [], [], [], [], [], [], [], [], [⟨5, 1⟩]], _, rfl, rfl, by decide, rfl, fun h => ?_⟩⟩
  · rcases h.now rfl with ⟨e, he, hqueue⟩ | hperformed
    · have hempty : (some e).map (·.imdQueue) = some [] := by rw [← he]; rfl
      simp [hqueue] at hempty
    · exact absurd ((hperformed 1 (by decide)).2 rfl) (by decide)
  · exact absurd ((h.later (by decide) 5 (by decide)).2 rfl) (by decide)

end TimerLoop

end AimRT.Executor
