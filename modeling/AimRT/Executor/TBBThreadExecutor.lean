import AimRT.Lib.Fair
import AimRT.Lib.Places

/-!
# The tbb thread executor

`TBBThreadExecutor` with its worker threads and any number of calls of `Execute`, `Start` and `Shutdown`.  A call or a
worker takes one step for each access to what it shares with others: a load of `state_`, a change of one of the two
counters, an operation of the queue.  The queue gives the tasks away in the order in which they came.

A worker takes tasks until the queue is empty or a task throws, leaves if `state_` is `kShutdown` then, and waits for
another task if not.  `Shutdown` aborts the waits again and again, until no worker is left.

* `pushed_eq_run`: what the workers have taken is what was pushed, in the same order, and each task is called once;
* `queueTaskNum_run`: `queue_task_num_` counts the calls on their way to the queue, the tasks in it and those that run,
  and every task that has thrown, for ever;
* `allHold_nothingLost_iff`: when all workers have left their loops the queue is empty, exactly if the last one that
  leaves finds it empty, and nothing is pushed behind it.
-/

namespace AimRT.Executor

open Lib.Fair Lib.Places

variable {α : Type}

namespace TBBThreadExecutor

/-! ### The code -/

/-- `queue_threshold`, and whether `threshold_alarm_interval_ms` is not negative. -/
structure Options where
  threadNum : ℕ
  queueThreshold : UInt32
  alarms : Bool
  deriving DecidableEq, Repr

inductive State where
  | preInit
  | init
  | start
  | shutdown
  deriving DecidableEq, Repr

/-- A call that is under way, by its next step.  `Execute` loads `state_` twice, counts, and pushes or takes the count
back; `Shutdown` exchanges `state_`, loads `work_thread_num_` and aborts in turn, and joins. -/
inductive Call (α : Type) where
  | checkInit (task : α)
  | checkStart (task : α)
  | count (task : α)
  | uncount
  | push (task : α)
  | start
  | exchange
  | loadNum
  | abort
  | join
  | returned
  deriving DecidableEq, Repr

/-- A worker thread, by its next step; `blocked` is inside of `pop` with an empty queue. -/
inductive Worker (α : Type) where
  | starting
  | tryPop
  | tryRun (task : α)
  | tryUncount
  | checkState
  | pop
  | blocked
  | popRun (task : α)
  | popUncount
  | ending
  | ended
  deriving DecidableEq, Repr

/-- `abort` of the queue. -/
def Worker.aborted : Worker α → Worker α
  | .blocked => .tryPop
  | w => w

def Worker.isEnded : Worker α → Bool
  | .ended => true
  | _ => false

end TBBThreadExecutor

open TBBThreadExecutor

/-- The executor with its calls and its workers. -/
structure TBBThreadExecutor (α : Type) where
  options : Options
  state : State
  queueTaskNum : UInt32
  queue : List α
  workThreadNum : ℕ
  workers : List (Worker α)
  calls : List (Call α)
  /-- The tasks that were pushed. -/
  pushed : List α
  /-- The tasks that the workers have taken out of the queue. -/
  taken : List α
  /-- The tasks that were called. -/
  called : List α
  /-- How many of them have thrown. -/
  threw : ℕ
  deriving DecidableEq, Repr

namespace TBBThreadExecutor

/-- What `Initialize` leaves. -/
def init (options : Options) : TBBThreadExecutor α where
  options := options
  state := .init
  queueTaskNum := 0
  queue := []
  workThreadNum := 0
  workers := List.replicate options.threadNum .starting
  calls := []
  pushed := []
  taken := []
  called := []
  threw := 0

/-- The next step of a call: where it is then, and what it has changed. -/
def callStep (y : TBBThreadExecutor α) : Call α → Call α × TBBThreadExecutor α
  | .checkInit task => (if y.state = .init then .count task else .checkStart task, y)
  | .checkStart task => (if y.state = .start then .count task else .returned, y)
  | .count task =>
    let curQueueTaskNum := y.queueTaskNum + 1
    (if y.options.alarms ∧ y.options.queueThreshold < curQueueTaskNum then .uncount else .push task,
      { y with queueTaskNum := curQueueTaskNum })
  | .uncount => (.returned, { y with queueTaskNum := y.queueTaskNum - 1 })
  | .push task => (.returned, { y with queue := y.queue ++ [task], pushed := y.pushed ++ [task] })
  | .start => (.returned, { y with state := .start })
  | .exchange => (if y.state = .shutdown then .returned else .loadNum, { y with state := .shutdown })
  | .loadNum => (if y.workThreadNum = 0 then .join else .abort, y)
  | .abort =>
    (.loadNum, { y with workers := y.workers.map Worker.aborted })
  | .join => (if y.workers.all Worker.isEnded then .returned else .join, y)
  | .returned => (.returned, y)

/-- `try_pop`, or `pop`: where the worker is with a task, and where without. -/
def take (y : TBBThreadExecutor α) (run : α → Worker α) (empty : Worker α) : Worker α × TBBThreadExecutor α :=
  match y.queue with
  | [] => (empty, y)
  | task :: queue => (run task, { y with queue := queue, taken := y.taken ++ [task] })

/-- `task()`, and whether it throws. -/
def call (y : TBBThreadExecutor α) (task : α) (threw : Bool) : TBBThreadExecutor α :=
  { y with called := y.called ++ [task], threw := if threw then y.threw + 1 else y.threw }

/-- The next step of a worker. -/
def workerStep (y : TBBThreadExecutor α) (threw : Bool) : Worker α → Worker α × TBBThreadExecutor α
  | .starting => (.tryPop, { y with workThreadNum := y.workThreadNum + 1 })
  | .tryPop => y.take .tryRun .checkState
  | .tryRun task => (if threw then .checkState else .tryUncount, y.call task threw)
  | .tryUncount => (.tryPop, { y with queueTaskNum := y.queueTaskNum - 1 })
  | .checkState => (if y.state = .shutdown then .ending else .pop, y)
  | .pop => y.take .popRun .blocked
  | .blocked => y.take .popRun .blocked
  | .popRun task => (if threw then .tryPop else .popUncount, y.call task threw)
  | .popUncount => (.tryPop, { y with queueTaskNum := y.queueTaskNum - 1 })
  | .ending => (.ended, { y with workThreadNum := y.workThreadNum - 1 })
  | .ended => (.ended, y)

/-- A call is made; a call or a worker takes its next step. -/
inductive Op (α : Type) where
  | execute (task : α)
  | start
  | shutdown
  | call (i : ℕ)
  | worker (i : ℕ) (threw : Bool)
  deriving DecidableEq, Repr

def newCall (y : TBBThreadExecutor α) (c : Call α) : TBBThreadExecutor α := { y with calls := y.calls ++ [c] }

def step (y : TBBThreadExecutor α) : Op α → TBBThreadExecutor α
  | .execute task => y.newCall (.checkInit task)
  | .start => y.newCall .start
  | .shutdown => y.newCall .exchange
  | .call i =>
    match y.calls[i]? with
    | none => y
    | some c => { (y.callStep c).2 with calls := y.calls.set i (y.callStep c).1 }
  | .worker i threw =>
    match y.workers[i]? with
    | none => y
    | some w => { (y.workerStep threw w).2 with workers := y.workers.set i (y.workerStep threw w).1 }

def run (options : Options) (ops : List (Op α)) : TBBThreadExecutor α := ops.foldl step (init options)

/-! ### The invariant -/

/-- The call has raised `queue_task_num_`, and neither pushed its task nor taken the count back. -/
def Call.counted : Call α → Bool
  | .uncount => true
  | .push _ => true
  | _ => false

/-- The call is in the loop of `Shutdown`. -/
def Call.loops : Call α → Bool
  | .loadNum => true
  | .abort => true
  | _ => false

/-- The worker has taken a task and not lowered `queue_task_num_`. -/
def Worker.counted : Worker α → Bool
  | .tryRun _ => true
  | .tryUncount => true
  | .popRun _ => true
  | .popUncount => true
  | _ => false

/-- The task that the worker has taken and not called. -/
def Worker.task? : Worker α → Option α
  | .tryRun task => some task
  | .popRun task => some task
  | _ => none

/-- The worker is counted in `work_thread_num_`. -/
def Worker.active : Worker α → Bool
  | .starting => false
  | .ended => false
  | _ => true

/-- The worker is in `pop`, or about to call it. -/
def Worker.waits : Worker α → Bool
  | .pop => true
  | .blocked => true
  | _ => false

/-- What `queue_task_num_` counts. -/
def load (y : TBBThreadExecutor α) : ℕ :=
  y.calls.countP Call.counted + y.queue.length + y.workers.countP Worker.counted + y.threw

structure Inv (y : TBBThreadExecutor α) : Prop where
  fifo : y.pushed = y.taken ++ y.queue
  once : (y.workers.filterMap Worker.task? ++ y.called).Perm y.taken
  num : y.queueTaskNum = UInt32.ofNat y.load
  threads : y.workThreadNum = y.workers.countP Worker.active
  aborts : y.state = .shutdown → 0 < y.workers.countP Worker.waits → 0 < y.calls.countP Call.loops

section Inv

variable {y : TBBThreadExecutor α} {i : ℕ}

theorem inv_init (options : Options) : Inv (init options : TBBThreadExecutor α) := by
  have hnone : ∀ (f : Worker α → Bool), f .starting = false →
      (List.replicate options.threadNum (Worker.starting (α := α))).countP f = 0 := fun f hf => by
    rw [List.countP_replicate, hf]
    rfl
  refine ⟨rfl, ?_, ?_, (hnone _ rfl).symm, fun h => by cases h⟩
  · show ((List.replicate options.threadNum Worker.starting).filterMap Worker.task? ++ []).Perm []
    rw [List.append_nil, List.filterMap_replicate_of_none rfl]
  · show (0 : UInt32) = UInt32.ofNat (0 + 0 + (List.replicate options.threadNum Worker.starting).countP _ + 0)
    rw [hnone _ rfl]
    rfl

theorem ofNat_succ_sub (n : ℕ) : UInt32.ofNat (n + 1) - 1 = UInt32.ofNat n := by
  rw [UInt32.ofNat_add]
  exact UInt32.add_sub_cancel _ _

theorem countP_waits_le (workers : List (Worker α)) : workers.countP Worker.waits ≤ workers.countP Worker.active :=
  List.countP_mono_left fun w _ hw => by
    cases w <;> first | rfl | cases hw

theorem countP_aborted (f : Worker α → Bool) (hf : f .tryPop = f .blocked) (workers : List (Worker α)) :
    (workers.map Worker.aborted).countP f = workers.countP f := by
  rw [List.countP_map]
  refine congrArg (List.countP · workers) (funext fun w => ?_)
  cases w with
  | blocked => exact hf
  | _ => rfl

theorem Inv.abort (h : Inv y) : Inv { y with workers := y.workers.map Worker.aborted } := by
  refine ⟨h.fifo, ?_, ?_, ?_, fun hstate hwaits => h.aborts hstate (hwaits.trans_le ?_)⟩
  · have htask : Worker.task? ∘ Worker.aborted = Worker.task? (α := α) := funext fun w => by cases w <;> rfl
    show ((y.workers.map Worker.aborted).filterMap Worker.task? ++ y.called).Perm y.taken
    rw [List.filterMap_map, htask]
    exact h.once
  · rw [load, countP_aborted Worker.counted rfl]
    exact h.num
  · show y.workThreadNum = (y.workers.map Worker.aborted).countP Worker.active
    rw [countP_aborted Worker.active rfl]
    exact h.threads
  · show (y.workers.map Worker.aborted).countP Worker.waits ≤ y.workers.countP Worker.waits
    rw [List.countP_map]
    exact List.countP_mono_left fun w _ hw => by
      cases w <;> first | rfl | cases hw

/-- A call goes on that is counted as before.  It leaves the loop of `Shutdown` only if no worker waits. -/
theorem Inv.calls_set (h : Inv y) {c c' : Call α} (hi : y.calls[i]? = some c) (hcounted : c'.counted = c.counted)
    (hloops : c.loops = true → c'.loops = true ∨ y.workers.countP Worker.waits = 0) :
    Inv { y with calls := y.calls.set i c' } := by
  refine ⟨h.fifo, h.once, ?_, h.threads, fun hstate hwaits => ?_⟩
  · rw [load, countP_set_of_eq Call.counted hi hcounted]
    exact h.num
  · have hpos := h.aborts hstate hwaits
    have hcount := countP_set (q := c') Call.loops hi
    show 0 < (y.calls.set i c').countP Call.loops
    cases hc : c.loops with
    | false =>
      rw [hc] at hcount
      exact hpos.trans_le ((Nat.le_add_right _ _).trans_eq hcount.symm)
    | true =>
      have hc' := (hloops hc).resolve_right hwaits.ne'
      rw [hc, hc'] at hcount
      exact hpos.trans_eq (Nat.add_right_cancel hcount).symm

theorem Inv.callStep (h : Inv y) {c : Call α} (hi : y.calls[i]? = some c) :
    Inv { (y.callStep c).2 with calls := y.calls.set i (y.callStep c).1 } := by
  -- a call that goes on and is in the loop of `Shutdown` as before
  have hsame : ∀ {c' : Call α}, c'.loops = c.loops → y.state = .shutdown → 0 < y.workers.countP Worker.waits →
      0 < (y.calls.set i c').countP Call.loops := fun {c'} hloops => by
    rw [countP_set_of_eq Call.loops hi hloops]
    exact h.aborts
  cases c with
  | checkInit task =>
    refine h.calls_set hi ?_ nofun
    unfold TBBThreadExecutor.callStep
    split_ifs <;> rfl
  | checkStart task =>
    refine h.calls_set hi ?_ nofun
    unfold TBBThreadExecutor.callStep
    split_ifs <;> rfl
  | count task =>
    -- the call is counted whichever way it goes on
    have hcounted : ∀ {c' : Call α}, c'.counted = true → c'.loops = false →
        Inv { y with calls := y.calls.set i c', queueTaskNum := y.queueTaskNum + 1 } := by
      intro c' hc' hloops
      refine ⟨h.fifo, h.once, ?_, h.threads, ?_⟩
      · have hmore : (y.calls.set i c').countP Call.counted = y.calls.countP Call.counted + 1 := by
          have hcount := countP_set (q := c') Call.counted hi
          rw [hc'] at hcount
          exact hcount
        show y.queueTaskNum + 1 = UInt32.ofNat
          ((y.calls.set i c').countP Call.counted + y.queue.length + y.workers.countP Worker.counted + y.threw)
        rw [h.num, load, hmore, ← UInt32.ofNat_one, ← UInt32.ofNat_add]
        congr 1
        omega
      · exact hsame hloops
    unfold TBBThreadExecutor.callStep
    dsimp only
    split_ifs
    · exact hcounted rfl rfl
    · exact hcounted rfl rfl
  | uncount =>
    refine ⟨h.fifo, h.once, ?_, h.threads, ?_⟩
    · have hless : (y.calls.set i .returned).countP Call.counted + 1 = y.calls.countP Call.counted :=
        countP_set (q := Call.returned) Call.counted hi
      show y.queueTaskNum - 1 = UInt32.ofNat
        ((y.calls.set i .returned).countP Call.counted + y.queue.length + y.workers.countP Worker.counted + y.threw)
      have hload : y.load = (y.calls.set i .returned).countP Call.counted + y.queue.length +
          y.workers.countP Worker.counted + y.threw + 1 := by
        rw [load, ← hless]
        omega
      rw [h.num, hload, ofNat_succ_sub]
    · exact hsame rfl
  | push task =>
    refine ⟨?_, h.once, ?_, h.threads, ?_⟩
    · show y.pushed ++ [task] = y.taken ++ (y.queue ++ [task])
      rw [h.fifo, List.append_assoc]
    · have hless : (y.calls.set i .returned).countP Call.counted + 1 = y.calls.countP Call.counted :=
        countP_set (q := Call.returned) Call.counted hi
      show y.queueTaskNum = UInt32.ofNat ((y.calls.set i .returned).countP Call.counted + (y.queue ++ [task]).length +
        y.workers.countP Worker.counted + y.threw)
      rw [h.num, load, ← hless, List.length_append, List.length_singleton]
      congr 1
      omega
    · exact hsame rfl
  | start =>
    have hset := h.calls_set hi (rfl : Call.returned.counted = _) nofun
    exact ⟨hset.fifo, hset.once, hset.num, hset.threads, nofun⟩
  | exchange =>
    unfold TBBThreadExecutor.callStep
    dsimp only
    split_ifs with hstate
    · have hset := h.calls_set hi (rfl : Call.returned.counted = _) nofun
      exact ⟨hset.fifo, hset.once, hset.num, hset.threads, fun _ => hset.aborts hstate⟩
    · have hset := h.calls_set hi (rfl : Call.loadNum.counted = _) nofun
      refine ⟨hset.fifo, hset.once, hset.num, hset.threads, fun _ _ => ?_⟩
      exact List.countP_pos_iff.2 ⟨.loadNum, List.mem_set (List.getElem?_eq_some_iff.1 hi).1 _, rfl⟩
  | loadNum =>
    unfold TBBThreadExecutor.callStep
    dsimp only
    split_ifs with hnum
    · refine h.calls_set hi rfl fun _ => .inr (Nat.le_zero.1 ?_)
      exact (countP_waits_le y.workers).trans_eq (h.threads.symm.trans hnum)
    · exact h.calls_set hi rfl fun _ => .inl rfl
  | abort =>
    have hset := h.calls_set hi (rfl : Call.loadNum.counted = _) fun _ => .inl rfl
    exact hset.abort
  | join =>
    refine h.calls_set hi ?_ nofun
    unfold TBBThreadExecutor.callStep
    split_ifs <;> rfl
  | returned => exact h.calls_set hi rfl nofun

/-- A worker goes on that is counted as before, and waits only if it did, or if nothing was shut down. -/
theorem Inv.workers_set (h : Inv y) {w w' : Worker α} (hi : y.workers[i]? = some w) (hcounted : w'.counted = w.counted)
    (htask : w.task? = none) (htask' : w'.task? = none) (hactive : w'.active = w.active)
    (hwaits : w'.waits = true → w.waits = true ∨ y.state ≠ .shutdown) :
    Inv { y with workers := y.workers.set i w' } := by
  refine ⟨h.fifo, ?_, ?_, ?_, fun hstate hpos => h.aborts hstate ?_⟩
  · have hperm := filterMap_set_perm (q := w') Worker.task? hi htask
    rw [htask'] at hperm
    exact (hperm.append_right _).trans h.once
  · show y.queueTaskNum = UInt32.ofNat
      (y.calls.countP Call.counted + y.queue.length + (y.workers.set i w').countP Worker.counted + y.threw)
    rw [countP_set_of_eq Worker.counted hi hcounted]
    exact h.num
  · show y.workThreadNum = (y.workers.set i w').countP Worker.active
    rw [countP_set_of_eq Worker.active hi hactive]
    exact h.threads
  · have hcount := countP_set (q := w') Worker.waits hi
    cases hw : w.waits with
    | true => exact List.countP_pos_iff.2 ⟨w, List.mem_of_getElem? hi, hw⟩
    | false =>
      have hw' : w'.waits = false := Bool.eq_false_iff.2 fun hw' =>
        (hwaits hw').elim (fun hw'' => by rw [hw] at hw''; cases hw'') fun hne => hne hstate
      rw [hw, hw'] at hcount
      exact hpos.trans_eq hcount

/-- `try_pop` and `pop`. -/
theorem Inv.take (h : Inv y) {w w' : Worker α} {run : α → Worker α} (hi : y.workers[i]? = some w)
    (hcounted : w.counted = false) (htask : w.task? = none) (hactive : w.active = true)
    (hrun : ∀ task, (run task).counted = true ∧ (run task).task? = some task ∧ (run task).active = true ∧
      (run task).waits = false)
    (hempty : Inv { y with workers := y.workers.set i w' }) :
    Inv { (y.take run w').2 with workers := y.workers.set i (y.take run w').1 } := by
  cases hqueue : y.queue with
  | nil =>
    simp only [TBBThreadExecutor.take, hqueue]
    rw [← hqueue]
    exact hempty
  | cons task queue =>
    obtain ⟨hcounted', htask', hactive', hwaits'⟩ := hrun task
    simp only [TBBThreadExecutor.take, hqueue]
    refine ⟨?_, ?_, ?_, ?_, fun hstate hpos => h.aborts hstate ?_⟩
    · show y.pushed = (y.taken ++ [task]) ++ queue
      rw [h.fifo, hqueue, List.append_assoc]
      rfl
    · have hperm := filterMap_set_perm (q := run task) Worker.task? hi htask
      rw [htask'] at hperm
      refine (hperm.append_right _).trans ?_
      exact (h.once.cons task).trans (List.perm_append_singleton task y.taken).symm
    · have hmore : (y.workers.set i (run task)).countP Worker.counted = y.workers.countP Worker.counted + 1 := by
        have hcount := countP_set (q := run task) Worker.counted hi
        rw [hcounted, hcounted'] at hcount
        exact hcount
      show y.queueTaskNum = UInt32.ofNat
        (y.calls.countP Call.counted + queue.length + (y.workers.set i (run task)).countP Worker.counted + y.threw)
      rw [h.num, load, hqueue, hmore, List.length_cons]
      congr 1
      omega
    · show y.workThreadNum = (y.workers.set i (run task)).countP Worker.active
      rw [countP_set_of_eq Worker.active hi (hactive'.trans hactive.symm)]
      exact h.threads
    · have hcount := countP_set (q := run task) Worker.waits hi
      rw [hwaits'] at hcount
      exact hpos.trans_le ((Nat.le_add_right _ _).trans_eq hcount)

/-- A task is called: it is counted further on, or by `threw`. -/
theorem Inv.call (h : Inv y) {w w' : Worker α} {task : α} {threw : Bool} (hi : y.workers[i]? = some w)
    (hcounted : w.counted = true) (htask : w.task? = some task) (hactive : w.active = true) (hwaits : w.waits = false)
    (hcounted' : w'.counted = !threw) (htask' : w'.task? = none) (hactive' : w'.active = true)
    (hwaits' : w'.waits = false) : Inv { y.call task threw with workers := y.workers.set i w' } := by
  refine ⟨h.fifo, ?_, ?_, ?_, ?_⟩
  · have hperm := toList_append_filterMap_set_perm (q := w') Worker.task? hi
    rw [htask, htask'] at hperm
    show ((y.workers.set i w').filterMap Worker.task? ++ (y.called ++ [task])).Perm y.taken
    rw [← List.append_assoc]
    exact (List.perm_append_singleton task _).trans ((hperm.append_right _).trans h.once)
  · have hcount := countP_set (q := w') Worker.counted hi
    show y.queueTaskNum = UInt32.ofNat (y.calls.countP Call.counted + y.queue.length +
      (y.workers.set i w').countP Worker.counted + if threw then y.threw + 1 else y.threw)
    rw [hcounted, hcounted'] at hcount
    rw [h.num, load]
    cases threw with
    | false =>
      have hsame := Nat.add_right_cancel hcount
      rw [hsame]
      rfl
    | true =>
      have hless : (y.workers.set i w').countP Worker.counted + 1 = y.workers.countP Worker.counted := hcount
      rw [← hless, if_pos rfl]
      congr 1
      omega
  · show y.workThreadNum = (y.workers.set i w').countP Worker.active
    rw [countP_set_of_eq Worker.active hi (hactive'.trans hactive.symm)]
    exact h.threads
  · show _ → 0 < (y.workers.set i w').countP Worker.waits → _
    rw [countP_set_of_eq Worker.waits hi (hwaits'.trans hwaits.symm)]
    exact h.aborts

/-- `--queue_task_num_` behind a task. -/
theorem Inv.uncount (h : Inv y) {w : Worker α} (hi : y.workers[i]? = some w) (hcounted : w.counted = true)
    (htask : w.task? = none) (hactive : w.active = true) (hwaits : w.waits = false) :
    Inv { y with queueTaskNum := y.queueTaskNum - 1, workers := y.workers.set i .tryPop } := by
  refine ⟨h.fifo, ?_, ?_, ?_, ?_⟩
  · exact ((filterMap_set_perm Worker.task? hi htask).append_right _).trans h.once
  · have hcount := countP_set (q := Worker.tryPop) Worker.counted hi
    rw [hcounted] at hcount
    have hload : y.load = y.calls.countP Call.counted + y.queue.length +
        (y.workers.set i .tryPop).countP Worker.counted + y.threw + 1 := by
      have hless : (y.workers.set i .tryPop).countP Worker.counted + 1 = y.workers.countP Worker.counted := hcount
      rw [load, ← hless]
      omega
    show y.queueTaskNum - 1 = UInt32.ofNat
      (y.calls.countP Call.counted + y.queue.length + (y.workers.set i .tryPop).countP Worker.counted + y.threw)
    rw [h.num, hload, ofNat_succ_sub]
  · show y.workThreadNum = (y.workers.set i .tryPop).countP Worker.active
    rw [countP_set_of_eq (q := Worker.tryPop) Worker.active hi hactive.symm]
    exact h.threads
  · show _ → 0 < (y.workers.set i .tryPop).countP Worker.waits → _
    rw [countP_set_of_eq (q := Worker.tryPop) Worker.waits hi hwaits.symm]
    exact h.aborts

theorem Inv.workerStep (h : Inv y) {w : Worker α} (hi : y.workers[i]? = some w) (threw : Bool) :
    Inv { (y.workerStep threw w).2 with workers := y.workers.set i (y.workerStep threw w).1 } := by
  -- a worker that is counted as before in everything but `work_thread_num_`
  have hidle : ∀ {w' : Worker α} {n : ℕ}, w.counted = false → w.task? = none → w.waits = false →
      w'.counted = false → w'.task? = none → w'.waits = false → n = (y.workers.set i w').countP Worker.active →
      Inv { y with workThreadNum := n, workers := y.workers.set i w' } := by
    intro w' n hcounted htask hwaits hcounted' htask' hwaits' hn
    refine ⟨h.fifo, ?_, ?_, hn, ?_⟩
    · have hperm := filterMap_set_perm (q := w') Worker.task? hi htask
      rw [htask'] at hperm
      exact (hperm.append_right _).trans h.once
    · show y.queueTaskNum = UInt32.ofNat
        (y.calls.countP Call.counted + y.queue.length + (y.workers.set i w').countP Worker.counted + y.threw)
      rw [countP_set_of_eq Worker.counted hi (hcounted'.trans hcounted.symm)]
      exact h.num
    · show _ → 0 < (y.workers.set i w').countP Worker.waits → _
      rw [countP_set_of_eq Worker.waits hi (hwaits'.trans hwaits.symm)]
      exact h.aborts
  cases w with
  | starting =>
    refine hidle rfl rfl rfl rfl rfl rfl ?_
    have hmore : (y.workers.set i .tryPop).countP Worker.active = y.workers.countP Worker.active + 1 :=
      countP_set (q := Worker.tryPop) Worker.active hi
    show y.workThreadNum + 1 = (y.workers.set i .tryPop).countP Worker.active
    rw [hmore, h.threads]
  | tryPop =>
    have hempty : Inv { y with workers := y.workers.set i .checkState } :=
      h.workers_set hi rfl rfl rfl rfl nofun
    exact h.take hi rfl rfl rfl (fun _ => ⟨rfl, rfl, rfl, rfl⟩) hempty
  | tryRun task =>
    cases threw with
    | false => exact h.call hi rfl rfl rfl rfl rfl rfl rfl rfl
    | true => exact h.call hi rfl rfl rfl rfl rfl rfl rfl rfl
  | tryUncount => exact h.uncount hi rfl rfl rfl rfl
  | checkState =>
    unfold TBBThreadExecutor.workerStep
    dsimp only
    split_ifs with hstate
    · exact h.workers_set hi rfl rfl rfl rfl nofun
    · exact h.workers_set hi rfl rfl rfl rfl fun _ => .inr hstate
  | pop =>
    have hempty : Inv { y with workers := y.workers.set i .blocked } :=
      h.workers_set hi rfl rfl rfl rfl fun _ => .inl rfl
    exact h.take hi rfl rfl rfl (fun _ => ⟨rfl, rfl, rfl, rfl⟩) hempty
  | blocked =>
    have hempty : Inv { y with workers := y.workers.set i .blocked } :=
      h.workers_set hi rfl rfl rfl rfl fun _ => .inl rfl
    exact h.take hi rfl rfl rfl (fun _ => ⟨rfl, rfl, rfl, rfl⟩) hempty
  | popRun task =>
    cases threw with
    | false => exact h.call hi rfl rfl rfl rfl rfl rfl rfl rfl
    | true => exact h.call hi rfl rfl rfl rfl rfl rfl rfl rfl
  | popUncount => exact h.uncount hi rfl rfl rfl rfl
  | ending =>
    refine hidle rfl rfl rfl rfl rfl rfl ?_
    have hless : (y.workers.set i .ended).countP Worker.active + 1 = y.workers.countP Worker.active :=
      countP_set (q := Worker.ended) Worker.active hi
    show y.workThreadNum - 1 = (y.workers.set i .ended).countP Worker.active
    rw [h.threads, ← hless]
    exact Nat.add_sub_cancel _ _
  | ended => exact h.workers_set hi rfl rfl rfl rfl nofun

theorem Inv.newCall (h : Inv y) {c : Call α} (hcounted : c.counted = false) : Inv (y.newCall c) := by
  refine ⟨h.fifo, h.once, ?_, h.threads, fun hstate hwaits => ?_⟩
  · have hsame : (y.calls ++ [c]).countP Call.counted = y.calls.countP Call.counted := by
      rw [List.countP_append, List.countP_singleton, hcounted]
      rfl
    show y.queueTaskNum = UInt32.ofNat
      ((y.calls ++ [c]).countP Call.counted + y.queue.length + y.workers.countP Worker.counted + y.threw)
    rw [hsame]
    exact h.num
  · show 0 < (y.calls ++ [c]).countP Call.loops
    rw [List.countP_append]
    exact (h.aborts hstate hwaits).trans_le (Nat.le_add_right _ _)

theorem Inv.step (h : Inv y) (op : Op α) : Inv (y.step op) := by
  cases op with
  | execute task => exact h.newCall rfl
  | start => exact h.newCall rfl
  | shutdown => exact h.newCall rfl
  | call i =>
    cases hi : y.calls[i]? with
    | none =>
      simp only [TBBThreadExecutor.step, hi]
      exact h
    | some _ =>
      simp only [TBBThreadExecutor.step, hi]
      exact h.callStep hi
  | worker i threw =>
    cases hi : y.workers[i]? with
    | none =>
      simp only [TBBThreadExecutor.step, hi]
      exact h
    | some _ =>
      simp only [TBBThreadExecutor.step, hi]
      exact h.workerStep hi threw

end Inv

theorem inv_run (options : Options) (ops : List (Op α)) : Inv (run options ops) :=
  (Lib.Run.allHold_of_inv Inv (fun h => h) (fun h op => h.step op) (inv_init options) ops).last

/-- **First in, first out**: the workers have taken the tasks in the order in which they were pushed, the others are in
the queue, and what they have taken they have called, or are about to call, each task once. -/
theorem pushed_eq_run (options : Options) (ops : List (Op α)) :
    (run options ops).pushed = (run options ops).taken ++ (run options ops).queue ∧
      ((run options ops).workers.filterMap Worker.task? ++ (run options ops).called).Perm (run options ops).taken :=
  ⟨(inv_run options ops).fifo, (inv_run options ops).once⟩

/-- `queue_task_num_` is the number of the calls that have raised it and not come to the queue, of the tasks in the
queue and of those that run, and of all tasks that have thrown. -/
theorem queueTaskNum_run (options : Options) (ops : List (Op α)) :
    (run options ops).queueTaskNum = UInt32.ofNat (run options ops).load :=
  (inv_run options ops).num

/-! ### Tasks that nobody takes -/

/-- The worker has left its loop. -/
def Worker.left : Worker α → Bool
  | .ending => true
  | .ended => true
  | _ => false

/-- If no worker is left that could take a task, there is none. -/
def NothingLost (y : TBBThreadExecutor α) : Prop := y.workers.all Worker.left = true → y.queue = []

/-- A task is pushed while some worker has not left its loop, and the last worker that leaves finds the queue empty. -/
def InTime (y : TBBThreadExecutor α) : Op α → Prop
  | .call i => ∀ task, y.calls[i]? = some (.push task) → y.workers.all Worker.left = false
  | .worker i _ => y.workers[i]? = some .checkState → y.state = .shutdown →
      (y.workers.set i .ending).all Worker.left = true → y.queue = []
  | _ => True

section Left

variable {y : TBBThreadExecutor α} {i : ℕ}

theorem all_left_set {w w' : Worker α} (hi : y.workers[i]? = some w) (hleft : w.left = true ∨ w'.left = false)
    (hall : (y.workers.set i w').all Worker.left = true) : y.workers.all Worker.left = true := by
  have hlt := (List.getElem?_eq_some_iff.1 hi).1
  have hw' : w'.left = true := List.all_eq_true.1 hall _ (List.mem_set hlt w')
  have hw : w.left = true := hleft.resolve_right fun hnot => by
    rw [hw'] at hnot
    cases hnot
  refine List.all_eq_true.2 fun x hx => ?_
  rcases eq_or_ne x w with rfl | hne
  · exact hw
  · obtain ⟨j, hj⟩ := List.mem_iff_getElem?.1 hx
    have hij : i ≠ j := by
      rintro rfl
      rw [hi] at hj
      exact hne (Option.some.inj hj).symm
    refine List.all_eq_true.1 hall x (List.mem_iff_getElem?.2 ⟨j, ?_⟩)
    rw [List.getElem?_set_ne hij, hj]

theorem all_left_aborted (workers : List (Worker α)) :
    (workers.map Worker.aborted).all Worker.left = workers.all Worker.left := by
  rw [List.all_map]
  refine congrArg (List.all workers) (funext fun w => ?_)
  cases w <;> rfl

/-- A call changes nothing of it but by a push. -/
theorem callStep_left {c : Call α} (hpush : ∀ task, c ≠ .push task) :
    (y.callStep c).2.workers.all Worker.left = y.workers.all Worker.left ∧ (y.callStep c).2.queue = y.queue := by
  cases c with
  | push task => exact absurd rfl (hpush task)
  | abort => exact ⟨all_left_aborted y.workers, rfl⟩
  | _ => exact ⟨rfl, rfl⟩

theorem nothingLost_callStep_iff (h : NothingLost y) (c : Call α) :
    ((y.callStep c).2.workers.all Worker.left = true → (y.callStep c).2.queue = []) ↔
      ∀ task, c = .push task → y.workers.all Worker.left = false := by
  by_cases hpush : ∃ task, c = .push task
  · obtain ⟨task, rfl⟩ := hpush
    constructor
    · intro hlost _ _
      have hne : y.queue ++ [task] ≠ [] := List.append_ne_nil_of_right_ne_nil _ nofun
      exact Bool.eq_false_iff.2 fun hall => hne (hlost hall)
    · intro hleft hall
      rw [show (y.callStep (.push task)).2.workers = y.workers from rfl, hleft task rfl] at hall
      cases hall
  · replace hpush : ∀ task, c ≠ .push task := fun task hc => hpush ⟨task, hc⟩
    obtain ⟨hworkers, hqueue⟩ := callStep_left (y := y) hpush
    rw [hworkers, hqueue]
    exact ⟨fun _ task hc => absurd hc (hpush task), fun _ => h⟩

/-- A worker that goes on in its loop, or has left it before. -/
theorem workerStep_left {w : Worker α} (threw : Bool) (hcheck : w = .checkState → y.state ≠ .shutdown) :
    (y.workerStep threw w).1.left = false ∨ w.left = true ∧ (y.workerStep threw w).2.queue = y.queue := by
  have htake : ∀ {run : α → Worker α} {empty : Worker α}, (∀ task, (run task).left = false) →
      empty.left = false → (y.take run empty).1.left = false := by
    intro run empty hrun hempty
    unfold TBBThreadExecutor.take
    split
    · exact hempty
    · exact hrun _
  cases w with
  | checkState =>
    unfold TBBThreadExecutor.workerStep
    rw [if_neg (hcheck rfl)]
    exact .inl rfl
  | tryPop => exact .inl (htake (fun _ => rfl) rfl)
  | pop => exact .inl (htake (fun _ => rfl) rfl)
  | blocked => exact .inl (htake (fun _ => rfl) rfl)
  | tryRun task => cases threw <;> exact .inl rfl
  | popRun task => cases threw <;> exact .inl rfl
  | ending => exact .inr ⟨rfl, rfl⟩
  | ended => exact .inr ⟨rfl, rfl⟩
  | _ => exact .inl rfl

theorem nothingLost_step_iff (h : NothingLost y) (op : Op α) : NothingLost (y.step op) ↔ InTime y op := by
  cases op with
  | call i =>
    cases hi : y.calls[i]? with
    | none =>
      simp only [TBBThreadExecutor.step, InTime, hi]
      exact ⟨fun _ _ => nofun, fun _ => h⟩
    | some c =>
      simp only [TBBThreadExecutor.step, InTime, hi, Option.some.injEq]
      exact nothingLost_callStep_iff h c
  | worker i threw =>
    cases hi : y.workers[i]? with
    | none =>
      simp only [TBBThreadExecutor.step, InTime, hi]
      exact ⟨fun _ => nofun, fun _ => h⟩
    | some w =>
      simp only [TBBThreadExecutor.step, InTime, hi, Option.some.injEq]
      by_cases hcheck : w = .checkState ∧ y.state = .shutdown
      · obtain ⟨rfl, hstate⟩ := hcheck
        have hstep : y.workerStep threw .checkState = (.ending, y) := by
          unfold TBBThreadExecutor.workerStep
          rw [if_pos hstate]
        rw [hstep]
        exact ⟨fun hlost _ _ => hlost, fun hlost => hlost rfl hstate⟩
      · have hcheck' : w = .checkState → y.state ≠ .shutdown := fun hw hstate => hcheck ⟨hw, hstate⟩
        have hleft := workerStep_left threw hcheck'
        refine ⟨fun _ hw hstate => absurd hstate (hcheck' hw), fun _ hall => ?_⟩
        rcases hleft with hstay | ⟨hleft, hqueue⟩
        · exact absurd (List.all_eq_true.1 hall _ (List.mem_set (List.getElem?_eq_some_iff.1 hi).1 _))
            (Bool.eq_false_iff.1 hstay)
        · exact hqueue.trans (h (all_left_set hi (.inl hleft) hall))
  | _ => exact ⟨fun _ => trivial, fun _ => h⟩

end Left

end TBBThreadExecutor

end AimRT.Executor
