import AimRT.Lib.Run

/-!
# The guard thread executor

`GuardThreadExecutor` with any number of calls of `Execute`, `Start` and `Shutdown` and its worker thread.  A call
takes one step for each access to what it shares with others: a load of `state_`, a change of `queue_task_num_`, the
part under the mutex.  The worker takes the whole queue under the mutex and runs it, and runs what is in the queue
once more behind `Shutdown`, without the mutex.

What is pushed is run once and in the order of the pushes, as long as nothing is pushed when the worker has looked at
the queue for the last time (`InTime`).  A call of `Execute` that has looked at `state_` before `Shutdown` came can be
later.
-/

namespace AimRT.Executor

open Lib.Run

variable {α : Type}

/-- `queue_threshold` and whether `threshold_alarm_interval_ms` is not negative. -/
structure GuardThreadOptions where
  queueThreshold : UInt32
  alarms : Bool
  deriving Repr

namespace GuardThreadExecutor

inductive State where
  | preInit
  | init
  | start
  | shutdown
  deriving DecidableEq, Repr

/-- A call that is under way, by its next step.  `Execute` loads `state_` twice, counts, and pushes or takes the count
back; `Shutdown` exchanges `state_`, notifies and joins. -/
inductive Call (α : Type) where
  | checkInit (task : α)
  | checkStart (task : α)
  | count (task : α)
  | uncount
  | push (task : α)
  | start
  | exchange
  | notify
  | join
  | returned
  deriving DecidableEq, Repr

/-- The worker thread, by its next step: the condition of its loop, `cond_.wait` and the swap, the wait itself, the loop
over the tasks it has taken, and the one behind `Shutdown`.  In `batchRun` and `drainRun` the task in front has been
called. -/
inductive Worker (α : Type) where
  | loop
  | lock
  | blocked
  | batch (tmpQueue : List α)
  | batchRun (tmpQueue : List α)
  | drain
  | drainRun
  | ended
  deriving DecidableEq, Repr

end GuardThreadExecutor

open GuardThreadExecutor

/-- The executor with its calls and its worker; `pushed` and `ran` are the tasks that were pushed and called so far. -/
structure GuardThreadExecutor (α : Type) where
  options : GuardThreadOptions
  state : State
  queueTaskNum : UInt32
  queue : List α
  worker : Worker α
  calls : List (Call α)
  pushed : List α
  ran : List α
  deriving Repr

namespace GuardThreadExecutor

/-- What `Initialize` leaves. -/
def init (options : GuardThreadOptions) : GuardThreadExecutor α where
  options := options
  state := .init
  queueTaskNum := 0
  queue := []
  worker := .loop
  calls := []
  pushed := []
  ran := []

/-- `--queue_task_num_`. -/
def uncount (y : GuardThreadExecutor α) : GuardThreadExecutor α := { y with queueTaskNum := y.queueTaskNum - 1 }

/-- `cond_.notify_one`: the worker looks at the queue again. -/
def notifyOne (y : GuardThreadExecutor α) : GuardThreadExecutor α :=
  match y.worker with
  | .blocked => { y with worker := .lock }
  | _ => y

/-- The next step of a call: where it is then, and what it has changed. -/
def callStep (y : GuardThreadExecutor α) : Call α → Call α × GuardThreadExecutor α
  | .checkInit task => (if y.state = .init then .count task else .checkStart task, y)
  | .checkStart task => (if y.state = .start then .count task else .returned, y)
  | .count task =>
    let curQueueTaskNum := y.queueTaskNum + 1
    (if y.options.alarms ∧ y.options.queueThreshold < curQueueTaskNum then .uncount else .push task,
      { y with queueTaskNum := curQueueTaskNum })
  | .uncount => (.returned, y.uncount)
  | .push task => (.returned, notifyOne { y with queue := y.queue ++ [task], pushed := y.pushed ++ [task] })
  | .start => (.returned, { y with state := .start })
  | .exchange => (if y.state = .shutdown then .returned else .notify, { y with state := .shutdown })
  | .notify => (.join, y.notifyOne)
  | .join =>
    match y.worker with
    | .ended => (.returned, y)
    | _ => (.join, y)
  | .returned => (.returned, y)

/-- The next step of the worker; `threw` says whether the task that runs ends with an exception. -/
def workerStep (y : GuardThreadExecutor α) (threw : Bool) : GuardThreadExecutor α :=
  match y.worker with
  | .loop => { y with worker := if y.state = .shutdown then .drain else .lock }
  | .lock =>
    if y.queue ≠ [] ∨ y.state = .shutdown then { y with worker := .batch y.queue, queue := [] }
    else { y with worker := .blocked }
  | .blocked => { y with worker := .lock }
  | .batch [] => { y with worker := .loop }
  | .batch (task :: tasks) => { y with worker := .batchRun (task :: tasks), ran := y.ran ++ [task] }
  | .batchRun tmpQueue =>
    let y := if threw then y else y.uncount
    { y with worker := .batch tmpQueue.tail }
  | .drain =>
    match y.queue with
    | [] => { y with worker := .ended }
    | task :: _ => { y with worker := .drainRun, ran := y.ran ++ [task] }
  | .drainRun =>
    let y := if threw then y else y.uncount
    { y with worker := .drain, queue := y.queue.tail }
  | .ended => y

/-- A call is made; a call takes its next step; the worker takes its next step (for one that waits, it wakes up for no
reason). -/
inductive Op (α : Type) where
  | execute (task : α)
  | start
  | shutdown
  | call (i : ℕ)
  | worker (threw : Bool)
  deriving Repr

def step (y : GuardThreadExecutor α) : Op α → GuardThreadExecutor α
  | .execute task => { y with calls := y.calls ++ [.checkInit task] }
  | .start => { y with calls := y.calls ++ [.start] }
  | .shutdown => { y with calls := y.calls ++ [.exchange] }
  | .call i =>
    match y.calls[i]? with
    | none => y
    | some c => { (y.callStep c).2 with calls := y.calls.set i (y.callStep c).1 }
  | .worker threw => y.workerStep threw

/-! ### What is promised -/

/-- **No task is lost**: the tasks that were pushed are run once each and in this order, all of them before the worker
ends. -/
structure NothingLost (y : GuardThreadExecutor α) : Prop where
  once : y.ran <+: y.pushed
  all : y.worker = .ended → y.ran = y.pushed

/-- No task is pushed when the worker has looked at the queue for the last time. -/
def InTime (y : GuardThreadExecutor α) : Op α → Prop
  | .call i => ∀ task, y.calls[i]? = some (.push task) → y.worker ≠ .ended
  | _ => True

/-! ### The invariant -/

/-- The tasks that the worker has taken and not called, and those in the queue. -/
def waiting (y : GuardThreadExecutor α) : List α :=
  match y.worker with
  | .batch tmpQueue => tmpQueue ++ y.queue
  | .batchRun tmpQueue => tmpQueue.tail ++ y.queue
  | .drainRun => y.queue.tail
  | _ => y.queue

/-- What was pushed was called or waits; a task that runs behind `Shutdown` is still in the queue. -/
structure Inv (y : GuardThreadExecutor α) : Prop where
  split : y.pushed = y.ran ++ y.waiting
  running : y.worker = .drainRun → y.queue ≠ []
  ended : y.worker = .ended → y.queue = []

variable {y : GuardThreadExecutor α}

theorem Inv.nothingLost (h : Inv y) : NothingLost y where
  once := ⟨y.waiting, h.split.symm⟩
  all := fun hended => by
    have hwaiting : y.waiting = [] := by
      rw [waiting, hended]
      exact h.ended hended
    rw [h.split, hwaiting, List.append_nil]

theorem inv_init (options : GuardThreadOptions) : Inv (init (α := α) options) where
  split := rfl
  running := nofun
  ended := nofun

/-- A change that leaves the tasks and the worker as they are. -/
theorem Inv.congr {y' : GuardThreadExecutor α} (h : Inv y) (hqueue : y'.queue = y.queue)
    (hworker : y'.worker = y.worker) (hpushed : y'.pushed = y.pushed) (hran : y'.ran = y.ran) : Inv y' where
  split := by
    rw [hpushed, hran, h.split, waiting, waiting, hworker, hqueue]
  running := by
    rw [hworker, hqueue]
    exact h.running
  ended := by
    rw [hworker, hqueue]
    exact h.ended

theorem Inv.uncount (h : Inv y) : Inv y.uncount := h.congr rfl rfl rfl rfl

theorem Inv.notifyOne (h : Inv y) : Inv y.notifyOne := by
  have hsplit := h.split
  unfold GuardThreadExecutor.notifyOne
  unfold waiting at hsplit
  split
  · rename_i hworker
    rw [hworker] at hsplit
    exact ⟨hsplit, nofun, nofun⟩
  · exact h

/-- A task is pushed as long as the worker will look at the queue again. -/
theorem Inv.push (h : Inv y) (hworker : y.worker ≠ .ended) (task : α) :
    Inv { y with queue := y.queue ++ [task], pushed := y.pushed ++ [task] } where
  split := by
    show y.pushed ++ [task] = y.ran ++ _
    rw [h.split, List.append_assoc]
    refine congrArg (y.ran ++ ·) ?_
    have hrunning := h.running
    simp only [waiting]
    cases hplace : y.worker with
    | batch tmpQueue => simp
    | batchRun tmpQueue => simp
    | drainRun => rw [List.tail_append_of_ne_nil (hrunning hplace)]
    | _ => rfl
  running := fun _ => by simp
  ended := fun hended => absurd hended hworker

theorem Inv.callStep (h : Inv y) (c : Call α) (htime : ∀ task, c = .push task → y.worker ≠ .ended) :
    Inv (y.callStep c).2 := by
  cases c with
  | push task => exact (h.push (htime task rfl) task).notifyOne
  | notify => exact h.notifyOne
  | join =>
    simp only [GuardThreadExecutor.callStep]
    split <;> exact h
  | count task => exact h.congr rfl rfl rfl rfl
  | uncount => exact h.uncount
  | start | exchange => exact h.congr rfl rfl rfl rfl
  | checkInit | checkStart | returned => exact h

theorem Inv.workerStep (h : Inv y) (threw : Bool) : Inv (y.workerStep threw) := by
  have hsplit := h.split
  have hrunning := h.running
  unfold waiting at hsplit
  unfold GuardThreadExecutor.workerStep
  split <;> rename_i hworker <;> rw [hworker] at hsplit
  case h_1 =>
    show Inv { y with worker := if y.state = .shutdown then .drain else .lock }
    split_ifs
    · exact ⟨hsplit, nofun, nofun⟩
    · exact ⟨hsplit, nofun, nofun⟩
  case h_2 =>
    split_ifs
    · refine ⟨?_, nofun, nofun⟩
      show y.pushed = y.ran ++ (y.queue ++ [])
      rw [List.append_nil]
      exact hsplit
    · exact ⟨hsplit, nofun, nofun⟩
  case h_3 => exact ⟨hsplit, nofun, nofun⟩
  case h_4 => exact ⟨hsplit, nofun, nofun⟩
  case h_5 task tasks =>
    refine ⟨?_, nofun, nofun⟩
    rw [hsplit, waiting, List.append_assoc]
    rfl
  case h_6 tmpQueue =>
    have hbatch : Inv { y with worker := .batch tmpQueue.tail } := ⟨hsplit, nofun, nofun⟩
    cases threw with
    | true => exact hbatch
    | false => exact hbatch.uncount
  case h_7 =>
    split <;> rename_i hqueue
    · exact ⟨hsplit, nofun, fun _ => hqueue⟩
    · refine ⟨?_, fun _ => by simp [hqueue], nofun⟩
      show y.pushed = y.ran ++ [_] ++ y.queue.tail
      rw [hsplit, hqueue, List.append_assoc]
      rfl
  case h_8 =>
    have hdrain : Inv { y with worker := .drain, queue := y.queue.tail } := ⟨hsplit, nofun, nofun⟩
    cases threw with
    | true => exact hdrain
    | false => exact hdrain.uncount
  case h_9 => exact h

theorem Inv.step (h : Inv y) {op : Op α} (htime : InTime y op) : Inv (y.step op) := by
  cases op with
  | execute | start | shutdown => exact h.congr rfl rfl rfl rfl
  | worker threw => exact h.workerStep threw
  | call i =>
    cases hc : y.calls[i]? with
    | none =>
      simp only [GuardThreadExecutor.step, hc]
      exact h
    | some c =>
      simp only [GuardThreadExecutor.step, hc]
      exact (h.callStep c fun task heq => htime task (heq ▸ hc)).congr rfl rfl rfl rfl

/-- A task that is pushed behind the worker's last look is lost. -/
theorem Inv.inTime (h : Inv y) {op : Op α} (hlost : NothingLost (y.step op)) : InTime y op := by
  cases op with
  | call i =>
    intro task hc hended
    have hsplit := h.split
    rw [waiting, hended] at hsplit
    have hstep : (y.step (.call i)).worker = .ended ∧ (y.step (.call i)).ran = y.ran ∧
        (y.step (.call i)).pushed = y.pushed ++ [task] := by
      simp [GuardThreadExecutor.step, hc, GuardThreadExecutor.callStep, GuardThreadExecutor.notifyOne, hended]
    have hall := hlost.all hstep.1
    rw [hstep.2.1, hstep.2.2, hsplit, h.ended hended] at hall
    simp at hall
  | execute | start | shutdown | worker => trivial

/-- **No task is lost in any state of a run if and only if none is pushed behind the worker's last look at the
queue.** -/
theorem nothingLost_iff (options : GuardThreadOptions) (ops : List (Op α)) :
    AllHold step NothingLost (init options) ops ↔ AllMeet step InTime (init options) ops :=
  allHold_iff_allMeet Inv Inv.nothingLost (fun h _ htime => h.step htime) (fun h _ hlost => h.inTime hlost)
    (inv_init options) ops

/-- A threshold of two tasks. -/
def options2 : GuardThreadOptions := { queueThreshold := 2, alarms := true }

/-- `Shutdown` comes between the look at `state_` and the push. -/
def lateRun : List (Op ℕ) :=
  [.execute 7, .call 0, .call 0, .shutdown, .call 1, .worker false, .worker false, .call 0]

theorem not_nothingLost : ¬ AllHold step NothingLost (init options2) lateRun := by
  intro h
  exact absurd (h.last.all rfl) (by decide)

end GuardThreadExecutor

end AimRT.Executor
