import AimRT.Lib.Places
import AimRT.Lib.Run

/-!
# The message handles of the mqtt plugin

The client library passes each message with its topic to `OnMsgRecv`, which has to free both.  `HandleServerMsg` looks
for the handle of the topic and calls it, or passes it to the executor that the options name; then the task calls the
handle and frees the message, and `OnMsgRecv` does not.

Messages come at any time, each goes through `HandleServerMsg` step by step, and so does its task, while others register
handles, get the executor, shut the registry down, or wait in `WaitForAllTasks`.

* `freed_once_run`: no message is freed twice, none is handled twice, and none is handled behind its end;
* `all_freed_iff`: with an executor it is freed exactly if it has come between `InitExecutor` and `Shutdown`, its topic
  has a handle, the executor takes the task and the handle does not throw;
* `activeTasks_run`: a task that the executor does not take, or whose handle throws, is active for ever;
* `waiting_run`: nobody waits in `WaitForAllTasks` without a task that will notify it.
-/

namespace AimRT.Mqtt

open Lib.Places Lib.Run

variable {H : Type}

namespace MsgHandleRegistry

/-! ### The code -/

/-- Where `OnMsgRecv` is with a message; `free` is behind the test of `callback_executor_name`. -/
inductive Recv (H : Type) where
  | loadFlag
  | findHandle
  | countTask (handle : H)
  | execute (handle : H)
  | callHandle (handle : H)
  | checkName
  | free
  | returned
  deriving DecidableEq, Repr

/-- Where its task is; `refused` is a task that the executor has not taken. -/
inductive Task (H : Type) where
  | none
  | refused
  | callHandle (handle : H)
  | free
  | uncount
  | notify
  | done
  | threw
  deriving DecidableEq, Repr

structure Message (H : Type) where
  topic : String
  recv : Recv H
  task : Task H
  /-- The handles that were called with it. -/
  handled : List H
  /-- How often it was freed. -/
  freed : ℕ
  deriving DecidableEq, Repr

/-- Where a call of `WaitForAllTasks` is. -/
inductive Waiter where
  | load
  | lock
  | waiting
  | returned
  deriving DecidableEq, Repr

end MsgHandleRegistry

open MsgHandleRegistry

/-- `named` is that `callback_executor_name` is not empty. -/
structure MsgHandleRegistry (H : Type) where
  named : Bool
  executor : Bool
  shutdownFlag : Bool
  msgHandleMap : List (String × H)
  activeTasks : ℤ
  messages : List (Message H)
  waiters : List Waiter
  deriving DecidableEq, Repr

namespace MsgHandleRegistry

def init (named : Bool) : MsgHandleRegistry H := ⟨named, false, false, [], 0, [], []⟩

def find (r : MsgHandleRegistry H) (topic : String) : Option H :=
  (r.msgHandleMap.find? fun entry => entry.1 == topic).map Prod.snd

/-- `RegisterMsgHandle`: the first handle of a topic stays. -/
def registerMsgHandle (r : MsgHandleRegistry H) (topic : String) (handle : H) : MsgHandleRegistry H :=
  match r.find topic with
  | none => { r with msgHandleMap := r.msgHandleMap ++ [(topic, handle)] }
  | some _ => r

/-- The hook that calls `InitExecutor`, if there is a name. -/
def initExecutor (r : MsgHandleRegistry H) : MsgHandleRegistry H := if r.named then { r with executor := true } else r

/-- The next step of `OnMsgRecv` with a message, and what becomes of `active_tasks_`.  The executor takes the task if
`taken`; what a handle throws is caught. -/
def recvStep (r : MsgHandleRegistry H) (taken : Bool) (m : Message H) : Message H × ℤ :=
  match m.recv with
  | .loadFlag => ({ m with recv := if r.shutdownFlag then .checkName else .findHandle }, r.activeTasks)
  | .findHandle =>
    match r.find m.topic with
    | none => ({ m with recv := .checkName }, r.activeTasks)
    | some handle => ({ m with recv := if r.executor then .countTask handle else .callHandle handle }, r.activeTasks)
  | .countTask handle => ({ m with recv := .execute handle }, r.activeTasks + 1)
  | .execute handle =>
    ({ m with recv := .checkName, task := if taken then .callHandle handle else .refused }, r.activeTasks)
  | .callHandle handle => ({ m with recv := .checkName, handled := m.handled ++ [handle] }, r.activeTasks)
  | .checkName => ({ m with recv := if r.named then .returned else .free }, r.activeTasks)
  | .free => ({ m with recv := .returned, freed := m.freed + 1 }, r.activeTasks)
  | .returned => (m, r.activeTasks)

/-- The next step of the task. -/
def taskStep (r : MsgHandleRegistry H) (threw : Bool) (m : Message H) : Message H × ℤ :=
  match m.task with
  | .callHandle handle =>
    ({ m with task := if threw then .threw else .free, handled := m.handled ++ [handle] }, r.activeTasks)
  | .free => ({ m with task := .uncount, freed := m.freed + 1 }, r.activeTasks)
  | .uncount => ({ m with task := if r.activeTasks - 1 = 0 then .notify else .done }, r.activeTasks - 1)
  | .notify => ({ m with task := .done }, r.activeTasks)
  | _ => (m, r.activeTasks)

/-- `notify_all`. -/
def Waiter.woken : Waiter → Waiter
  | .waiting => .lock
  | w => w

/-- The next step of `WaitForAllTasks`; with the mutex it looks at `active_tasks_` and begins to wait at once. -/
def waiterStep (r : MsgHandleRegistry H) : Waiter → Waiter
  | .load => if r.activeTasks = 0 then .returned else .lock
  | .lock => if r.activeTasks = 0 then .returned else .waiting
  | w => w

def notifies (m : Message H) : Bool :=
  match m.task with
  | .notify => true
  | _ => false

inductive Op (H : Type) where
  | register (topic : String) (handle : H)
  | initExecutor
  | shutdown
  | receive (topic : String)
  | recv (i : ℕ) (taken : Bool)
  | task (i : ℕ) (threw : Bool)
  | wait
  | waiter (i : ℕ)
  | wake (i : ℕ)
  deriving DecidableEq, Repr

/-- A message goes on. -/
def go (r : MsgHandleRegistry H) (i : ℕ) (next : Message H × ℤ) : MsgHandleRegistry H :=
  { r with messages := r.messages.set i next.1, activeTasks := next.2 }

def step (r : MsgHandleRegistry H) : Op H → MsgHandleRegistry H
  | .register topic handle => r.registerMsgHandle topic handle
  | .initExecutor => r.initExecutor
  | .shutdown => { r with shutdownFlag := true }
  | .receive topic => { r with messages := r.messages ++ [⟨topic, .loadFlag, .none, [], 0⟩] }
  | .recv i taken =>
    match r.messages[i]? with
    | none => r
    | some m => r.go i (r.recvStep taken m)
  | .task i threw =>
    match r.messages[i]? with
    | none => r
    | some m =>
      let r' := r.go i (r.taskStep threw m)
      if notifies m then { r' with waiters := r'.waiters.map Waiter.woken } else r'
  | .wait => { r with waiters := r.waiters ++ [.load] }
  | .waiter i =>
    match r.waiters[i]? with
    | none => r
    | some w => { r with waiters := r.waiters.set i (r.waiterStep w) }
  | .wake i =>
    match r.waiters[i]? with
    | none => r
    | some w => { r with waiters := r.waiters.set i w.woken }

def run (named : Bool) (ops : List (Op H)) : MsgHandleRegistry H := ops.foldl step (init named)

/-! ### One message -/

/-- `OnMsgRecv` is inside of `HandleServerMsg`. -/
def Recv.early : Recv H → Bool
  | .checkName => false
  | .free => false
  | .returned => false
  | _ => true

/-- The handle that is still to be called. -/
def Recv.handle? : Recv H → Option H
  | .countTask handle => some handle
  | .execute handle => some handle
  | .callHandle handle => some handle
  | _ => Option.none

def Task.handle? : Task H → Option H
  | .callHandle handle => some handle
  | _ => Option.none

/-- How often `OnMsgRecv` has freed the message. -/
def Recv.freed (named : Bool) : Recv H → ℕ
  | .returned => if named then 0 else 1
  | _ => 0

/-- How often the task has freed the message. -/
def Task.freed : Task H → ℕ
  | .uncount => 1
  | .notify => 1
  | .done => 1
  | _ => 0

/-- `OnMsgRecv` comes to its `free`, or to a task, only without and with a name. -/
def Recv.named (named : Bool) : Recv H → Prop
  | .countTask _ => named = true
  | .execute _ => named = true
  | .free => named = false
  | _ => True

structure Message.Ok (r : MsgHandleRegistry H) (m : Message H) : Prop where
  task : m.recv.early = true → m.task = .none
  recvNamed : m.recv.named r.named
  taskNamed : m.task ≠ .none → r.named = true
  freed : m.freed = m.recv.freed r.named + m.task.freed
  handled : m.handled.length ≤ 1
  notHandled : m.recv.early = true ∨ m.task.handle?.isSome = true → m.handled = []
  handle : ∀ {handle : H}, m.recv.handle? = some handle ∨ m.task.handle? = some handle ∨ handle ∈ m.handled →
    r.find m.topic = some handle

section Message

variable {r r' : MsgHandleRegistry H} {m : Message H} {topic : String} {handle : H}

/-- Of the registry a message sees the name and the handle of its topic. -/
theorem Message.Ok.mono (h : m.Ok r) (hnamed : r'.named = r.named)
    (hfind : ∀ {handle}, r.find m.topic = some handle → r'.find m.topic = some handle) : m.Ok r' := by
  refine ⟨h.task, ?_, fun hne => ?_, ?_, h.handled, h.notHandled, fun hhandle => hfind (h.handle hhandle)⟩
  · rw [hnamed]
    exact h.recvNamed
  · rw [hnamed]
    exact h.taskNamed hne
  · rw [hnamed]
    exact h.freed

theorem ok_of_eq {l : List (Message H)} (h : ∀ m ∈ l, m.Ok r) (hnamed : r'.named = r.named)
    (hmap : r'.msgHandleMap = r.msgHandleMap) : ∀ m ∈ l, m.Ok r' := fun m hm =>
  (h m hm).mono hnamed fun hfind => by
    rw [find, hmap]
    exact hfind

theorem find_register (hfind : r.find topic = some handle) (topic' : String) (handle' : H) :
    (r.registerMsgHandle topic' handle').find topic = some handle := by
  unfold registerMsgHandle
  split
  · obtain ⟨entry, hentry, hsnd⟩ := Option.map_eq_some_iff.1 hfind
    show ((r.msgHandleMap ++ [(topic', handle')]).find? _).map Prod.snd = some handle
    rw [List.find?_append, hentry]
    exact congrArg some hsnd
  · exact hfind

theorem named_register (topic' : String) (handle' : H) : (r.registerMsgHandle topic' handle').named = r.named := by
  unfold registerMsgHandle
  split <;> rfl

/-- `OnMsgRecv` goes on, and does nothing to the message. -/
theorem Message.Ok.recv (h : m.Ok r) {recv : Recv H} (hearly : recv.early = true → m.recv.early = true)
    (hnamed : recv.named r.named) (hfreed : recv.freed r.named = m.recv.freed r.named)
    (hhandle : ∀ {handle : H}, recv.handle? = some handle → r.find m.topic = some handle) :
    ({ m with recv := recv } : Message H).Ok r := by
  refine ⟨fun he => h.task (hearly he), hnamed, h.taskNamed, ?_, h.handled, fun he => ?_, fun hh => ?_⟩
  · show m.freed = recv.freed r.named + m.task.freed
    rw [hfreed]
    exact h.freed
  · exact h.notHandled (he.imp_left hearly)
  · rcases hh with hh | hh
    · exact hhandle hh
    · exact h.handle (.inr hh)

/-- The task goes on, and does nothing to the message. -/
theorem Message.Ok.taskStep (h : m.Ok r) {task : Task H} (hearly : m.recv.early = false) (hne : m.task ≠ .none)
    (hfreed : task.freed = m.task.freed) (hhandle : task.handle? = none) :
    ({ m with task := task } : Message H).Ok r := by
  refine ⟨fun he => ?_, h.recvNamed, fun _ => h.taskNamed hne, ?_, h.handled, fun he => ?_, fun hh => ?_⟩
  · rw [hearly] at he
    cases he
  · show m.freed = m.recv.freed r.named + task.freed
    rw [hfreed]
    exact h.freed
  · rcases he with he | he
    · exact h.notHandled (.inl he)
    · rw [hhandle] at he
      cases he
  · rcases hh with hh | hh | hh
    · exact h.handle (.inl hh)
    · rw [hhandle] at hh
      cases hh
    · exact h.handle (.inr (.inr hh))

/-- A message that is behind `HandleServerMsg` with its task, or has none yet. -/
theorem Message.Ok.early_eq_false (h : m.Ok r) (hne : m.task ≠ .none) : m.recv.early = false :=
  Bool.eq_false_iff.2 fun he => hne (h.task he)

theorem ok_recvStep (h : m.Ok r) (hexecutor : r.executor = true → r.named = true) (taken : Bool) :
    (r.recvStep taken m).1.Ok r := by
  obtain ⟨topic, recv, task, handled, freed⟩ := m
  cases recv with
  | loadFlag =>
    unfold recvStep
    dsimp only
    split_ifs
    · exact h.recv nofun trivial rfl nofun
    · exact h.recv (fun _ => rfl) trivial rfl nofun
  | findHandle =>
    unfold recvStep
    cases hfind : r.find topic with
    | none =>
      exact h.recv nofun trivial rfl nofun
    | some handle =>
      dsimp only
      split_ifs with hex
      · exact h.recv (fun _ => rfl) (hexecutor hex) rfl fun hh => hfind.trans hh
      · exact h.recv (fun _ => rfl) trivial rfl fun hh => hfind.trans hh
  | countTask handle => exact h.recv (fun _ => rfl) h.recvNamed rfl fun hh => h.handle (.inl hh)
  | execute handle =>
    obtain rfl : task = .none := h.task rfl
    have hfind : r.find topic = some handle := h.handle (.inl rfl)
    have hempty : handled = [] := h.notHandled (.inl rfl)
    unfold recvStep
    dsimp only
    split_ifs
    · refine ⟨nofun, trivial, fun _ => h.recvNamed, h.freed, h.handled, fun _ => hempty, fun hh => ?_⟩
      rcases hh with hh | hh | hh
      · cases hh
      · exact hfind.trans hh
      · exact h.handle (.inr (.inr hh))
    · refine ⟨nofun, trivial, fun _ => h.recvNamed, h.freed, h.handled, fun _ => hempty, fun hh => ?_⟩
      rcases hh with hh | hh | hh
      · cases hh
      · cases hh
      · exact h.handle (.inr (.inr hh))
  | callHandle handle =>
    obtain rfl : task = .none := h.task rfl
    have hfind : r.find topic = some handle := h.handle (.inl rfl)
    obtain rfl : handled = [] := h.notHandled (.inl rfl)
    refine ⟨nofun, trivial, nofun, h.freed, le_rfl, fun he => ?_, fun hh => ?_⟩
    · rcases he with he | he
      · cases he
      · cases he
    · rcases hh with hh | hh | hh
      · cases hh
      · cases hh
      · rwa [List.mem_singleton.1 hh]
  | checkName =>
    unfold recvStep
    dsimp only
    split_ifs with hnamed
    · refine h.recv nofun trivial ?_ nofun
      rw [hnamed]
      rfl
    · exact h.recv nofun (Bool.eq_false_iff.2 hnamed) rfl nofun
  | free =>
    have hnamed : r.named = false := h.recvNamed
    refine ⟨nofun, trivial, h.taskNamed, ?_, h.handled, fun he => ?_, fun hh => ?_⟩
    · show freed + 1 = Recv.freed r.named .returned + task.freed
      have hfreed : freed = 0 + task.freed := h.freed
      rw [hnamed, hfreed, Nat.zero_add, Nat.add_comm]
      rfl
    · exact h.notHandled (he.resolve_left nofun |> .inr)
    · exact h.handle (hh.resolve_left nofun |> .inr)
  | returned => exact h

theorem ok_taskStep (h : m.Ok r) (threw : Bool) : (r.taskStep threw m).1.Ok r := by
  obtain ⟨topic, recv, task, handled, freed⟩ := m
  cases task with
  | callHandle handle =>
    have hearly := h.early_eq_false nofun
    have hfind : r.find topic = some handle := h.handle (.inr (.inl rfl))
    obtain rfl : handled = [] := h.notHandled (.inr rfl)
    have hhandle : ∀ {task : Task H}, task.freed = 0 → task.handle? = none →
        Message.Ok r ⟨topic, recv, task, [handle], freed⟩ := by
      intro task hfreed hnone
      refine ⟨fun he => ?_, h.recvNamed, fun _ => h.taskNamed nofun, ?_, le_rfl, fun he => ?_, fun hh => ?_⟩
      · rw [show recv.early = false from hearly] at he
        cases he
      · show freed = recv.freed r.named + task.freed
        rw [hfreed]
        exact h.freed
      · rcases he with he | he
        · rw [show recv.early = false from hearly] at he
          cases he
        · rw [show task.handle? = none from hnone] at he
          cases he
      · rcases hh with hh | hh | hh
        · exact h.handle (.inl hh)
        · rw [show task.handle? = none from hnone] at hh
          cases hh
        · rwa [List.mem_singleton.1 hh]
    unfold MsgHandleRegistry.taskStep
    dsimp only
    split_ifs
    · exact hhandle rfl rfl
    · exact hhandle rfl rfl
  | free =>
    have hearly := h.early_eq_false nofun
    refine ⟨fun he => ?_, h.recvNamed, fun _ => h.taskNamed nofun, ?_, h.handled, fun he => ?_, fun hh => ?_⟩
    · exact absurd he (Bool.eq_false_iff.1 hearly)
    · show freed + 1 = recv.freed r.named + 1
      exact congrArg (· + 1) h.freed
    · exact h.notHandled he
    · exact h.handle hh
  | uncount =>
    unfold MsgHandleRegistry.taskStep
    dsimp only
    split_ifs
    · exact h.taskStep (h.early_eq_false nofun) nofun rfl rfl
    · exact h.taskStep (h.early_eq_false nofun) nofun rfl rfl
  | notify => exact h.taskStep (h.early_eq_false nofun) nofun rfl rfl
  | none => exact h
  | refused => exact h
  | done => exact h
  | threw => exact h

theorem Message.Ok.freed_le (h : m.Ok r) : m.freed ≤ 1 := by
  rw [h.freed]
  cases hnamed : r.named with
  | true =>
    have hzero : m.recv.freed true = 0 := by cases m.recv <;> rfl
    rw [hzero, Nat.zero_add]
    cases m.task <;> simp [Task.freed]
  | false =>
    have hnone : m.task = .none := by
      by_contra hne
      have htrue := h.taskNamed hne
      rw [hnamed] at htrue
      cases htrue
    rw [hnone]
    cases m.recv <;> simp [Recv.freed, Task.freed]

/-- The handle is called with a message that is there. -/
theorem Message.Ok.freed_eq_zero (h : m.Ok r) (hhandle : m.recv = .callHandle handle ∨ m.task = .callHandle handle) :
    m.freed = 0 := by
  rw [h.freed]
  rcases hhandle with hrecv | htask
  · have hnone : m.task = .none := h.task (by rw [hrecv]; rfl)
    rw [hrecv, hnone]
    rfl
  · have hnamed : r.named = true := h.taskNamed (by rw [htask]; nofun)
    rw [htask, hnamed]
    cases m.recv <;> rfl

end Message

/-! ### The tasks that are counted -/

def Recv.counted : Recv H → Bool
  | .execute _ => true
  | _ => false

def Task.counted : Task H → Bool
  | .refused => true
  | .callHandle _ => true
  | .free => true
  | .uncount => true
  | .threw => true
  | _ => false

/-- The message has been counted by `active_tasks_`, and not counted down. -/
def counted (m : Message H) : Bool := m.recv.counted || m.task.counted

structure Inv (r : MsgHandleRegistry H) : Prop where
  executor : r.executor = true → r.named = true
  messages : ∀ m ∈ r.messages, m.Ok r
  active : r.activeTasks = r.messages.countP counted
  waits : .waiting ∈ r.waiters → r.activeTasks ≠ 0 ∨ 0 < r.messages.countP notifies

section Inv

variable {r : MsgHandleRegistry H} {m : Message H} {i : ℕ}

theorem inv_init (named : Bool) : Inv (init named : MsgHandleRegistry H) :=
  ⟨nofun, nofun, rfl, nofun⟩

theorem Message.Ok.activeTasks_recvStep (h : m.Ok r) (taken : Bool) :
    (r.recvStep taken m).2 + (if counted m then 1 else 0) =
      r.activeTasks + if counted (r.recvStep taken m).1 then 1 else 0 := by
  obtain ⟨topic, recv, task, handled, freed⟩ := m
  cases recv with
  | loadFlag =>
    unfold recvStep
    dsimp only
    cases r.shutdownFlag <;> rfl
  | findHandle =>
    unfold recvStep
    cases r.find topic with
    | none => rfl
    | some handle =>
      dsimp only
      cases r.executor <;> rfl
  | countTask handle =>
    obtain rfl : task = .none := h.task rfl
    exact Int.add_assoc _ _ _
  | execute handle => cases taken <;> rfl
  | checkName =>
    unfold recvStep
    dsimp only
    cases r.named <;> rfl
  | callHandle handle => rfl
  | free => rfl
  | returned => rfl

theorem activeTasks_taskStep (hearly : m.task ≠ .none → m.recv.early = false) (threw : Bool) :
    (r.taskStep threw m).2 + (if counted m then 1 else 0) =
      r.activeTasks + if counted (r.taskStep threw m).1 then 1 else 0 := by
  obtain ⟨topic, recv, task, handled, freed⟩ := m
  cases task with
  | callHandle handle => cases threw <;> cases recv <;> rfl
  | free => cases recv <;> rfl
  | uncount =>
    have hrecv : recv.counted = false := by
      have hearly' : recv.early = false := hearly nofun
      cases recv with
      | execute handle => cases hearly'
      | _ => rfl
    have hnext : (if r.activeTasks - 1 = 0 then Task.notify else Task.done (H := H)).counted = false := by
      split_ifs <;> rfl
    show r.activeTasks - 1 + (if (recv.counted || true) = true then 1 else 0) = r.activeTasks +
      if (recv.counted || (if r.activeTasks - 1 = 0 then Task.notify else Task.done).counted) = true then 1 else 0
    rw [hrecv, hnext]
    exact (Int.sub_add_cancel _ 1).trans (Int.add_zero _).symm
  | notify => cases recv <;> rfl
  | _ => rfl

/-- A message goes on, and the one that is counted with it. -/
theorem Inv.active_go (h : Inv r) (hi : r.messages[i]? = some m) {next : Message H × ℤ}
    (hnext : next.2 + (if counted m then 1 else 0) = r.activeTasks + if counted next.1 then 1 else 0) :
    (r.go i next).activeTasks = (r.go i next).messages.countP counted := by
  have hcount := countP_set (q := next.1) counted hi
  have hactive := h.active
  show next.2 = ((r.messages.set i next.1).countP counted : ℤ)
  cases hm : counted m <;> cases hm' : counted next.1 <;>
    simp only [hm, hm', if_true, if_false, Bool.false_eq_true] at * <;> omega

theorem notifies_recvStep (h : m.Ok r) (taken : Bool) : notifies (r.recvStep taken m).1 = notifies m := by
  obtain ⟨topic, recv, task, handled, freed⟩ := m
  cases recv with
  | findHandle =>
    unfold recvStep
    cases r.find topic <;> rfl
  | execute handle =>
    obtain rfl : task = .none := h.task rfl
    cases taken <;> rfl
  | _ => rfl

theorem le_activeTasks_recvStep (taken : Bool) (m : Message H) : r.activeTasks ≤ (r.recvStep taken m).2 := by
  obtain ⟨topic, recv, task, handled, freed⟩ := m
  cases recv with
  | findHandle =>
    unfold recvStep
    cases r.find topic <;> exact le_rfl
  | countTask handle => exact Int.le_add_one le_rfl
  | _ => exact le_rfl

/-- `active_tasks_` becomes zero only in front of a `notify`, and a message leaves its `notify` only by that. -/
theorem notifies_taskStep (hm : notifies m = false) (threw : Bool) :
    (r.taskStep threw m).2 = r.activeTasks ∨ (r.taskStep threw m).2 ≠ 0 ∨
      notifies (r.taskStep threw m).1 = true := by
  obtain ⟨topic, recv, task, handled, freed⟩ := m
  cases task with
  | uncount =>
    by_cases hzero : r.activeTasks - 1 = 0
    · refine .inr (.inr ?_)
      unfold taskStep
      dsimp only
      rw [if_pos hzero]
      rfl
    · exact .inr (.inl hzero)
  | _ => exact .inl rfl

theorem Inv.recv (h : Inv r) (hi : r.messages[i]? = some m) (taken : Bool) : Inv (r.go i (r.recvStep taken m)) := by
  have hok := h.messages m (List.mem_of_getElem? hi)
  have hmessages : ∀ x ∈ r.messages.set i (r.recvStep taken m).1, x.Ok r :=
    forall_mem_set h.messages (ok_recvStep hok h.executor taken)
  refine ⟨h.executor, ok_of_eq hmessages rfl rfl, h.active_go hi (hok.activeTasks_recvStep taken), fun hmem => ?_⟩
  show (r.recvStep taken m).2 ≠ 0 ∨ 0 < (r.messages.set i (r.recvStep taken m).1).countP notifies
  rw [countP_set_of_eq notifies hi (notifies_recvStep hok taken)]
  refine (h.waits hmem).imp_left fun hne => ?_
  have hle := le_activeTasks_recvStep (r := r) taken m
  have hactive := h.active
  omega

theorem Inv.task (h : Inv r) (hi : r.messages[i]? = some m) (threw : Bool) : Inv (r.step (.task i threw)) := by
  have hok := h.messages m (List.mem_of_getElem? hi)
  have hmessages : ∀ x ∈ r.messages.set i (r.taskStep threw m).1, x.Ok r :=
    forall_mem_set h.messages (ok_taskStep hok threw)
  have hactive := h.active_go hi (activeTasks_taskStep (r := r) hok.early_eq_false threw)
  simp only [MsgHandleRegistry.step, hi]
  split_ifs with hnotifies
  · refine ⟨h.executor, ok_of_eq hmessages rfl rfl, hactive, fun hmem => ?_⟩
    obtain ⟨w, -, hw⟩ := List.mem_map.1 hmem
    cases w <;> cases hw
  · have hm : notifies m = false := Bool.eq_false_iff.2 hnotifies
    refine ⟨h.executor, ok_of_eq hmessages rfl rfl, hactive, fun hmem => ?_⟩
    show (r.taskStep threw m).2 ≠ 0 ∨ 0 < (r.messages.set i (r.taskStep threw m).1).countP notifies
    have hcount := countP_set (q := (r.taskStep threw m).1) notifies hi
    rw [hm] at hcount
    have hmore : r.messages.countP notifies ≤ (r.messages.set i (r.taskStep threw m).1).countP notifies :=
      (Nat.le_add_right _ _).trans_eq hcount.symm
    rcases notifies_taskStep (r := r) hm threw with heq | hne | hnotify
    · rw [heq]
      exact (h.waits hmem).imp_right fun hpos => hpos.trans_le hmore
    · exact .inl hne
    · rw [hnotify] at hcount
      exact .inr ((Nat.zero_lt_succ _).trans_eq hcount.symm)

theorem Inv.step (h : Inv r) (op : Op H) : Inv (r.step op) := by
  cases op with
  | register topic handle =>
    have hmono : ∀ m ∈ r.messages, m.Ok (r.registerMsgHandle topic handle) := fun m hm =>
      (h.messages m hm).mono (named_register topic handle) fun hfind => find_register hfind topic handle
    show Inv (r.registerMsgHandle topic handle)
    unfold registerMsgHandle at hmono ⊢
    split
    · rename_i hfind
      simp only [hfind] at hmono
      exact ⟨h.executor, hmono, h.active, h.waits⟩
    · exact h
  | initExecutor =>
    show Inv r.initExecutor
    unfold MsgHandleRegistry.initExecutor
    split_ifs with hnamed
    · exact ⟨fun _ => hnamed, ok_of_eq h.messages rfl rfl, h.active, h.waits⟩
    · exact h
  | shutdown => exact ⟨h.executor, ok_of_eq h.messages rfl rfl, h.active, h.waits⟩
  | receive topic =>
    refine ⟨h.executor, fun m hm => ?_, ?_, fun hmem => (h.waits hmem).imp_right fun hpos => ?_⟩
    · rcases List.mem_append.1 hm with hm | hm
      · exact (h.messages m hm).mono rfl fun hfind => hfind
      · rw [List.mem_singleton.1 hm]
        refine ⟨fun _ => rfl, trivial, nofun, rfl, Nat.zero_le 1, fun _ => rfl, fun hh => ?_⟩
        rcases hh with hh | hh | hh <;> cases hh
    · show r.activeTasks = ((r.messages ++ [_]).countP counted : ℕ)
      rw [List.countP_append]
      exact h.active
    · show 0 < (r.messages ++ [_]).countP notifies
      rw [List.countP_append]
      exact hpos
  | recv i taken =>
    cases hi : r.messages[i]? with
    | none =>
      simp only [MsgHandleRegistry.step, hi]
      exact h
    | some m =>
      simp only [MsgHandleRegistry.step, hi]
      exact h.recv hi taken
  | task i threw =>
    cases hi : r.messages[i]? with
    | none =>
      simp only [MsgHandleRegistry.step, hi]
      exact h
    | some m => exact h.task hi threw
  | wait =>
    refine ⟨h.executor, ok_of_eq h.messages rfl rfl, h.active, fun hmem => h.waits ?_⟩
    exact (List.mem_append.1 hmem).resolve_right fun hnew => by cases List.mem_singleton.1 hnew
  | waiter i =>
    cases hi : r.waiters[i]? with
    | none =>
      simp only [MsgHandleRegistry.step, hi]
      exact h
    | some w =>
      simp only [MsgHandleRegistry.step, hi]
      refine ⟨h.executor, ok_of_eq h.messages rfl rfl, h.active, fun hmem => ?_⟩
      by_cases hzero : r.activeTasks = 0
      · refine h.waits ((List.mem_or_eq_of_mem_set hmem).elim id fun heq => ?_)
        -- with no task nobody begins to wait
        cases w with
        | waiting => exact List.mem_of_getElem? hi
        | returned => cases heq
        | load =>
          rw [show r.waiterStep .load = .returned from if_pos hzero] at heq
          cases heq
        | lock =>
          rw [show r.waiterStep .lock = .returned from if_pos hzero] at heq
          cases heq
      · exact .inl hzero
  | wake i =>
    cases hi : r.waiters[i]? with
    | none =>
      simp only [MsgHandleRegistry.step, hi]
      exact h
    | some w =>
      simp only [MsgHandleRegistry.step, hi]
      refine ⟨h.executor, ok_of_eq h.messages rfl rfl, h.active, fun hmem => h.waits ?_⟩
      refine mem_of_mem_set (q := w.woken) ?_ hmem
      cases w <;> nofun

end Inv

theorem inv_run (named : Bool) (ops : List (Op H)) : Inv (run named ops) :=
  (allHold_of_inv Inv (fun h => h) (fun h op => h.step op) (inv_init named) ops).last

/-- **No message is used behind its end**: it is freed once and handled once at most, by the first handle that was
registered for its topic, and it is there when a handle is called with it. -/
theorem freed_once_run (named : Bool) (ops : List (Op H)) (m : Message H) (hm : m ∈ (run named ops).messages) :
    m.freed ≤ 1 ∧ m.handled.length ≤ 1 ∧ (∀ handle ∈ m.handled, (run named ops).find m.topic = some handle) ∧
      ∀ handle, m.recv = .callHandle handle ∨ m.task = .callHandle handle → m.freed = 0 := by
  have hok := (inv_run named ops).messages m hm
  exact ⟨hok.freed_le, hok.handled, fun handle hhandle => hok.handle (.inr (.inr hhandle)),
    fun handle hhandle => hok.freed_eq_zero hhandle⟩

/-- A message of a topic with a handle, and a call of `WaitForAllTasks`, up to the end of the task. -/
def oneMessage : List (Op ℕ) :=
  [.register "topic" 5, .initExecutor, .receive "topic", .recv 0 true, .recv 0 true, .recv 0 true, .recv 0 true, .wait,
    .waiter 0, .waiter 0, .recv 0 true, .task 0 false, .task 0 false, .task 0 false]

theorem freed_once_run_oneMessage :
    let m : Message ℕ := ⟨"topic", .returned, .notify, [5], 1⟩
    m.freed ≤ 1 ∧ m.handled.length ≤ 1 ∧ (∀ handle ∈ m.handled, (run true oneMessage).find m.topic = some handle) ∧
      ∀ handle, m.recv = .callHandle handle ∨ m.task = .callHandle handle → m.freed = 0 :=
  freed_once_run true oneMessage ⟨"topic", .returned, .notify, [5], 1⟩ (by decide)

/-- `active_tasks_` counts the tasks that are made and not done, and for ever those that the executor has not taken
and those whose handle has thrown. -/
theorem activeTasks_run (named : Bool) (ops : List (Op H)) :
    (run named ops).activeTasks = (run named ops).messages.countP counted :=
  (inv_run named ops).active

/-- While a call of `WaitForAllTasks` waits, there are tasks, or one of them is about to notify it. -/
theorem waiting_run (named : Bool) (ops : List (Op H)) (hwaiting : .waiting ∈ (run named ops).waiters) :
    (run named ops).activeTasks ≠ 0 ∨ ∃ m ∈ (run named ops).messages, m.task = .notify := by
  refine ((inv_run named ops).waits hwaiting).imp_right fun hpos => ?_
  obtain ⟨m, hm, hnotifies⟩ := List.countP_pos_iff.1 hpos
  refine ⟨m, hm, ?_⟩
  obtain ⟨topic, recv, task, handled, freed⟩ := m
  cases task with
  | notify => rfl
  | _ => cases hnotifies

theorem waiting_run_oneMessage :
    (run true oneMessage).activeTasks ≠ 0 ∨ ∃ m ∈ (run true oneMessage).messages, m.task = .notify :=
  waiting_run true oneMessage (by decide)

/-! ### Messages that nobody frees -/

/-- `OnMsgRecv` may still make a task. -/
def Recv.ahead : Recv H → Bool
  | .callHandle _ => false
  | recv => recv.early

/-- The task will free the message, or has done so. -/
def Task.frees : Task H → Bool
  | .none => false
  | .refused => false
  | .threw => false
  | _ => true

/-- Where there is a name only the task frees the message. -/
def owned (m : Message H) : Bool := m.recv.ahead || m.task.frees

def AllOwned (r : MsgHandleRegistry H) : Prop := r.named = true → ∀ m ∈ r.messages, owned m = true

/-- Nothing is left to be done for the message. -/
def finished (m : Message H) : Bool :=
  match m.recv, m.task with
  | .returned, .none => true
  | .returned, .refused => true
  | .returned, .done => true
  | .returned, .threw => true
  | _, _ => false

/-- Where there is a name, a message comes before `Shutdown`, it has a handle and the executor is there, the executor
takes the task, and the handle does not throw. -/
def Careful (r : MsgHandleRegistry H) : Op H → Prop
  | .recv i taken => r.named = true → ∀ m, r.messages[i]? = some m →
      match m.recv with
      | .loadFlag => r.shutdownFlag = false
      | .findHandle => (r.find m.topic).isSome = true ∧ r.executor = true
      | .execute _ => taken = true
      | _ => True
  | .task i threw => r.named = true → ∀ m, r.messages[i]? = some m → m.task.handle?.isSome = true → threw = false
  | _ => True

section Owned

variable {r : MsgHandleRegistry H} {m : Message H} {i : ℕ}

/-- What is owned behind a step of `OnMsgRecv`. -/
theorem owned_recvStep_iff (h : m.Ok r) (hnamed : r.named = true) (taken : Bool) :
    owned (r.recvStep taken m).1 = true ↔ owned m = true ∧
      match m.recv with
      | .loadFlag => r.shutdownFlag = false
      | .findHandle => (r.find m.topic).isSome = true ∧ r.executor = true
      | .execute _ => taken = true
      | _ => True := by
  obtain ⟨topic, recv, task, handled, freed⟩ := m
  cases recv with
  | loadFlag =>
    obtain rfl : task = .none := h.task rfl
    unfold recvStep
    dsimp only
    cases r.shutdownFlag <;> simp [owned, Recv.ahead, Recv.early, Task.frees]
  | findHandle =>
    obtain rfl : task = .none := h.task rfl
    unfold recvStep
    cases r.find topic with
    | none => simp [owned, Recv.ahead, Recv.early, Task.frees]
    | some handle => cases r.executor <;> simp [owned, Recv.ahead, Recv.early, Task.frees]
  | execute handle => cases taken <;> simp [recvStep, owned, Recv.ahead, Recv.early, Task.frees]
  | countTask handle => simp [recvStep, owned, Recv.ahead, Recv.early]
  | callHandle handle => simp [recvStep, owned, Recv.ahead, Recv.early]
  | checkName => simp [recvStep, hnamed, owned, Recv.ahead, Recv.early]
  | free => simp [recvStep, owned, Recv.ahead, Recv.early]
  | returned => simp [recvStep, owned, Recv.ahead, Recv.early]

/-- What is owned behind a step of the task. -/
theorem owned_taskStep_iff (h : m.Ok r) (threw : Bool) :
    owned (r.taskStep threw m).1 = true ↔ owned m = true ∧ (m.task.handle?.isSome = true → threw = false) := by
  have hahead : m.task ≠ .none → m.recv.ahead = false := fun hne => by
    have hearly := h.early_eq_false hne
    cases hrecv : m.recv <;> rw [hrecv] at hearly <;> first | rfl | cases hearly
  obtain ⟨topic, recv, task, handled, freed⟩ := m
  cases task with
  | callHandle handle =>
    have hrecv : recv.ahead = false := hahead nofun
    cases threw <;> simp [taskStep, owned, hrecv, Task.frees, Task.handle?]
  | uncount =>
    unfold taskStep
    dsimp only
    split_ifs <;> simp [owned, Task.frees, Task.handle?]
  | free => simp [taskStep, owned, Task.frees, Task.handle?]
  | notify => simp [taskStep, owned, Task.frees, Task.handle?]
  | _ => simp [taskStep, owned, Task.frees, Task.handle?]

/-- One message has gone on. -/
theorem allOwned_set_iff {q : Message H} {C : Prop} (hi : r.messages[i]? = some m)
    (hiff : owned q = true ↔ owned m = true ∧ C) :
    (∀ x ∈ r.messages.set i q, owned x = true) ↔ (∀ x ∈ r.messages, owned x = true) ∧ C := by
  have hlt := (List.getElem?_eq_some_iff.1 hi).1
  constructor
  · intro h
    obtain ⟨hm, hc⟩ := hiff.1 (h q (List.mem_set hlt q))
    refine ⟨fun x hx => ?_, hc⟩
    obtain ⟨j, hj⟩ := List.mem_iff_getElem?.1 hx
    rcases eq_or_ne i j with rfl | hne
    · rw [hi] at hj
      exact Option.some.inj hj ▸ hm
    · exact h x (List.mem_iff_getElem?.2 ⟨j, (List.getElem?_set_ne hne).trans hj⟩)
  · rintro ⟨h, hc⟩
    exact forall_mem_set h (hiff.2 ⟨h m (List.mem_of_getElem? hi), hc⟩)

theorem allOwned_step_iff (h : Inv r) (op : Op H) : AllOwned (r.step op) ↔ AllOwned r ∧ Careful r op := by
  cases op with
  | register topic handle =>
    have hsame : (r.registerMsgHandle topic handle).messages = r.messages := by
      unfold registerMsgHandle
      split <;> rfl
    show ((r.registerMsgHandle topic handle).named = true →
      ∀ m ∈ (r.registerMsgHandle topic handle).messages, _) ↔ _
    rw [hsame, named_register]
    exact (and_iff_left trivial).symm
  | initExecutor =>
    have hsame : r.initExecutor.messages = r.messages ∧ r.initExecutor.named = r.named := by
      unfold initExecutor
      split <;> exact ⟨rfl, rfl⟩
    show (r.initExecutor.named = true → ∀ m ∈ r.initExecutor.messages, _) ↔ _
    rw [hsame.1, hsame.2]
    exact (and_iff_left trivial).symm
  | receive topic =>
    refine ⟨fun hall => ⟨fun hnamed m hm => hall hnamed m (List.mem_append_left _ hm), trivial⟩, ?_⟩
    rintro ⟨hall, -⟩ hnamed m hm
    rcases List.mem_append.1 hm with hm | hm
    · exact hall hnamed m hm
    · rw [List.mem_singleton.1 hm]
      rfl
  | recv i taken =>
    cases hi : r.messages[i]? with
    | none =>
      simp only [MsgHandleRegistry.step, Careful, hi]
      exact (and_iff_left fun _ _ => nofun).symm
    | some m =>
      have hok := h.messages m (List.mem_of_getElem? hi)
      simp only [MsgHandleRegistry.step, Careful, hi, Option.some.injEq, forall_eq']
      show (_ → ∀ x ∈ r.messages.set i (r.recvStep taken m).1, owned x = true) ↔ (_ → _) ∧ _
      rw [← imp_and]
      exact imp_congr_right fun hnamed => allOwned_set_iff hi (owned_recvStep_iff hok hnamed taken)
  | task i threw =>
    cases hi : r.messages[i]? with
    | none =>
      simp only [MsgHandleRegistry.step, Careful, hi]
      exact (and_iff_left fun _ _ => nofun).symm
    | some m =>
      have hok := h.messages m (List.mem_of_getElem? hi)
      have hset : AllOwned (r.step (.task i threw)) ↔
          (r.named = true → ∀ x ∈ r.messages.set i (r.taskStep threw m).1, owned x = true) := by
        simp only [MsgHandleRegistry.step, hi]
        split_ifs <;> rfl
      simp only [hset, Careful, hi, Option.some.injEq, forall_eq']
      show _ ↔ (_ → _) ∧ _
      rw [← imp_and]
      exact imp_congr_right fun _ => allOwned_set_iff hi (owned_taskStep_iff hok threw)
  | waiter i =>
    have hsame : AllOwned (r.step (.waiter i)) ↔ AllOwned r := by
      cases hi : r.waiters[i]? with
      | none => simp only [MsgHandleRegistry.step, hi]
      | some w =>
        simp only [MsgHandleRegistry.step, hi]
        rfl
    exact hsame.trans (and_iff_left trivial).symm
  | wake i =>
    have hsame : AllOwned (r.step (.wake i)) ↔ AllOwned r := by
      cases hi : r.waiters[i]? with
      | none => simp only [MsgHandleRegistry.step, hi]
      | some w =>
        simp only [MsgHandleRegistry.step, hi]
        rfl
    exact hsame.trans (and_iff_left trivial).symm
  | shutdown => exact (and_iff_left trivial).symm
  | wait => exact (and_iff_left trivial).symm

/-- When nothing is left to be done, what is owned has been freed. -/
theorem Message.Ok.freed_eq_one_iff (h : m.Ok r) (hfinished : finished m = true) :
    m.freed = 1 ↔ (r.named = true → owned m = true) := by
  have hfreed := h.freed
  have htask := h.taskNamed
  obtain ⟨topic, recv, task, handled, freed⟩ := m
  cases recv with
  | returned =>
    replace hfreed : freed = Recv.freed r.named .returned + task.freed := hfreed
    show freed = 1 ↔ _
    rw [hfreed]
    cases hnamed : r.named with
    | true =>
      cases task with
      | none => simp [Recv.freed, Task.freed, owned, Recv.ahead, Recv.early, Task.frees]
      | refused => simp [Recv.freed, Task.freed, owned, Recv.ahead, Recv.early, Task.frees]
      | done => simp [Recv.freed, Task.freed, owned, Task.frees]
      | threw => simp [Recv.freed, Task.freed, owned, Recv.ahead, Recv.early, Task.frees]
      | _ => cases hfinished
    | false =>
      obtain rfl : task = .none := by
        by_contra hne
        have hnamed' := htask hne
        rw [hnamed] at hnamed'
        cases hnamed'
      simp [Recv.freed, Task.freed]
  | _ => cases task <;> cases hfinished

end Owned

/-- **No message is lost**: when nothing is left to be done for any message, each was freed, exactly if all steps of the
run were careful. -/
theorem all_freed_iff (named : Bool) (ops : List (Op H))
    (hfinished : ∀ m ∈ (run named ops).messages, finished m = true) :
    (∀ m ∈ (run named ops).messages, m.freed = 1) ↔ AllMeet step Careful (init named) ops := by
  have hinv := inv_run named ops
  have hmeets : AllHold step AllOwned (init named) ops ↔ AllMeet step Careful (init named) ops := allHold_iff_allMeet
    (fun r : MsgHandleRegistry H => Inv r ∧ AllOwned r) (fun h => h.2)
    (fun h op hop => ⟨h.1.step op, (allOwned_step_iff h.1 op).2 ⟨h.2, hop⟩⟩)
    (fun h op hall => ((allOwned_step_iff h.1 op).1 hall).2) ⟨inv_init named, fun _ => nofun⟩ ops
  have hlast : AllHold step AllOwned (init named) ops ↔ AllOwned (run named ops) :=
    allHold_iff_last Inv (fun h op => h.step op) (fun h op hall => ((allOwned_step_iff h op).1 hall).1)
      (inv_init named) ops
  rw [← hmeets, hlast]
  refine ⟨fun h hnamed m hm => ?_, fun h m hm => ?_⟩
  · exact ((hinv.messages m hm).freed_eq_one_iff (hfinished m hm)).1 (h m hm) hnamed
  · exact ((hinv.messages m hm).freed_eq_one_iff (hfinished m hm)).2 fun hnamed => h hnamed m hm

theorem all_freed_iff_oneMessage :
    (∀ m ∈ (run true (oneMessage ++ [.task 0 false])).messages, m.freed = 1) ↔
      AllMeet step Careful (init true) (oneMessage ++ [.task 0 false]) := by
  have hfinished : (run true (oneMessage ++ [.task 0 false])).messages.all finished = true := by decide
  exact all_freed_iff true _ (List.all_eq_true.1 hfinished)

end MsgHandleRegistry

end AimRT.Mqtt
