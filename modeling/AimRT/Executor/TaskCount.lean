import AimRT.Executor.GuardThreadExecutor

/-!
# The load of an executor

`queue_task_num_` of `GuardThreadExecutor`, and of `SimpleThreadExecutor`, whose worker and `Execute` are the same.  A
call of `Execute` raises it before the task is accepted, and the rejection of the call or the end of its task lowers it;
a task that throws does not.

It counts the calls that are between the two, as far as 32 bits do: `2 ^ 32` of them are none.
-/

namespace AimRT.Executor

open Lib.Run

variable {α : Type}

abbrev SimpleThreadExecutor (α : Type) := GuardThreadExecutor α

/-- The executor, whose tasks bear the numbers of their calls.  `raised` are the calls that have raised
`queue_task_num_`, `lowered` those for which it was lowered again. -/
structure TaskCount (α : Type) where
  executor : GuardThreadExecutor (ℕ × α)
  raised : List ℕ
  lowered : List ℕ

namespace TaskCount

open GuardThreadExecutor (Call Worker Op)

def init (options : GuardThreadOptions) : TaskCount α := ⟨.init options, [], []⟩

/-- The task of the next call gets its number. -/
def numbered (y : GuardThreadExecutor (ℕ × α)) : Op α → Op (ℕ × α)
  | .execute task => .execute (y.calls.length, task)
  | .start => .start
  | .shutdown => .shutdown
  | .call i => .call i
  | .worker threw => .worker threw

/-- The call whose step raises `queue_task_num_`. -/
def raises (y : GuardThreadExecutor (ℕ × α)) : Op α → List ℕ
  | .call i =>
    match y.calls[i]? with
    | some (.count _) => [i]
    | _ => []
  | _ => []

/-- The call for which a step lowers it: its own one, or that of the worker behind its task. -/
def lowers (y : GuardThreadExecutor (ℕ × α)) : Op α → List ℕ
  | .call i =>
    match y.calls[i]? with
    | some .uncount => [i]
    | _ => []
  | .worker false =>
    match y.worker with
    | .batchRun tmpQueue => (tmpQueue.head?.map Prod.fst).toList
    | .drainRun => (y.queue.head?.map Prod.fst).toList
    | _ => []
  | _ => []

def step (s : TaskCount α) (op : Op α) : TaskCount α where
  executor := s.executor.step (numbered s.executor op)
  raised := s.raised ++ raises s.executor op
  lowered := s.lowered ++ lowers s.executor op

/-- The calls that have raised `queue_task_num_` and whose tasks were neither finished nor rejected. -/
def outstanding (s : TaskCount α) : List ℕ := s.raised.filter (· ∉ s.lowered)

/-- An `Execute` call is about to raise `queue_task_num_`, and to reject its task then. -/
def Rejects (s : TaskCount α) (i : ℕ) : Prop :=
  ∃ task, s.executor.calls[i]? = some (.count task) ∧ (s.executor.callStep (.count task)).1 = .uncount

/-- **The load counter is the number of the calls that are outstanding**, it is not zero when it is lowered, and a task
is rejected only where the threshold is reached by other calls. -/
structure CountedExactly (s : TaskCount α) : Prop where
  num : s.executor.queueTaskNum.toNat = s.outstanding.length
  lowered : ∀ op, lowers s.executor op ≠ [] → s.executor.queueTaskNum ≠ 0
  rejected : ∀ i, Rejects s i → i ∉ s.outstanding ∧ s.executor.options.queueThreshold.toNat ≤ s.outstanding.length

/-- The same, with the counter in 32 bits. -/
structure Counted (s : TaskCount α) : Prop where
  num : s.executor.queueTaskNum.toNat = s.outstanding.length % 2 ^ 32
  lowered : ∀ op, lowers s.executor op ≠ [] → s.outstanding.length < 2 ^ 32 → s.executor.queueTaskNum ≠ 0
  rejected : ∀ i, Rejects s i → i ∉ s.outstanding ∧ s.executor.options.queueThreshold.toNat ≤ s.outstanding.length

/-! ### The invariant -/

/-- The call has not raised the counter yet, and can. -/
def turn : Call (ℕ × α) → ℕ
  | .checkInit _ | .checkStart _ | .count _ => 1
  | _ => 0

/-- It has, and will reject or push its task. -/
def holds : Call (ℕ × α) → ℕ
  | .uncount | .push _ => 1
  | _ => 0

/-- The number on the task of a call. -/
def owner : Call (ℕ × α) → Option ℕ
  | .checkInit task | .checkStart task | .count task | .push task => some task.1
  | _ => none

/-- The calls of the tasks that the worker has, and of those in the queue. -/
def held (y : GuardThreadExecutor (ℕ × α)) : List ℕ :=
  match y.worker with
  | .batch tmpQueue | .batchRun tmpQueue => (tmpQueue ++ y.queue).map Prod.fst
  | _ => y.queue.map Prod.fst

/-- A task that runs is in front of the others. -/
def Running (y : GuardThreadExecutor (ℕ × α)) : Prop :=
  match y.worker with
  | .batchRun tmpQueue => tmpQueue ≠ []
  | .drainRun => y.queue ≠ []
  | _ => True

/-- A call raises the counter once at most, and it is lowered for it once at most, when the task is nowhere any more. -/
structure Fair (s : TaskCount α) (j : ℕ) : Prop where
  once : s.raised.count j + s.executor.calls[j]?.elim 0 turn ≤ 1
  new : s.executor.calls.length ≤ j → s.raised.count j = 0
  lowered_le : s.lowered.count j + (held s.executor).count j + s.executor.calls[j]?.elim 0 holds ≤ s.raised.count j

structure Inv (s : TaskCount α) : Prop where
  fair : ∀ j, Fair s j
  own : ∀ i c, s.executor.calls[i]? = some c → ∀ k ∈ owner c, k = i
  running : Running s.executor
  num : s.executor.queueTaskNum = UInt32.ofNat s.raised.length - UInt32.ofNat s.lowered.length

variable {s : TaskCount α}

theorem inv_init (options : GuardThreadOptions) : Inv (init (α := α) options) where
  fair _ := ⟨by simp [init, GuardThreadExecutor.init], fun _ => rfl, by simp [init, GuardThreadExecutor.init, held]⟩
  own i c h := by simp [init, GuardThreadExecutor.init] at h
  running := trivial
  num := by simp [init, GuardThreadExecutor.init]

/-- The calls that were counted are those that are outstanding and those that are not any more. -/
theorem Inv.perm (h : Inv s) : s.raised.Perm (s.lowered ++ s.outstanding) := by
  refine List.perm_iff_count.2 fun j => ?_
  obtain ⟨honce, -, hle⟩ := h.fair j
  rw [List.count_append, outstanding]
  by_cases hj : j ∈ s.lowered
  · have hnot : (s.raised.filter (· ∉ s.lowered)).count j = 0 :=
      List.count_eq_zero.2 fun hmem => by simp [hj] at hmem
    have hpos := List.count_pos_iff.2 hj
    omega
  · rw [List.count_eq_zero.2 hj, List.count_filter (by simpa using hj), Nat.zero_add]

theorem Inv.length (h : Inv s) : s.raised.length = s.lowered.length + s.outstanding.length := by
  rw [h.perm.length_eq, List.length_append]

theorem Inv.toNat_num (h : Inv s) : s.executor.queueTaskNum.toNat = s.outstanding.length % 2 ^ 32 := by
  rw [h.num, ← UInt32.ofNat_sub (by rw [h.length]; omega), h.length, Nat.add_sub_cancel_left, UInt32.toNat_ofNat']

/-! ### Calls -/

theorem count_replicate_self (n j i : ℕ) : (List.replicate n i).count j = if j = i then n else 0 := by
  rw [List.count_replicate]
  by_cases h : j = i
  · simp [h]
  · simp [h, Ne.symm h]

/-- The call `i` goes on: it raises the counter, lowers it or pushes its task, as far as what it holds lets it. -/
theorem Inv.fair_call (h : Inv s) {s' : TaskCount α} {i : ℕ} {c c' : Call (ℕ × α)}
    (hc : s.executor.calls[i]? = some c) (hcalls : s'.executor.calls = s.executor.calls.set i c') (r l p : ℕ)
    (hraised : s'.raised = s.raised ++ List.replicate r i) (hlowered : s'.lowered = s.lowered ++ List.replicate l i)
    (hheld : (held s'.executor).Perm (held s.executor ++ List.replicate p i)) (hturn : r + turn c' ≤ turn c)
    (hholds : l + p + holds c' ≤ r + holds c) (j : ℕ) : Fair s' j := by
  obtain ⟨honce, hnew, hle⟩ := h.fair j
  have hi := (List.getElem?_eq_some_iff.1 hc).1
  rcases eq_or_ne j i with rfl | hne
  · refine ⟨?_, fun hlen => ?_, ?_⟩
    · rw [hraised, hcalls, List.count_append, count_replicate_self, if_pos rfl, List.getElem?_set_self hi]
      rw [hc] at honce
      simp only [Option.elim_some] at honce ⊢
      omega
    · rw [hcalls, List.length_set] at hlen
      omega
    · rw [hraised, hlowered, hcalls, hheld.count_eq, List.count_append, List.count_append, List.count_append,
        count_replicate_self, count_replicate_self, count_replicate_self, if_pos rfl, if_pos rfl, if_pos rfl,
        List.getElem?_set_self hi]
      rw [hc] at hle
      simp only [Option.elim_some] at hle ⊢
      omega
  · have hzero : ∀ n, (List.replicate n i).count j = 0 := fun n => by rw [count_replicate_self, if_neg hne]
    refine ⟨?_, fun hlen => ?_, ?_⟩
    · rwa [hraised, hcalls, List.count_append, hzero, List.getElem?_set_ne hne.symm]
    · rw [hcalls, List.length_set] at hlen
      rw [hraised, List.count_append, hzero, hnew hlen]
    · rwa [hraised, hlowered, hcalls, hheld.count_eq, List.count_append, List.count_append, List.count_append, hzero,
        hzero, hzero, List.getElem?_set_ne hne.symm]

theorem Inv.own_set (h : Inv s) {i : ℕ} {c c' : Call (ℕ × α)} (hc : s.executor.calls[i]? = some c)
    (howner : ∀ k ∈ owner c', k ∈ owner c) :
    ∀ i' c'', (s.executor.calls.set i c')[i']? = some c'' → ∀ k ∈ owner c'', k = i' := by
  intro i' c'' hc'' k hk
  rcases eq_or_ne i i' with rfl | hne
  · rw [List.getElem?_set_self (List.getElem?_eq_some_iff.1 hc).1] at hc''
    obtain rfl := Option.some.inj hc''
    exact h.own i c hc k (howner k hk)
  · rw [List.getElem?_set_ne hne] at hc''
    exact h.own i' c'' hc'' k hk

@[simp] theorem held_notifyOne (y : GuardThreadExecutor (ℕ × α)) : held y.notifyOne = held y := by
  unfold GuardThreadExecutor.notifyOne
  split <;> rename_i hworker
  · simp only [held, hworker]
  · rfl

theorem running_notifyOne {y : GuardThreadExecutor (ℕ × α)} (h : Running y) : Running y.notifyOne := by
  unfold GuardThreadExecutor.notifyOne
  split
  · trivial
  · exact h

theorem running_push {y : GuardThreadExecutor (ℕ × α)} (h : Running y) (task : ℕ × α) :
    Running { y with queue := y.queue ++ [task], pushed := y.pushed ++ [task] } := by
  unfold Running at h ⊢
  cases hworker : y.worker with
  | drainRun => simp
  | batchRun tmpQueue => simpa [hworker] using h
  | _ => trivial

theorem step_call {i : ℕ} {c : Call (ℕ × α)} (hc : s.executor.calls[i]? = some c) :
    s.step (.call i) =
      { executor := { (s.executor.callStep c).2 with calls := s.executor.calls.set i (s.executor.callStep c).1 }
        raised := s.raised ++ raises s.executor (.call i : Op α)
        lowered := s.lowered ++ lowers s.executor (.call i : Op α) } := by
  simp only [step, numbered, GuardThreadExecutor.step, hc]

/-- The step of the call leaves the counter and the tasks alone. -/
def LeavesTasks : Call (ℕ × α) → Prop
  | .count _ | .uncount | .push _ => False
  | _ => True

theorem step_call_of_leavesTasks {i : ℕ} {c : Call (ℕ × α)} (hc : s.executor.calls[i]? = some c)
    (hleaves : LeavesTasks c) : s.step (.call i) =
      { executor := { (s.executor.callStep c).2 with calls := s.executor.calls.set i (s.executor.callStep c).1 }
        raised := s.raised
        lowered := s.lowered } := by
  rw [step_call hc]
  cases c with
  | count _ | uncount | push _ => exact hleaves.elim
  | _ => simp only [raises, lowers, hc, List.append_nil]

theorem Inv.quietCall (h : Inv s) {i : ℕ} {c c' : Call (ℕ × α)} {y : GuardThreadExecutor (ℕ × α)}
    (hc : s.executor.calls[i]? = some c) (hleaves : LeavesTasks c) (hstep : s.executor.callStep c = (c', y))
    (hheld : held y = held s.executor) (hturn : turn c' ≤ turn c) (hholds : holds c' ≤ holds c)
    (howner : ∀ k ∈ owner c', k ∈ owner c) (hrunning : Running y)
    (hnum : y.queueTaskNum = s.executor.queueTaskNum) : Inv (s.step (.call i)) := by
  rw [step_call_of_leavesTasks hc hleaves, hstep]
  refine ⟨h.fair_call hc rfl 0 0 0 (by simp) (by simp) ?_ (by simpa using hturn) (by simpa using hholds),
    h.own_set hc howner, hrunning, hnum.trans h.num⟩
  exact List.Perm.of_eq (hheld.trans (List.append_nil _).symm)

theorem Inv.count (h : Inv s) {i : ℕ} {task : ℕ × α} (hc : s.executor.calls[i]? = some (.count task)) :
    Inv (s.step (.call i)) := by
  rw [step_call hc]
  simp only [raises, lowers, hc, GuardThreadExecutor.callStep]
  refine ⟨h.fair_call hc rfl 1 0 0 rfl rfl (by simp [held]) ?_ ?_, h.own_set hc ?_, h.running, ?_⟩
  · split_ifs <;> exact le_rfl
  · split_ifs <;> exact le_rfl
  · split_ifs
    · exact fun _ hk => by simp [owner] at hk
    · exact fun _ hk => hk
  · simp only [List.length_append, List.length_singleton, List.append_nil, h.num, UInt32.ofNat_add]
    grind

theorem Inv.uncount (h : Inv s) {i : ℕ} (hc : s.executor.calls[i]? = some .uncount) : Inv (s.step (.call i)) := by
  rw [step_call hc]
  simp only [raises, lowers, hc, GuardThreadExecutor.callStep]
  refine ⟨h.fair_call hc rfl 0 1 0 (by simp) rfl (by simp [held, GuardThreadExecutor.uncount]) le_rfl le_rfl,
    h.own_set hc fun _ hk => by simp [owner] at hk, h.running, ?_⟩
  simp only [GuardThreadExecutor.uncount, List.length_append, List.length_singleton, List.append_nil, h.num,
    UInt32.ofNat_add]
  grind

theorem held_push (y : GuardThreadExecutor (ℕ × α)) (task : ℕ × α) :
    held { y with queue := y.queue ++ [task], pushed := y.pushed ++ [task] } = held y ++ [task.1] := by
  simp only [held]
  cases y.worker <;> simp

theorem Inv.push (h : Inv s) {i : ℕ} {task : ℕ × α} (hc : s.executor.calls[i]? = some (.push task)) :
    Inv (s.step (.call i)) := by
  obtain rfl : task.1 = i := h.own i _ hc _ rfl
  rw [step_call hc]
  simp only [raises, lowers, hc, GuardThreadExecutor.callStep]
  refine ⟨h.fair_call hc rfl 0 0 1 (by simp) (by simp) ?_ le_rfl le_rfl, h.own_set hc fun _ hk => by simp [owner] at hk,
    running_notifyOne (running_push h.running task), ?_⟩
  · have hheld := held_push s.executor task
    rw [← held_notifyOne] at hheld
    exact List.Perm.of_eq hheld
  · simp only [List.append_nil, ← h.num]
    unfold GuardThreadExecutor.notifyOne
    split <;> rfl

theorem Inv.call (h : Inv s) (i : ℕ) : Inv (s.step (.call i)) := by
  cases hc : s.executor.calls[i]? with
  | none => simpa only [step, numbered, GuardThreadExecutor.step, raises, lowers, hc, List.append_nil] using h
  | some c =>
    cases c with
    | count task => exact h.count hc
    | uncount => exact h.uncount hc
    | push task => exact h.push hc
    | checkInit task =>
      refine h.quietCall hc trivial rfl rfl ?_ ?_ ?_ h.running rfl
      · split_ifs <;> exact le_rfl
      · split_ifs <;> exact le_rfl
      · split_ifs <;> exact fun _ hk => hk
    | checkStart task =>
      refine h.quietCall hc trivial rfl rfl ?_ ?_ ?_ h.running rfl
      · split_ifs <;> simp [turn]
      · split_ifs <;> exact le_rfl
      · split_ifs
        · exact fun _ hk => hk
        · exact fun _ hk => by simp [owner] at hk
    | start | returned => exact h.quietCall hc trivial rfl rfl le_rfl le_rfl (fun _ hk => hk) h.running rfl
    | exchange =>
      refine h.quietCall hc trivial rfl rfl ?_ ?_ ?_ h.running rfl
      · split_ifs <;> exact le_rfl
      · split_ifs <;> exact le_rfl
      · split_ifs <;> exact fun _ hk => hk
    | notify =>
      refine h.quietCall hc trivial rfl (held_notifyOne _) le_rfl le_rfl (fun _ hk => hk)
        (running_notifyOne h.running) ?_
      unfold GuardThreadExecutor.notifyOne
      split <;> rfl
    | join =>
      have hstep : s.executor.callStep .join = (.returned, s.executor) ∨
          s.executor.callStep .join = (.join, s.executor) := by
        simp only [GuardThreadExecutor.callStep]
        split
        · exact .inl rfl
        · exact .inr rfl
      rcases hstep with hstep | hstep
      · exact h.quietCall hc trivial hstep rfl le_rfl le_rfl (fun _ hk => hk) h.running rfl
      · exact h.quietCall hc trivial hstep rfl le_rfl le_rfl (fun _ hk => hk) h.running rfl

/-! ### The worker -/

/-- A step that leaves the calls, with the tasks of one call less where it lowers the counter for it. -/
theorem Inv.fair_worker (h : Inv s) {s' : TaskCount α} (hcalls : s'.executor.calls = s.executor.calls)
    (hraised : s'.raised = s.raised)
    (hheld : ∀ j, s'.lowered.count j + (held s'.executor).count j ≤ s.lowered.count j + (held s.executor).count j)
    (j : ℕ) : Fair s' j := by
  obtain ⟨honce, hnew, hle⟩ := h.fair j
  refine ⟨by rwa [hraised, hcalls], by rwa [hraised, hcalls], ?_⟩
  have := hheld j
  rw [hraised, hcalls]
  omega

/-- The worker is not at a task. -/
def AwayFromTask : Worker (ℕ × α) → Prop
  | .batchRun _ | .drainRun => False
  | _ => True

theorem lowers_of_awayFromTask {y : GuardThreadExecutor (ℕ × α)} (haway : AwayFromTask y.worker) (threw : Bool) :
    lowers y (.worker threw : Op α) = [] := by
  cases hworker : y.worker with
  | batchRun _ | drainRun =>
    rw [hworker] at haway
    exact haway.elim
  | _ => cases threw <;> simp only [lowers, hworker]

/-- Away from a task, the worker goes on without a change of the counter and the tasks. -/
theorem Inv.quietWorker (h : Inv s) {threw : Bool} {y : GuardThreadExecutor (ℕ × α)} {w : Worker (ℕ × α)}
    (hworker : s.executor.worker = w) (haway : AwayFromTask w) (hcalls : y.calls = s.executor.calls)
    (hheld : held y = held s.executor) (hrunning : Running y) (hnum : y.queueTaskNum = s.executor.queueTaskNum) :
    Inv ⟨y, s.raised, s.lowered ++ lowers s.executor (.worker threw : Op α)⟩ := by
  rw [lowers_of_awayFromTask (hworker ▸ haway), List.append_nil]
  refine ⟨h.fair_worker hcalls rfl fun j => by rw [hheld], ?_, hrunning, hnum.trans h.num⟩
  show ∀ i c, y.calls[i]? = some c → _
  rw [hcalls]
  exact h.own

/-- The task in front is done; the counter is lowered for it unless it threw. -/
theorem Inv.finish (h : Inv s) (threw : Bool) {y : GuardThreadExecutor (ℕ × α)} (k : ℕ)
    (hcalls : y.calls = s.executor.calls) (hheld : held s.executor = k :: held y)
    (hrunning : Running y) (hnum : y.queueTaskNum = s.executor.queueTaskNum - if threw then 0 else 1) :
    Inv ⟨y, s.raised, s.lowered ++ if threw then [] else [k]⟩ where
  fair := h.fair_worker hcalls rfl fun j => by
    rw [hheld]
    cases threw with
    | true => simp [List.count_cons]
    | false =>
      simp [List.count_cons]
      omega
  own := by
    show ∀ i c, y.calls[i]? = some c → _
    rw [hcalls]
    exact h.own
  running := hrunning
  num := by
    rw [hnum, h.num]
    cases threw
    · simp only [Bool.false_eq_true, if_false, List.length_append, List.length_singleton, UInt32.ofNat_add]
      grind
    · simp

theorem Inv.worker (h : Inv s) (threw : Bool) : Inv (s.step (.worker threw)) := by
  have hstep : s.step (.worker threw) =
      ⟨s.executor.workerStep threw, s.raised, s.lowered ++ lowers s.executor (.worker threw : Op α)⟩ := by
    simp [step, numbered, GuardThreadExecutor.step, raises]
  rw [hstep]
  have hrunning := h.running
  unfold Running at hrunning
  cases hworker : s.executor.worker with
  | batchRun tmpQueue =>
    rw [hworker] at hrunning
    obtain ⟨task, tasks, rfl⟩ := List.exists_cons_of_ne_nil hrunning
    have hlowers : lowers s.executor (.worker threw : Op α) = if threw then [] else [task.1] := by
      cases threw <;> simp [lowers, hworker]
    have hnext : s.executor.workerStep threw =
        { (if threw then s.executor else s.executor.uncount) with worker := .batch tasks } := by
      simp only [GuardThreadExecutor.workerStep, hworker]
      rfl
    rw [hlowers, hnext]
    refine h.finish threw task.1 (by cases threw <;> rfl) ?_ trivial
      (by cases threw <;> simp [GuardThreadExecutor.uncount])
    cases threw <;> simp [held, hworker, GuardThreadExecutor.uncount]
  | drainRun =>
    rw [hworker] at hrunning
    obtain ⟨task, tasks, hqueue⟩ := List.exists_cons_of_ne_nil hrunning
    have hlowers : lowers s.executor (.worker threw : Op α) = if threw then [] else [task.1] := by
      cases threw <;> simp [lowers, hworker, hqueue]
    have hnext : s.executor.workerStep threw =
        { (if threw then s.executor else s.executor.uncount) with worker := .drain, queue := tasks } := by
      simp only [GuardThreadExecutor.workerStep, hworker]
      cases threw <;> simp [GuardThreadExecutor.uncount, hqueue]
    rw [hlowers, hnext]
    refine h.finish threw task.1 (by cases threw <;> rfl) ?_ trivial
      (by cases threw <;> simp [GuardThreadExecutor.uncount])
    cases threw <;> simp [held, hworker, hqueue]
  | batch tmpQueue =>
    simp only [GuardThreadExecutor.workerStep, hworker]
    cases tmpQueue with
    | nil => exact h.quietWorker hworker trivial rfl (by simp [held, hworker]) trivial rfl
    | cons task tasks =>
      exact h.quietWorker hworker trivial rfl (by simp [held, hworker]) (List.cons_ne_nil task tasks) rfl
  | loop =>
    simp only [GuardThreadExecutor.workerStep, hworker]
    refine h.quietWorker hworker trivial rfl ?_ ?_ rfl
    · simp only [held, hworker]
      split_ifs <;> rfl
    · unfold Running
      split_ifs <;> trivial
  | lock =>
    simp only [GuardThreadExecutor.workerStep, hworker]
    split_ifs
    · exact h.quietWorker hworker trivial rfl (by simp [held, hworker]) trivial rfl
    · exact h.quietWorker hworker trivial rfl (by simp [held, hworker]) trivial rfl
  | blocked =>
    simp only [GuardThreadExecutor.workerStep, hworker]
    exact h.quietWorker hworker trivial rfl (by simp [held, hworker]) trivial rfl
  | drain =>
    simp only [GuardThreadExecutor.workerStep, hworker]
    split <;> rename_i hqueue
    · exact h.quietWorker hworker trivial rfl (by simp [held, hworker]) trivial rfl
    · refine h.quietWorker hworker trivial rfl (by simp [held, hworker]) ?_ rfl
      show s.executor.queue ≠ []
      simp [hqueue]
  | ended =>
    simp only [GuardThreadExecutor.workerStep, hworker]
    exact h.quietWorker hworker trivial rfl rfl h.running rfl

/-! ### Runs -/

/-- A call is made that has not looked at the state yet. -/
theorem Inv.made (h : Inv s) {c : Call (ℕ × α)} (hturn : turn c ≤ 1) (hholds : holds c = 0)
    (howner : ∀ k ∈ owner c, k = s.executor.calls.length) :
    Inv { s with executor := { s.executor with calls := s.executor.calls ++ [c] } } where
  fair j := by
    obtain ⟨honce, hnew, hle⟩ := h.fair j
    rcases lt_trichotomy j s.executor.calls.length with hlt | rfl | hlt
    · refine ⟨?_, fun hlen => ?_, ?_⟩
      · rwa [List.getElem?_append_left hlt]
      · simp only [List.length_append] at hlen
        omega
      · rwa [List.getElem?_append_left hlt]
    · have hzero := hnew le_rfl
      refine ⟨by simpa [hzero] using hturn, fun _ => hzero, ?_⟩
      rw [List.getElem?_concat_length, Option.elim_some, hholds]
      exact le_trans (Nat.le_add_right _ _) hle
    · have hnone : (s.executor.calls ++ [c])[j]? = none := by
        rw [List.getElem?_eq_none_iff, List.length_append, List.length_singleton]
        omega
      refine ⟨?_, fun _ => hnew hlt.le, ?_⟩
      · simp [hnone, hnew hlt.le]
      · rw [hnone]
        exact le_trans (Nat.add_le_add_left (Nat.zero_le _) _) hle
  own i c' hc' := by
    rcases lt_or_ge i s.executor.calls.length with hlt | hge
    · exact h.own i c' (by rwa [List.getElem?_append_left hlt] at hc')
    · rw [List.getElem?_append_right hge] at hc'
      have hi : i = s.executor.calls.length := by
        have := (List.getElem?_eq_some_iff.1 hc').1
        simp only [List.length_singleton] at this
        omega
      subst hi
      obtain rfl : c = c' := by simpa using hc'
      exact howner
  running := h.running
  num := h.num

theorem Inv.step (h : Inv s) (op : Op α) : Inv (s.step op) := by
  cases op with
  | call i => exact h.call i
  | worker threw => exact h.worker threw
  | execute task =>
    have hmade := h.made (c := .checkInit (s.executor.calls.length, task)) le_rfl rfl (by simp [owner])
    simpa [TaskCount.step, numbered, GuardThreadExecutor.step, raises, lowers] using hmade
  | start =>
    have hmade := h.made (c := .start) (Nat.zero_le _) rfl (by simp [owner])
    simpa [TaskCount.step, numbered, GuardThreadExecutor.step, raises, lowers] using hmade
  | shutdown =>
    have hmade := h.made (c := .exchange) (Nat.zero_le _) rfl (by simp [owner])
    simpa [TaskCount.step, numbered, GuardThreadExecutor.step, raises, lowers] using hmade

/-- The call for which a step lowers the counter is outstanding. -/
theorem Inv.mem_outstanding (h : Inv s) {op : Op α} {k : ℕ} (hk : k ∈ lowers s.executor op) : k ∈ s.outstanding := by
  obtain ⟨honce, -, hle⟩ := h.fair k
  have hpos : 0 < (held s.executor).count k + s.executor.calls[k]?.elim 0 holds := by
    cases op with
    | call i =>
      simp only [lowers] at hk
      split at hk
      · rename_i hc
        rw [List.mem_singleton.1 hk, hc, Option.elim_some, holds]
        omega
      · simp at hk
    | worker threw =>
      have hmem : k ∈ held s.executor := by
        cases threw with
        | true => simp [lowers] at hk
        | false =>
          simp only [lowers] at hk
          split at hk <;> rename_i hworker
          · rename_i tmpQueue
            cases tmpQueue with
            | nil => simp at hk
            | cons task tasks => simp_all [held]
          · cases hqueue : s.executor.queue with
            | nil => simp [hqueue] at hk
            | cons task tasks => simp_all [held]
          · simp at hk
      have := List.count_pos_iff.2 hmem
      omega
    | execute | start | shutdown => simp [lowers] at hk
  refine List.mem_filter.2 ⟨List.count_pos_iff.1 (by omega), ?_⟩
  have hnot : k ∉ s.lowered := fun hmem => by
    have := List.count_pos_iff.2 hmem
    omega
  simpa using hnot

theorem Inv.counted (h : Inv s) : Counted s where
  num := h.toNat_num
  lowered op hop hlt := by
    obtain ⟨k, hk⟩ := List.exists_mem_of_ne_nil _ hop
    have hpos := List.length_pos_of_mem (h.mem_outstanding hk)
    have hnum := h.toNat_num
    rw [Nat.mod_eq_of_lt hlt] at hnum
    intro hzero
    rw [hzero, UInt32.toNat_zero] at hnum
    omega
  rejected i := by
    rintro ⟨task, hc, hrejects⟩
    have hfull : s.executor.options.queueThreshold < s.executor.queueTaskNum + 1 := by
      simp only [GuardThreadExecutor.callStep] at hrejects
      split_ifs at hrejects with hcond
      exact hcond.2
    constructor
    · intro hmem
      have hpos := List.count_pos_iff.2 (List.mem_filter.1 hmem).1
      have honce := (h.fair i).once
      rw [hc, Option.elim_some, turn] at honce
      omega
    · have hnum := h.toNat_num
      have hmod := Nat.mod_le s.outstanding.length (2 ^ 32)
      rw [UInt32.lt_iff_toNat_lt, UInt32.toNat_add, UInt32.toNat_one] at hfull
      have := Nat.mod_le (s.executor.queueTaskNum.toNat + 1) (2 ^ 32)
      omega

/-- **The load counter is the number of outstanding calls modulo `2 ^ 32`**, in every state of every run: with fewer of
them it is their number, and is not zero when it is lowered.  A task is rejected only where the threshold is reached by
other calls. -/
theorem load_counter (options : GuardThreadOptions) (ops : List (Op α)) :
    AllHold step Counted (init options) ops :=
  allHold_of_inv Inv Inv.counted Inv.step (inv_init options) ops

/-! ### As many calls as 32 bits do not count -/

/-- No alarms, so nothing is rejected. -/
def noAlarms : GuardThreadOptions := { queueThreshold := 10000, alarms := false }

/-- `n` calls of `Execute` up to their push. -/
def pushing : ℕ → List (Op Unit)
  | 0 => []
  | n + 1 => pushing n ++ [.execute (), .call n, .call n]

theorem foldl_pushing (n : ℕ) : (pushing n).foldl step (init noAlarms) =
    { executor := { GuardThreadExecutor.init noAlarms with
        queueTaskNum := UInt32.ofNat n
        calls := (List.range n).map fun i => .push (i, ()) }
      raised := List.range n
      lowered := [] } := by
  induction n with
  | zero => rfl
  | succ n ih =>
    rw [pushing, List.foldl_append, ih]
    simp [step, numbered, raises, lowers, GuardThreadExecutor.step, GuardThreadExecutor.callStep,
      GuardThreadExecutor.init, noAlarms, List.range_succ, UInt32.ofNat_add]

theorem num_pushing (n : ℕ) :
    ((pushing n).foldl step (init noAlarms)).executor.queueTaskNum.toNat = n % 2 ^ 32 := by
  rw [foldl_pushing, UInt32.toNat_ofNat']

theorem length_outstanding_pushing (n : ℕ) : ((pushing n).foldl step (init noAlarms)).outstanding.length = n := by
  rw [foldl_pushing]
  simp [outstanding]

theorem not_countedExactly {n : ℕ} (hn : 2 ^ 32 ≤ n) :
    ¬ AllHold step CountedExactly (init noAlarms) (pushing n) := by
  intro h
  have hnum := h.last.num
  rw [num_pushing, length_outstanding_pushing] at hnum
  have := Nat.mod_lt n (show 0 < 2 ^ 32 by norm_num)
  omega

/-- `2 ^ 32` calls that have raised the counter, which is zero. -/
theorem load_counter_wraps : ¬ AllHold step CountedExactly (init noAlarms) (pushing (2 ^ 32)) :=
  not_countedExactly le_rfl

end TaskCount

end AimRT.Executor
