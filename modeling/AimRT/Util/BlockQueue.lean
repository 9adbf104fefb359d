import AimRT.Lib.Fair
import AimRT.Lib.Places

/-!
# The blocking queue

`BlockQueue` is a queue with a mutex and a condition variable.  Any number of threads call `Enqueue`, `Dequeue`,
`TryDequeue` and `Stop`; each function is one step under the mutex, up to a wait of `Dequeue` and from its end.  A wait is
ended by `notify_one`, which takes any of the threads that wait, by `notify_all`, or by itself.

`Enqueue` notifies one thread only, and that one may find the queue empty, since another call has been faster.  No wake-up
is lost even so: while threads wait, there are as many on their way to the queue as there are items in it (`Inv.waits`).

* `enqueued_eq_run`: what is taken out is what was put in, in the same order, and each item is returned by one call;
* `returned_or_empty_of_fair`: with a fair scheduler each call returns, but for calls of `Dequeue` on a queue that stays
  empty and is not stopped.
-/

namespace AimRT.Util

open Lib.Fair Lib.Places

namespace BlockQueue

/-! ### The code -/

inductive Call (T : Type) where
  | enqueue (item : T)
  | dequeue
  | tryDequeue
  | stop
  deriving DecidableEq, Repr

/-- `stopped` is the `BlockQueueStoppedException`. -/
inductive Result (T : Type) where
  | done
  | item (item : T)
  | nullopt
  | stopped
  deriving DecidableEq, Repr

/-- Where a call is: it has still to get the mutex, or it waits for the condition, or its wait has ended and it has to get
the mutex again. -/
inductive Place (T : Type) where
  | called (call : Call T)
  | waiting
  | woken
  | returned (result : Result T)
  deriving DecidableEq, Repr

end BlockQueue

/-- The queue with the calls that were made. -/
structure BlockQueue (T : Type) where
  queue : List T
  runningFlag : Bool
  places : List (BlockQueue.Place T)
  /-- What was put into the queue. -/
  enqueued : List T
  /-- What was taken out of it. -/
  dequeued : List T
  deriving DecidableEq, Repr

namespace BlockQueue

variable {T : Type}

def init : BlockQueue T := ⟨[], true, [], [], []⟩

namespace Place

def isWaiting : Place T → Bool
  | .waiting => true
  | _ => false

def isWoken : Place T → Bool
  | .woken => true
  | _ => false

def isReturned : Place T → Bool
  | .returned _ => true
  | _ => false

/-- What the call has returned. -/
def item? : Place T → Option T
  | .returned (.item item) => some item
  | _ => none

/-- A wait ends. -/
def wake : Place T → Place T
  | .waiting => .woken
  | p => p

end Place

def go (s : BlockQueue T) (i : ℕ) (p : Place T) : BlockQueue T := { s with places := s.places.set i p }

/-- `notify_one` wakes the call `pick` if it waits, and otherwise the first one that does. -/
def notifyOne (s : BlockQueue T) (pick : ℕ) : BlockQueue T :=
  match s.places[pick]? with
  | some .waiting => s.go pick .woken
  | _ => s.go (s.places.findIdx Place.isWaiting) .woken

def notifyAll (s : BlockQueue T) : BlockQueue T := { s with places := s.places.map Place.wake }

/-- `front` and `pop`, for the call `i`. -/
def pop (s : BlockQueue T) (i : ℕ) (item : T) (rest : List T) : BlockQueue T :=
  { s.go i (.returned (.item item)) with queue := rest, dequeued := s.dequeued ++ [item] }

def enqueue (s : BlockQueue T) (i : ℕ) (item : T) (pick : ℕ) : BlockQueue T :=
  if s.runningFlag then
    ({ s with queue := s.queue ++ [item], enqueued := s.enqueued ++ [item] }.notifyOne pick).go i (.returned .done)
  else s.go i (.returned .stopped)

/-- `Dequeue` with the mutex: the condition of the wait, and what follows where it is met. -/
def dequeue (s : BlockQueue T) (i : ℕ) : BlockQueue T :=
  if s.runningFlag then
    match s.queue with
    | [] => s.go i .waiting
    | item :: rest => s.pop i item rest
  else s.go i (.returned .stopped)

def tryDequeue (s : BlockQueue T) (i : ℕ) : BlockQueue T :=
  match s.queue with
  | [] => s.go i (.returned .nullopt)
  | item :: rest => if s.runningFlag then s.pop i item rest else s.go i (.returned .nullopt)

def stop (s : BlockQueue T) (i : ℕ) : BlockQueue T :=
  { s with runningFlag := false }.notifyAll.go i (.returned .done)

/-- A call is made, a call gets the mutex, or a wait ends by itself. -/
inductive Op (T : Type) where
  | call (call : Call T)
  | lock (i pick : ℕ)
  | wake (i : ℕ)
  deriving DecidableEq, Repr

def lock (s : BlockQueue T) (i pick : ℕ) : BlockQueue T :=
  match s.places[i]? with
  | some (.called (.enqueue item)) => s.enqueue i item pick
  | some (.called .dequeue) => s.dequeue i
  | some .woken => s.dequeue i
  | some (.called .tryDequeue) => s.tryDequeue i
  | some (.called .stop) => s.stop i
  | _ => s

def wake (s : BlockQueue T) (i : ℕ) : BlockQueue T :=
  match s.places[i]? with
  | some .waiting => s.go i .woken
  | _ => s

def step (s : BlockQueue T) : Op T → BlockQueue T
  | .call call => { s with places := s.places ++ [.called call] }
  | .lock i pick => s.lock i pick
  | .wake i => s.wake i

def run (ops : List (Op T)) : BlockQueue T := ops.foldl step init

/-! ### Places -/

section Places

variable {p : Place T}

theorem eq_waiting_of_isWaiting (h : p.isWaiting) : p = .waiting := by
  cases p with
  | waiting => rfl
  | _ => cases h

theorem item?_wake : p.wake.item? = p.item? := by
  cases p <;> rfl

theorem wake_ne_waiting : p.wake ≠ .waiting := by
  cases p <;> nofun

end Places

/-! ### The invariant -/

structure Inv (s : BlockQueue T) : Prop where
  fifo : s.enqueued = s.dequeued ++ s.queue
  items : (s.places.filterMap Place.item?).Perm s.dequeued
  stopped : s.runningFlag = false → .waiting ∉ s.places
  waits : .waiting ∈ s.places → s.queue.length ≤ s.places.countP Place.isWoken

section Inv

variable {s : BlockQueue T} {i : ℕ} {p q : Place T}

theorem inv_init : Inv (init : BlockQueue T) :=
  ⟨rfl, List.Perm.refl _, (fun _ h => by cases h), fun h => by cases h⟩

/-- A call goes on without an item.  A call that was woken may do so only if nobody waits. -/
theorem Inv.go (h : Inv s) (hi : s.places[i]? = some p) (hp : p.item? = none) (hp' : q.item? = none)
    (hwaiting : q ≠ .waiting) (hwoken : p.isWoken → q.isWoken ∨ .waiting ∉ s.places) : Inv (s.go i q) := by
  refine ⟨h.fifo, ?_, fun hstop hmem => h.stopped hstop (mem_of_mem_set hwaiting hmem), fun hmem => ?_⟩
  · have hperm := filterMap_set_perm (q := q) Place.item? hi hp
    rw [hp'] at hperm
    exact hperm.trans h.items
  · have hmem' := mem_of_mem_set hwaiting hmem
    have hcount := countP_set (q := q) Place.isWoken hi
    refine (h.waits hmem').trans ?_
    show _ ≤ (s.places.set i q).countP Place.isWoken
    cases hpw : p.isWoken with
    | false =>
      rw [hpw] at hcount
      rw [← Nat.add_zero (List.countP _ (s.places.set i q))]
      exact hcount ▸ Nat.le_add_right _ _
    | true =>
      have hpw' := (hwoken hpw).resolve_right (not_not_intro hmem')
      rw [hpw, hpw'] at hcount
      exact (Nat.add_right_cancel hcount).ge

/-- A call takes an item.  If it was woken, there is one item less and one call less on its way. -/
theorem Inv.pop (h : Inv s) (hi : s.places[i]? = some p) (hp : p.item? = none) {item : T} {rest : List T}
    (hqueue : s.queue = item :: rest) : Inv (s.pop i item rest) := by
  have hne : (Place.returned (.item item) : Place T) ≠ .waiting := nofun
  refine ⟨?_, ?_, fun hstop hmem => h.stopped hstop (mem_of_mem_set hne hmem), fun hmem => ?_⟩
  · show s.enqueued = (s.dequeued ++ [item]) ++ rest
    rw [h.fifo, hqueue, List.append_assoc]
    rfl
  · refine (filterMap_set_perm Place.item? hi hp).trans ?_
    exact (h.items.cons item).trans (List.perm_append_singleton item s.dequeued).symm
  · have hcount := countP_set (q := .returned (.item item)) Place.isWoken hi
    have hwaits := h.waits (mem_of_mem_set hne hmem)
    rw [hqueue, List.length_cons] at hwaits
    have hzero : (Place.returned (.item item) : Place T).isWoken = false := rfl
    rw [hzero] at hcount
    show rest.length ≤ (s.places.set i (.returned (.item item))).countP Place.isWoken
    cases hpw : p.isWoken with
    | false =>
      rw [hpw] at hcount
      have hsame : (s.places.set i (.returned (.item item))).countP Place.isWoken = s.places.countP Place.isWoken := hcount
      omega
    | true =>
      rw [hpw] at hcount
      have hless : (s.places.set i (.returned (.item item))).countP Place.isWoken + 1 =
        s.places.countP Place.isWoken := hcount
      omega

/-- Some call that waits is notified, if there is one. -/
theorem notifyOne_cases (s : BlockQueue T) (pick : ℕ) :
    (.waiting ∉ s.places ∧ s.notifyOne pick = s) ∨
      ∃ j, s.places[j]? = some .waiting ∧ s.notifyOne pick = s.go j .woken := by
  have hfirst : (.waiting ∉ s.places ∧ s.go (s.places.findIdx Place.isWaiting) .woken = s) ∨
      ∃ j, s.places[j]? = some .waiting ∧ s.go (s.places.findIdx Place.isWaiting) .woken = s.go j .woken := by
    by_cases hmem : .waiting ∈ s.places
    · have hlt := List.findIdx_lt_length_of_exists (p := Place.isWaiting) ⟨_, hmem, rfl⟩
      refine .inr ⟨_, ?_, rfl⟩
      rw [List.getElem?_eq_getElem hlt, eq_waiting_of_isWaiting List.findIdx_getElem]
    · have hlength : s.places.findIdx Place.isWaiting = s.places.length := by
        refine List.findIdx_eq_length.2 fun p hp => Bool.eq_false_iff.2 fun hwaiting => ?_
        exact hmem (eq_waiting_of_isWaiting hwaiting ▸ hp)
      refine .inl ⟨hmem, ?_⟩
      rw [go, hlength, List.set_eq_of_length_le le_rfl]
  unfold notifyOne
  cases hp : s.places[pick]? with
  | none => exact hfirst
  | some p =>
    cases p with
    | waiting => exact .inr ⟨pick, hp, rfl⟩
    | _ => exact hfirst

/-- What is pushed has a call on its way to it, if some call waits. -/
theorem Inv.notifyOne (h : Inv s) (hrunning : s.runningFlag = true) (item : T) (pick : ℕ) :
    Inv ({ s with queue := s.queue ++ [item], enqueued := s.enqueued ++ [item] }.notifyOne pick) := by
  have hfifo : s.enqueued ++ [item] = s.dequeued ++ (s.queue ++ [item]) := by rw [h.fifo, List.append_assoc]
  have hstopped : ∀ {l : List (Place T)}, s.runningFlag = false → .waiting ∉ l := fun hstop => by
    rw [hrunning] at hstop
    cases hstop
  rcases notifyOne_cases { s with queue := s.queue ++ [item], enqueued := s.enqueued ++ [item] } pick with
    ⟨hmem, heq⟩ | ⟨j, hj, heq⟩
  · rw [heq]
    exact ⟨hfifo, h.items, hstopped, fun hmem' => absurd hmem' hmem⟩
  · rw [heq]
    refine ⟨hfifo, (filterMap_set_perm Place.item? hj rfl).trans h.items, hstopped, fun hmem => ?_⟩
    have hcount := countP_set (q := .woken) Place.isWoken hj
    have hwaits := h.waits (List.mem_of_getElem? hj)
    show (s.queue ++ [item]).length ≤ (s.places.set j .woken).countP Place.isWoken
    have hmore : (s.places.set j .woken).countP Place.isWoken = s.places.countP Place.isWoken + 1 := hcount
    rw [List.length_append, List.length_singleton, hmore]
    exact Nat.add_le_add_right hwaits 1

theorem getElem?_notifyOne (hi : s.places[i]? = some p) (hp : p ≠ .waiting) (pick : ℕ) :
    (s.notifyOne pick).places[i]? = some p := by
  rcases notifyOne_cases s pick with ⟨-, heq⟩ | ⟨j, hj, heq⟩
  · rw [heq]
    exact hi
  · rw [heq]
    show (s.places.set j .woken)[i]? = some p
    rw [List.getElem?_set_ne, hi]
    rintro rfl
    rw [hi] at hj
    exact hp (Option.some.inj hj)

theorem Inv.enqueue (h : Inv s) {item : T} (hi : s.places[i]? = some (.called (.enqueue item))) (pick : ℕ) :
    Inv (s.enqueue i item pick) := by
  unfold BlockQueue.enqueue
  split_ifs with hrunning
  · have hcalled := getElem?_notifyOne
      (s := { s with queue := s.queue ++ [item], enqueued := s.enqueued ++ [item] }) hi nofun pick
    exact (h.notifyOne hrunning item pick).go hcalled rfl rfl nofun nofun
  · exact h.go hi rfl rfl nofun nofun

/-- `Dequeue`, at its begin or behind a wait. -/
theorem Inv.dequeue (h : Inv s) (hi : s.places[i]? = some p) (hp : p.item? = none) : Inv (s.dequeue i) := by
  unfold BlockQueue.dequeue
  split_ifs with hrunning
  · split
    · rename_i hqueue
      -- nobody takes an item: with an empty queue no call has to be on its way
      refine ⟨h.fifo, (filterMap_set_perm Place.item? hi hp).trans h.items, fun hstop => ?_, fun _ => ?_⟩
      · rw [show (s.go i .waiting).runningFlag = s.runningFlag from rfl, hrunning] at hstop
        cases hstop
      · show s.queue.length ≤ _
        rw [hqueue]
        exact Nat.zero_le _
    · rename_i hqueue
      exact h.pop hi hp hqueue
  · have hstop : s.runningFlag = false := by simpa using hrunning
    exact h.go hi hp rfl (fun hwaiting => by cases hwaiting) fun _ => .inr (h.stopped hstop)

theorem Inv.tryDequeue (h : Inv s) (hi : s.places[i]? = some (.called .tryDequeue)) : Inv (s.tryDequeue i) := by
  unfold BlockQueue.tryDequeue
  have hgo : Inv (s.go i (.returned .nullopt)) :=
    h.go hi rfl rfl (fun hwaiting => by cases hwaiting) fun hwoken => absurd hwoken Bool.false_ne_true
  split
  · exact hgo
  · rename_i hqueue
    split_ifs with hrunning
    · exact h.pop hi rfl hqueue
    · exact hgo

theorem Inv.notifyAll (h : Inv s) : Inv { s with runningFlag := false }.notifyAll := by
  have hnone : .waiting ∉ s.places.map Place.wake := fun hmem => by
    obtain ⟨p, -, hp⟩ := List.mem_map.1 hmem
    exact wake_ne_waiting hp
  refine ⟨h.fifo, ?_, fun _ => hnone, fun hmem => absurd hmem hnone⟩
  show ((s.places.map Place.wake).filterMap Place.item?).Perm s.dequeued
  rw [List.filterMap_map, (funext fun p => item?_wake : Place.item? ∘ Place.wake = Place.item? (T := T))]
  exact h.items

theorem Inv.stop (h : Inv s) (hi : s.places[i]? = some (.called .stop)) : Inv (s.stop i) := by
  have hi' : (s.places.map Place.wake)[i]? = some (.called .stop) := by
    rw [List.getElem?_map, hi]
    rfl
  exact h.notifyAll.go hi' rfl rfl nofun nofun

theorem Inv.lock (h : Inv s) (i pick : ℕ) : Inv (s.lock i pick) := by
  unfold BlockQueue.lock
  split
  · rename_i hi
    exact h.enqueue hi pick
  · rename_i hi
    exact h.dequeue hi rfl
  · rename_i hi
    exact h.dequeue hi rfl
  · rename_i hi
    exact h.tryDequeue hi
  · rename_i hi
    exact h.stop hi
  · exact h

theorem Inv.step (h : Inv s) (op : Op T) : Inv (s.step op) := by
  cases op with
  | call call =>
    have hmem : Place.waiting ∈ s.places ++ [Place.called call] → Place.waiting ∈ s.places := fun hmem =>
      (List.mem_append.1 hmem).resolve_right fun hmem => by cases List.mem_singleton.1 hmem
    refine ⟨h.fifo, ?_, fun hstop hm => h.stopped hstop (hmem hm), fun hm => ?_⟩
    · show ((s.places ++ [Place.called call]).filterMap Place.item?).Perm s.dequeued
      rw [List.filterMap_append]
      exact (List.append_nil _).symm ▸ h.items
    · show _ ≤ (s.places ++ [Place.called call]).countP Place.isWoken
      rw [List.countP_append]
      exact h.waits (hmem hm)
  | lock i pick => exact h.lock i pick
  | wake i =>
    show Inv (s.wake i)
    unfold BlockQueue.wake
    split
    · rename_i hi
      exact h.go hi rfl rfl nofun nofun
    · exact h

end Inv

theorem inv_run (ops : List (Op T)) : Inv (run ops) :=
  (Lib.Run.allHold_of_inv Inv (fun h => h) (fun h op => h.step op) inv_init ops).last

/-- **First in, first out**: what has been put into the queue is what has been taken out, and then what is in it, in the
same order, and what the calls have returned are the items that have been taken out, each once. -/
theorem enqueued_eq_run (ops : List (Op T)) :
    (run ops).enqueued = (run ops).dequeued ++ (run ops).queue ∧
      ((run ops).places.filterMap Place.item?).Perm (run ops).dequeued :=
  ⟨(inv_run ops).fifo, (inv_run ops).items⟩

/-! ### Fair runs -/

section Fair

variable {s : BlockQueue T} {i : ℕ} {p q : Place T}

/-- The calls that have not returned. -/
def pending (s : BlockQueue T) : ℕ := s.places.countP fun p => !p.isReturned

/-- A call that returns as soon as it gets the mutex. -/
def CanReturn (s : BlockQueue T) : Place T → Prop
  | .called .dequeue => s.queue ≠ [] ∨ s.runningFlag = false
  | .woken => s.queue ≠ [] ∨ s.runningFlag = false
  | .called _ => True
  | _ => False

/-- A call of `Dequeue` that has not returned. -/
def Place.isDequeue : Place T → Bool
  | .called .dequeue => true
  | .waiting => true
  | .woken => true
  | _ => false

theorem pending_go (hi : s.places[i]? = some p) (hp : p.isReturned = false) :
    (s.go i q).pending + 1 = s.pending + if q.isReturned then 0 else 1 := by
  have hcount := countP_set (q := q) (fun p => !p.isReturned) hi
  rw [hp] at hcount
  cases hp' : q.isReturned with
  | true =>
    rw [hp'] at hcount
    exact hcount
  | false =>
    rw [hp'] at hcount
    exact hcount

theorem pending_returned_lt (hi : s.places[i]? = some p) (hp : p.isReturned = false) (result : Result T) :
    (s.go i (.returned result)).pending < s.pending :=
  Nat.lt_of_succ_le (pending_go (q := .returned result) hi hp).le

theorem pending_notifyOne (s : BlockQueue T) (pick : ℕ) : (s.notifyOne pick).pending = s.pending := by
  rcases notifyOne_cases s pick with ⟨-, heq⟩ | ⟨j, hj, heq⟩
  · rw [heq]
  · rw [heq]
    exact Nat.add_right_cancel (pending_go (q := .woken) hj rfl)

theorem isReturned_wake : p.wake.isReturned = p.isReturned := by
  cases p <;> rfl

theorem pending_notifyAll (s : BlockQueue T) : s.notifyAll.pending = s.pending := by
  show (s.places.map Place.wake).countP _ = s.places.countP _
  rw [List.countP_map]
  exact congrArg (List.countP · s.places) (funext fun p => congrArg not isReturned_wake)

theorem pending_dequeue_lt (hi : s.places[i]? = some p) (hp : p.isReturned = false)
    (h : s.queue ≠ [] ∨ s.runningFlag = false) : (s.dequeue i).pending < s.pending := by
  unfold dequeue
  split_ifs with hrunning
  · split
    · rename_i hqueue
      rcases h with h | h
      · exact absurd hqueue h
      · rw [hrunning] at h
        cases h
    · exact pending_returned_lt hi hp _
  · exact pending_returned_lt hi hp _

theorem pending_lock_lt (hi : s.places[i]? = some p) (h : s.CanReturn p) (pick : ℕ) :
    (s.lock i pick).pending < s.pending := by
  unfold lock
  rw [hi]
  cases p with
  | called call =>
    cases call with
    | enqueue item =>
      show (s.enqueue i item pick).pending < s.pending
      unfold enqueue
      split_ifs with hrunning
      · have hcalled := getElem?_notifyOne
          (s := { s with queue := s.queue ++ [item], enqueued := s.enqueued ++ [item] }) hi nofun pick
        exact (pending_returned_lt hcalled rfl .done).trans_eq (pending_notifyOne _ pick)
      · exact pending_returned_lt hi rfl _
    | dequeue => exact pending_dequeue_lt hi rfl h
    | tryDequeue =>
      show (s.tryDequeue i).pending < s.pending
      unfold tryDequeue
      split
      · exact pending_returned_lt hi rfl _
      · split_ifs
        · exact pending_returned_lt hi rfl _
        · exact pending_returned_lt hi rfl _
    | stop =>
      have hi' : (s.places.map Place.wake)[i]? = some (.called .stop) := by
        rw [List.getElem?_map, hi]
        rfl
      exact (pending_returned_lt (s := { s with runningFlag := false }.notifyAll) hi' rfl .done).trans_eq
        (pending_notifyAll _)
  | woken => exact pending_dequeue_lt hi rfl h
  | waiting => exact h.elim
  | returned result => exact h.elim

/-- A call that cannot return begins to wait, or it has nothing to do. -/
theorem lock_of_not_canReturn (h : ∀ p, s.places[i]? = some p → ¬ s.CanReturn p) (pick : ℕ) :
    s.lock i pick = s ∨ s.lock i pick = s.go i .waiting ∧ ∃ p, s.places[i]? = some p ∧ p.isReturned = false := by
  have hdequeue : ∀ {p}, s.places[i]? = some p → p.isReturned = false → ¬ (s.queue ≠ [] ∨ s.runningFlag = false) →
      s.dequeue i = s.go i .waiting := by
    intro p _ _ hnot
    rw [not_or, not_not, Bool.not_eq_false] at hnot
    unfold dequeue
    rw [if_pos hnot.2, hnot.1]
  unfold lock
  cases hi : s.places[i]? with
  | none => exact .inl rfl
  | some p =>
    have hnot := h p hi
    cases p with
    | called call =>
      cases call with
      | dequeue => exact .inr ⟨hdequeue hi rfl hnot, _, rfl, rfl⟩
      | _ => exact absurd trivial hnot
    | woken => exact .inr ⟨hdequeue hi rfl hnot, _, rfl, rfl⟩
    | waiting => exact .inl rfl
    | returned result => exact .inl rfl

theorem wake_cases (s : BlockQueue T) (i : ℕ) :
    s.wake i = s ∨ s.wake i = s.go i .woken ∧ s.places[i]? = some .waiting := by
  unfold wake
  split
  · rename_i hi
    exact .inr ⟨rfl, hi⟩
  · exact .inl rfl

/-- A step behind which as many calls have not returned. -/
structure Quiet (s s' : BlockQueue T) : Prop where
  queue : s'.queue = s.queue
  runningFlag : s'.runningFlag = s.runningFlag
  places : ∀ {j : ℕ} {p : Place T}, s.places[j]? = some p → s.CanReturn p → s'.places[j]? = some p

theorem quiet_go (h : ∀ p, s.places[i]? = some p → ¬ s.CanReturn p) (q : Place T) : Quiet s (s.go i q) := by
  refine ⟨rfl, rfl, fun {j p} hj hp => ?_⟩
  show (s.places.set i q)[j]? = some p
  rw [List.getElem?_set_ne, hj]
  rintro rfl
  exact h p hj hp

theorem quiet_step {op : Op T} (hop : ∀ call, op ≠ .call call) (hpending : (s.step op).pending = s.pending) :
    Quiet s (s.step op) := by
  have hrefl : Quiet s s := ⟨rfl, rfl, fun hj _ => hj⟩
  cases op with
  | call call => exact absurd rfl (hop call)
  | lock i pick =>
    have hnot : ∀ p, s.places[i]? = some p → ¬ s.CanReturn p := fun p hi hp =>
      (pending_lock_lt hi hp pick).ne hpending
    show Quiet s (s.lock i pick)
    rcases lock_of_not_canReturn hnot pick with heq | ⟨heq, -⟩
    · rw [heq]
      exact hrefl
    · rw [heq]
      exact quiet_go hnot _
  | wake i =>
    show Quiet s (s.wake i)
    rcases wake_cases s i with heq | ⟨heq, hi⟩
    · rw [heq]
      exact hrefl
    · rw [heq]
      refine quiet_go (fun p hp hreturn => ?_) _
      rw [hi] at hp
      obtain rfl := Option.some.inj hp
      exact hreturn

theorem pending_step_le {op : Op T} (hop : ∀ call, op ≠ .call call) : (s.step op).pending ≤ s.pending := by
  cases op with
  | call call => exact absurd rfl (hop call)
  | lock i pick =>
    show (s.lock i pick).pending ≤ s.pending
    by_cases h : ∃ p, s.places[i]? = some p ∧ s.CanReturn p
    · obtain ⟨p, hi, hp⟩ := h
      exact (pending_lock_lt hi hp pick).le
    · rcases lock_of_not_canReturn (fun p hi hp => h ⟨p, hi, hp⟩) pick with heq | ⟨heq, p, hi, hp⟩
      · rw [heq]
      · rw [heq]
        exact Nat.le_of_succ_le_succ (pending_go (q := .waiting) hi hp).le
  | wake i =>
    show (s.wake i).pending ≤ s.pending
    rcases wake_cases s i with heq | ⟨heq, hi⟩
    · rw [heq]
    · rw [heq]
      exact Nat.le_of_succ_le_succ (pending_go (q := .woken) hi rfl).le

/-- A call that can return does so when it gets the mutex, and a scheduler gives it the mutex. -/
theorem not_canReturn {σ : ℕ → Op T} {at' : ℕ → BlockQueue T} {n : ℕ}
    (hfair : ∀ i, Often σ fun op => ∃ pick, op = .lock i pick) (hsucc : ∀ m, at' (m + 1) = (at' m).step (σ m))
    (hcalls : ∀ m ≥ n, ∀ call, σ m ≠ .call call) (hpending : ∀ m ≥ n, ((at' m).step (σ m)).pending = (at' m).pending)
    {m : ℕ} (hm : m ≥ n) (hi : (at' m).places[i]? = some p) : ¬ (at' m).CanReturn p := by
  intro hp
  have hkeep : ∀ k ≥ m, ¬ (∃ pick, σ k = .lock i pick) →
      (at' k).places[i]? = some p ∧ (at' k).CanReturn p → (at' (k + 1)).places[i]? = some p ∧ (at' (k + 1)).CanReturn p := by
    rintro k hk - ⟨hi, hp⟩
    have hquiet := quiet_step (hcalls k (hm.le.trans hk)) (hpending k (hm.le.trans hk))
    rw [hsucc]
    refine ⟨hquiet.places hi hp, ?_⟩
    unfold CanReturn
    rw [hquiet.queue, hquiet.runningFlag]
    exact hp
  obtain ⟨k, hk, ⟨pick, hop⟩, hi', hp'⟩ := exists_next (hfair i) hkeep ⟨hi, hp⟩
  have hlt := pending_lock_lt hi' hp' pick
  have heq := hpending k (hm.le.trans hk)
  rw [hop] at heq
  exact hlt.ne heq

/-- Where no call can return, those that are left are calls of `Dequeue` on an empty queue. -/
theorem Inv.returned_or_empty (h : Inv s) (hnot : ∀ p ∈ s.places, ¬ s.CanReturn p) :
    ∀ p ∈ s.places, p.isReturned ∨ (p.isDequeue ∧ s.queue = [] ∧ s.runningFlag = true) := by
  have hempty : ¬ (s.queue ≠ [] ∨ s.runningFlag = false) → s.queue = [] ∧ s.runningFlag = true := by
    rw [not_or, not_not, Bool.not_eq_false]
    exact fun h => h
  intro p hmem
  cases p with
  | called call =>
    cases call with
    | dequeue => exact .inr ⟨rfl, hempty (hnot _ hmem)⟩
    | _ => exact absurd trivial (hnot _ hmem)
  | woken => exact .inr ⟨rfl, hempty (hnot _ hmem)⟩
  | waiting =>
    refine .inr ⟨rfl, hempty ?_⟩
    rintro (hqueue | hstop)
    · -- a call is on its way to what is in the queue
      have hpos : 0 < s.places.countP Place.isWoken := (List.length_pos_iff.2 hqueue).trans_le (h.waits hmem)
      obtain ⟨p, hmem', hp⟩ := List.countP_pos_iff.1 hpos
      cases p with
      | woken => exact hnot _ hmem' (.inl hqueue)
      | _ => cases hp
    · exact h.stopped hstop hmem
  | returned result => exact .inl rfl

/-- **No wake-up is lost**: with a fair scheduler, and finitely many calls, there comes a time from which on each call has
returned, or it is a `Dequeue` on a queue that is empty and not stopped. -/
theorem returned_or_empty_of_fair (σ : ℕ → Op T) (hfair : ∀ i, Often σ fun op => ∃ pick, op = .lock i pick)
    (hcalls : ∃ n, ∀ m ≥ n, ∀ call, σ m ≠ .call call) :
    ∃ n, ∀ m ≥ n, ∀ p ∈ (stateAt step init σ m).places, p.isReturned ∨
      (p.isDequeue ∧ (stateAt step init σ m).queue = [] ∧ (stateAt step init σ m).runningFlag = true) := by
  have hinv : ∀ n, Inv (stateAt step init σ n) := stateAt_inv Inv (fun h op => h.step op) inv_init
  have hsucc : ∀ n, stateAt step init σ (n + 1) = step (stateAt step init σ n) (σ n) := stateAt_succ
  generalize stateAt step init σ = at' at hinv hsucc ⊢
  obtain ⟨n₀, hcalls⟩ := hcalls
  obtain ⟨k, hconst⟩ := eventually_const (fun k => (at' (n₀ + k)).pending) fun k => by
    rw [← Nat.add_assoc, hsucc]
    exact pending_step_le (hcalls _ (Nat.le_add_right n₀ k))
  have hpending : ∀ m ≥ n₀ + k, ((at' m).step (σ m)).pending = (at' m).pending := by
    intro m hm
    obtain ⟨d, rfl⟩ := Nat.exists_eq_add_of_le hm
    rw [← hsucc, Nat.add_assoc n₀ k d, Nat.add_assoc n₀]
    exact (hconst (k + d + 1) (by omega)).trans (hconst (k + d) (by omega)).symm
  refine ⟨n₀ + k, fun m hm => (hinv m).returned_or_empty fun p hmem => ?_⟩
  obtain ⟨i, hi⟩ := List.getElem?_of_mem hmem
  exact not_canReturn hfair hsucc (fun m hm => hcalls m (Nat.le_trans (Nat.le_add_right n₀ k) hm)) hpending hm hi

/-- Two calls of `Dequeue`, one of `Enqueue`, and then the mutex for one call after the other. -/
def inTurn (n : ℕ) : Op ℕ :=
  match n with
  | 0 => .call .dequeue
  | 1 => .call .dequeue
  | 2 => .call (.enqueue 7)
  | n + 3 => .lock n.unpair.1 0

theorem returned_or_empty_of_inTurn :
    ∃ n, ∀ m ≥ n, ∀ p ∈ (stateAt step init inTurn m).places, p.isReturned ∨
      (p.isDequeue ∧ (stateAt step init inTurn m).queue = [] ∧ (stateAt step init inTurn m).runningFlag = true) := by
  refine returned_or_empty_of_fair inTurn (fun i n => ⟨Nat.pair i n + 3, ?_, 0, ?_⟩) ⟨3, fun m hm call => ?_⟩
  · exact (Nat.right_le_pair i n).trans (Nat.le_add_right _ 3)
  · rw [inTurn, Nat.unpair_pair]
  · obtain ⟨k, rfl⟩ := Nat.exists_eq_add_of_le' hm
    exact nofun

end Fair

end BlockQueue

end AimRT.Util
