import AimRT.Lib.SharedPtr
import AimRT.Util.DynamicLatch

/-!
# TryExecute

`ExecutorRef::TryExecute` counts a task up in a latch before it is given to the executor, and the task counts down
behind what it does.  So each task is counted down when it has been run, and who waits for the latch returns when no
task is outstanding: as long as the executor discards no task (`Meets`).  A task that is discarded is never counted
down, and `Wait` and `CloseAndWait` wait for it for ever.
-/

namespace AimRT.Executor

open Lib Lib.Run Util

/-- A call of `TryExecute` and its task: in `TryAdd`, refused, given to the executor, discarded by it, and in
`CountDown` behind the task. -/
inductive TryExecute where
  | adding (t : Thread)
  | refused
  | submitted
  | dropped
  | counting (t : Thread)
  deriving DecidableEq, Repr

/-- The word of the latch, the calls of `TryExecute`, and those of `Close`, `Wait` and `CloseAndWait`. -/
structure Latched where
  state : BitVec 64 := 0
  calls : List TryExecute := []
  waits : List Thread := []
  deriving DecidableEq, Repr

namespace Latched

/-- A call is made, or takes its next step; the executor runs a task, which returns, or discards one. -/
inductive Op where
  | tryExecute
  | close
  | wait
  | closeAndWait
  | call (k : ℕ) (weak : Bool)
  | run (i : ℕ) (weak : Bool)
  | perform (k : ℕ)
  | drop (k : ℕ)
  deriving DecidableEq, Repr

/-- `notify_all`, where a turn makes it. -/
def notified (waits : List Thread) (turn : Turn) : List Thread := if turn.notifies then waits.map Thread.wake else waits

/-- The next step of a call of `TryExecute`. -/
def callStep (y : Latched) (k : ℕ) (weak : Bool) : TryExecute → Latched
  | .adding (.returned true) => { y with calls := y.calls.set k .submitted }
  | .adding (.returned false) => { y with calls := y.calls.set k .refused }
  | .adding t =>
    let turn := t.turn weak y.state
    { state := turn.state, calls := y.calls.set k (.adding turn.thread), waits := notified y.waits turn }
  | .counting t =>
    let turn := t.turn weak y.state
    { state := turn.state, calls := y.calls.set k (.counting turn.thread), waits := notified y.waits turn }
  | _ => y

/-- The next step of a call of `Close`, `Wait` or `CloseAndWait`. -/
def waitStep (y : Latched) (i : ℕ) (weak : Bool) (t : Thread) : Latched :=
  let turn := t.turn weak y.state
  { y with state := turn.state, waits := notified (y.waits.set i turn.thread) turn }

def step (y : Latched) : Op → Latched
  | .tryExecute => { y with calls := y.calls ++ [.adding (Call.tryAdd 1).thread] }
  | .close => { y with waits := y.waits ++ [Call.close.thread] }
  | .wait => { y with waits := y.waits ++ [Call.wait.thread] }
  | .closeAndWait => { y with waits := y.waits ++ [Call.closeAndWait.thread] }
  | .call k weak =>
    match y.calls[k]? with
    | none => y
    | some c => y.callStep k weak c
  | .run i weak =>
    match y.waits[i]? with
    | none => y
    | some t => y.waitStep i weak t
  | .perform k =>
    match y.calls[k]? with
    | some .submitted => { y with calls := y.calls.set k (.counting (Call.countDown 1).thread) }
    | _ => y
  | .drop k =>
    match y.calls[k]? with
    | some .submitted => { y with calls := y.calls.set k .dropped }
    | _ => y

/-! ### What is promised -/

end Latched

/-- How often a call has added to the latch. -/
def TryExecute.added : TryExecute → ℕ
  | .adding (.returned ret) => ret.toNat
  | .adding _ => 0
  | .refused => 0
  | _ => 1

/-- How often the latch was counted down for a call. -/
def TryExecute.countDowns : TryExecute → ℕ
  | .counting (.notify _) => 1
  | .counting (.returned _) => 1
  | _ => 0

/-- The task of the call has been run, `CountDown` included, or was discarded. -/
def TryExecute.Ended : TryExecute → Prop
  | .counting (.returned _) => True
  | .counting .threw => True
  | .dropped => True
  | _ => False

/-- A task was submitted and has not ended. -/
def TryExecute.Outstanding (c : TryExecute) : Prop := 0 < c.added ∧ ¬ c.Ended

namespace Latched

/-- The call `i` takes `n` steps, and no other call takes one. -/
def alone (y : Latched) (i : ℕ) : ℕ → Latched
  | 0 => y
  | n + 1 => alone (y.step (.run i false)) i n

/-- What is counted up and not counted down. -/
def outstanding (y : Latched) : ℕ := (y.calls.map fun c => c.added - c.countDowns).sum

/-- **The tasks are accounted for.** -/
structure Accounted (y : Latched) : Prop where
  /-- A task that has ended was counted down once. -/
  matched : ∀ c ∈ y.calls, c.Ended → c.countDowns = 1
  count : (getCount y.state).toNat = y.outstanding
  /-- When no task is outstanding, a call that waits returns. -/
  returns : (∀ c ∈ y.calls, ¬ c.Outstanding) → ∀ i < y.waits.length,
    ∃ n, (y.alone i n).waits[i]? = some (.returned true)

/-- No submitted task is discarded, and what is outstanding stays below `2 ^ 63`. -/
def Meets (y : Latched) (op : Op) : Prop :=
  (∀ k, op = .drop k → y.calls[k]? ≠ some .submitted) ∧ (y.step op).outstanding < 2 ^ 63

/-! ### The word -/

theorem getCount_add_one {state : BitVec 64} (hopen : isClosed state = false)
    (hlt : (getCount state).toNat + 1 < 2 ^ 63) : (getCount (state + 1)).toNat = (getCount state).toNat + 1 := by
  have hlow : state.toNat < 2 ^ 63 := by
    rw [← not_le, ← isClosed_iff, hopen]
    exact Bool.false_ne_true
  have hone : (1 : BitVec 64).toNat = 1 := rfl
  rw [toNat_getCount] at hlt ⊢
  rw [toNat_getCount, BitVec.toNat_add, hone]
  omega

theorem getCount_sub_one {state : BitVec 64} (hpos : 0 < (getCount state).toNat) :
    (getCount (state - 1)).toNat + 1 = (getCount state).toNat := by
  have hone : (1 : BitVec 64).toNat = 1 := rfl
  have hlt := state.isLt
  rw [toNat_getCount] at hpos ⊢
  rw [toNat_getCount, BitVec.toNat_sub, hone]
  omega

theorem getCount_or_closedFlag {state : BitVec 64} (hopen : isClosed state = false) :
    getCount (state ||| closedFlag) = getCount state := by
  have hlow : state.toNat < 2 ^ 63 := by
    rw [← not_le, ← isClosed_iff, hopen]
    exact Bool.false_ne_true
  rw [← BitVec.toNat_inj, toNat_getCount, toNat_getCount, toNat_or_closedFlag hlow]
  omega

theorem getCount_eq_zero {state : BitVec 64} : getCount state = 0 ↔ (getCount state).toNat = 0 := by
  rw [← BitVec.toNat_inj]
  rfl

theorem getCount_eq_one {state : BitVec 64} : getCount state = 1 ↔ (getCount state).toNat = 1 := by
  rw [← BitVec.toNat_inj]
  rfl

/-! ### The invariant -/

/-- Where a call can be, when no task is discarded. -/
def Sound : TryExecute → Prop
  | .adding (.tryAddLoad delta) => delta = 1
  | .adding (.tryAddLoop delta _) => delta = 1
  | .adding (.returned _) => True
  | .refused => True
  | .submitted => True
  | .counting (.countDown delta) => delta = 1
  | .counting (.notify andWait) => andWait = false
  | .counting (.returned ret) => ret = true
  | _ => False

/-- Where a call of `Close`, `Wait` or `CloseAndWait` can be. -/
def Waits : Thread → Prop
  | .closeLoad _ => True
  | .closeLoop _ _ => True
  | .notify _ => True
  | .waitLoad => True
  | .waitLoop _ => True
  | .blocked _ => True
  | .returned ret => ret = true
  | _ => False

/-- The word counts what is outstanding, and if it counts nothing while a call waits, that call will be woken. -/
structure Inv (y : Latched) : Prop where
  calls : ∀ c ∈ y.calls, Sound c
  waits : ∀ t ∈ y.waits, Waits t
  count : (getCount y.state).toNat = y.outstanding
  awake : ∀ current, .blocked current ∈ y.waits → getCount y.state = 0 → .counting (.notify false) ∈ y.calls

theorem inv_new : Inv {} where
  calls := nofun
  waits := nofun
  count := rfl
  awake := nofun

variable {y : Latched}

theorem mem_set_of_ne {T : Type} {l : List T} {k : ℕ} {c c' x : T} (hc : l[k]? = some c) (hx : x ∈ l) (hne : x ≠ c) :
    x ∈ l.set k c' := by
  obtain ⟨j, hj⟩ := List.mem_iff_getElem?.1 hx
  have hjk : k ≠ j := by
    rintro rfl
    rw [hc, Option.some.injEq] at hj
    exact hne hj.symm
  exact List.mem_of_getElem? (i := j) (by rw [List.getElem?_set_ne hjk, hj])

/-- A call of `TryExecute` moves on; if it leaves `notify_all` behind, nobody waits. -/
theorem Inv.setCall (h : Inv y) {k : ℕ} {c : TryExecute} (hc : y.calls[k]? = some c) {c' : TryExecute}
    (hsound : Sound c') {state : BitVec 64} {waits : List Thread}
    (hcount : (getCount state).toNat + (c.added - c.countDowns) =
      (getCount y.state).toNat + (c'.added - c'.countDowns))
    (hwaits : ∀ t ∈ waits, Waits t)
    (hawake : ∀ current, .blocked current ∈ waits → getCount state = 0 → c' = .counting (.notify false) ∨
      .counting (.notify false) ∈ y.calls ∧ c ≠ .counting (.notify false)) :
    Inv { state := state, calls := y.calls.set k c', waits := waits } := by
  have hlt : k < y.calls.length := (List.getElem?_eq_some_iff.1 hc).1
  refine ⟨?_, hwaits, ?_, ?_⟩
  · intro x hx
    rcases List.mem_or_eq_of_mem_set hx with hold | rfl
    · exact h.calls x hold
    · exact hsound
  · obtain ⟨m, hm, hset⟩ := exists_sum_map_set (fun c : TryExecute => c.added - c.countDowns) hc
    have hbefore := h.count
    rw [outstanding, hm] at hbefore
    show (getCount state).toNat = _
    rw [outstanding, hset]
    omega
  · intro current hblocked hzero
    rcases hawake current hblocked hzero with rfl | ⟨hmem, hne⟩
    · exact List.mem_set hlt _
    · exact mem_set_of_ne hc hmem (Ne.symm hne)

theorem waits_notified {waits : List Thread} {turn : Turn} (h : ∀ t ∈ waits, Waits t) :
    ∀ t ∈ notified waits turn, Waits t := by
  intro t ht
  rw [notified] at ht
  split_ifs at ht
  · obtain ⟨t', ht', rfl⟩ := List.mem_map.1 ht
    have hwaits := h t' ht'
    cases t' <;> exact hwaits
  · exact h t ht

theorem notMem_blocked_map_wake (waits : List Thread) (current : BitVec 64) :
    .blocked current ∉ waits.map Thread.wake := by
  intro hmem
  obtain ⟨t, -, ht⟩ := List.mem_map.1 hmem
  cases t <;> cases ht

/-- A turn of `TryAdd(1)`. -/
theorem Inv.tryAddLoop (h : Inv y) {k : ℕ} {weak : Bool} {current : BitVec 64}
    (hc : y.calls[k]? = some (.adding (.tryAddLoop 1 current)))
    (hlt : (y.callStep k weak (.adding (.tryAddLoop 1 current))).outstanding < 2 ^ 63) :
    Inv (y.callStep k weak (.adding (.tryAddLoop 1 current))) := by
  have hkeep : ∀ cur, .blocked cur ∈ y.waits → getCount y.state = 0 → .counting (.notify false) ∈ y.calls ∧
      TryExecute.adding (.tryAddLoop 1 current) ≠ .counting (.notify false) :=
    fun cur hblocked hzero => ⟨h.awake cur hblocked hzero, nofun⟩
  have hloop : Sound (.adding (.tryAddLoop 1 y.state)) := rfl
  have hreturned : ∀ ret, Sound (.adding (.returned ret)) := fun ret => trivial
  simp only [callStep, Thread.turn] at hlt ⊢
  split_ifs at hlt ⊢ with hclosed hsame
  · exact h.setCall hc (hreturned false) rfl h.waits fun cur hblocked hzero => .inr (hkeep cur hblocked hzero)
  · obtain ⟨rfl, -⟩ := hsame
    obtain ⟨m, hm, hset⟩ := exists_sum_map_set (fun c : TryExecute => c.added - c.countDowns) hc
    have hcount := h.count
    rw [outstanding] at hcount hlt
    rw [hm] at hcount
    rw [hset] at hlt
    simp only [TryExecute.added, TryExecute.countDowns, Bool.toNat_true] at hcount hlt
    have hadd := getCount_add_one (Bool.eq_false_iff.2 hclosed) (by omega)
    refine h.setCall hc (hreturned true) ?_ h.waits fun cur hblocked hzero => ?_
    · show _ + (0 - 0) = _ + (1 - 0)
      omega
    · have hnone : (getCount (y.state + 1)).toNat = 0 := getCount_eq_zero.1 hzero
      omega
  · exact h.setCall hc hloop rfl h.waits fun cur hblocked hzero => .inr (hkeep cur hblocked hzero)

/-- A turn of `CountDown(1)`. -/
theorem Inv.countDown (h : Inv y) {k : ℕ} {weak : Bool} (hc : y.calls[k]? = some (.counting (.countDown 1))) :
    Inv (y.callStep k weak (.counting (.countDown 1))) := by
  obtain ⟨m, hm, -⟩ := exists_sum_map_set (fun c : TryExecute => c.added - c.countDowns) hc
  have hpos : 1 ≤ (getCount y.state).toNat := by
    rw [h.count, outstanding, hm]
    exact Nat.le_add_right 1 m
  have hsle : (1 : BitVec 64).sle (getCount y.state) = true := by
    rw [DynamicLatch.sle_getCount ⟨by decide, by decide⟩]
    exact hpos
  have hsub := getCount_sub_one hpos
  have hnotify : Sound (.counting (.notify false)) := rfl
  have hreturned : Sound (.counting (.returned true)) := rfl
  simp only [callStep, Thread.turn, hsle, if_true]
  split_ifs with hone
  · refine h.setCall hc hnotify ?_ h.waits fun cur hblocked hzero => .inl rfl
    simp only [TryExecute.added, TryExecute.countDowns]
    omega
  · refine h.setCall hc hreturned ?_ h.waits fun cur hblocked hzero => ?_
    · simp only [TryExecute.added, TryExecute.countDowns]
      omega
    · rw [getCount_eq_zero] at hzero
      rw [getCount_eq_one] at hone
      omega

/-- A call of `TryExecute` takes its next step. -/
theorem Inv.callStep (h : Inv y) {k : ℕ} {weak : Bool} {c : TryExecute} (hc : y.calls[k]? = some c)
    (hlt : (y.callStep k weak c).outstanding < 2 ^ 63) : Inv (y.callStep k weak c) := by
  have hsound := h.calls c (List.mem_of_getElem? hc)
  cases c with
  | refused => exact h
  | submitted => exact h
  | dropped => exact h
  | adding t =>
    cases t with
    | tryAddLoad delta =>
      obtain rfl : delta = 1 := hsound
      have hloop : Sound (.adding (.tryAddLoop 1 y.state)) := rfl
      exact h.setCall hc hloop rfl h.waits fun cur hblocked hzero => .inr ⟨h.awake cur hblocked hzero, nofun⟩
    | tryAddLoop delta current =>
      obtain rfl : delta = 1 := hsound
      exact h.tryAddLoop hc hlt
    | returned ret =>
      have hsubmitted : Sound .submitted := trivial
      have hrefused : Sound .refused := trivial
      cases ret with
      | true =>
        exact h.setCall hc hsubmitted rfl h.waits fun cur hblocked hzero => .inr ⟨h.awake cur hblocked hzero, nofun⟩
      | false =>
        exact h.setCall hc hrefused rfl h.waits fun cur hblocked hzero => .inr ⟨h.awake cur hblocked hzero, nofun⟩
    | _ => exact hsound.elim
  | counting t =>
    cases t with
    | countDown delta =>
      obtain rfl : delta = 1 := hsound
      exact h.countDown hc
    | notify andWait =>
      obtain rfl : andWait = false := hsound
      have hreturned : Sound (.counting (.returned true)) := rfl
      exact h.setCall hc hreturned rfl (waits_notified h.waits) fun cur hblocked _ =>
        absurd hblocked (notMem_blocked_map_wake _ _)
    | returned ret =>
      obtain rfl : ret = true := hsound
      have hreturned : Sound (.counting (.returned true)) := rfl
      exact h.setCall hc hreturned rfl h.waits fun cur hblocked hzero => .inr ⟨h.awake cur hblocked hzero, nofun⟩
    | _ => exact hsound.elim

/-- A turn of a call that waits keeps the count, and it does not wait if there is nothing to wait for. -/
theorem turn_of_waits (state : BitVec 64) {t : Thread} (h : Waits t) (weak : Bool) :
    Waits (t.turn weak state).thread ∧ getCount (t.turn weak state).state = getCount state ∧
      ∀ current, (t.turn weak state).thread = .blocked current → t = .blocked current ∨ getCount state ≠ 0 := by
  have hafter : ∀ andWait, Waits (afterClose andWait) ∧ ∀ current, afterClose andWait ≠ .blocked current := by
    intro andWait
    cases andWait
    · exact ⟨rfl, fun current hcur => by cases hcur⟩
    · exact ⟨trivial, fun current hcur => by cases hcur⟩
  cases t with
  | closeLoad andWait => exact ⟨trivial, rfl, fun cur hcur => by cases hcur⟩
  | closeLoop andWait current =>
    simp only [Thread.turn]
    split_ifs with hclosed hsame hzero
    · exact ⟨(hafter andWait).1, rfl, fun cur hcur => absurd hcur ((hafter andWait).2 cur)⟩
    · obtain ⟨rfl, -⟩ := hsame
      exact ⟨trivial, getCount_or_closedFlag (Bool.eq_false_iff.2 hclosed), fun cur hcur => by cases hcur⟩
    · obtain ⟨rfl, -⟩ := hsame
      exact ⟨(hafter andWait).1, getCount_or_closedFlag (Bool.eq_false_iff.2 hclosed),
        fun cur hcur => absurd hcur ((hafter andWait).2 cur)⟩
    · exact ⟨trivial, rfl, fun cur hcur => by cases hcur⟩
  | notify andWait => exact ⟨(hafter andWait).1, rfl, fun cur hcur => absurd hcur ((hafter andWait).2 cur)⟩
  | waitLoad => exact ⟨trivial, rfl, fun cur hcur => by cases hcur⟩
  | waitLoop current =>
    simp only [Thread.turn]
    split_ifs with hzero hsame
    · exact ⟨rfl, rfl, fun cur hcur => by cases hcur⟩
    · exact ⟨trivial, rfl, fun cur _ => .inr (hsame ▸ hzero)⟩
    · exact ⟨trivial, rfl, fun cur hcur => by cases hcur⟩
  | blocked current =>
    simp only [Thread.turn]
    split_ifs
    · exact ⟨trivial, trivial, fun cur hcur => by cases hcur⟩
    · exact ⟨trivial, trivial, fun cur hcur => .inl hcur⟩
  | returned ret => exact ⟨h, rfl, fun cur hcur => by cases hcur⟩
  | _ => exact h.elim

/-- A call of `Close`, `Wait` or `CloseAndWait` takes its next step. -/
theorem Inv.waitStep (h : Inv y) {i : ℕ} {weak : Bool} {t : Thread} (ht : y.waits[i]? = some t) :
    Inv (y.waitStep i weak t) := by
  obtain ⟨hwaits, hcount, hblock⟩ := turn_of_waits y.state (h.waits t (List.mem_of_getElem? ht)) weak
  refine ⟨h.calls, waits_notified fun t' ht' => ?_, ?_, fun cur hcur hzero => ?_⟩
  · rcases List.mem_or_eq_of_mem_set ht' with hold | rfl
    · exact h.waits t' hold
    · exact hwaits
  · exact (congrArg BitVec.toNat hcount).trans h.count
  · have hnone : getCount y.state = 0 := hcount ▸ hzero
    simp only [Latched.waitStep, notified] at hcur
    split_ifs at hcur
    · exact absurd hcur (notMem_blocked_map_wake _ _)
    · rcases List.mem_or_eq_of_mem_set hcur with hold | hnew
      · exact h.awake cur hold hnone
      · rcases hblock cur hnew.symm with rfl | hne
        · exact h.awake cur (List.mem_of_getElem? ht) hnone
        · exact absurd hnone hne

/-- Another call is made. -/
theorem Inv.call (h : Inv y) {t : Thread} (ht : Waits t) (hne : ∀ current, t ≠ .blocked current) :
    Inv { y with waits := y.waits ++ [t] } := by
  refine ⟨h.calls, fun t' ht' => ?_, h.count, fun cur hcur hzero => ?_⟩
  · rcases List.mem_append.1 ht' with hold | hnew
    · exact h.waits t' hold
    · rw [List.mem_singleton.1 hnew]
      exact ht
  · rcases List.mem_append.1 hcur with hold | hnew
    · exact h.awake cur hold hzero
    · exact absurd (List.mem_singleton.1 hnew).symm (hne cur)

theorem Inv.tryExecute (h : Inv y) : Inv (y.step .tryExecute) := by
  refine ⟨fun c hc => ?_, h.waits, ?_, fun cur hcur hzero => List.mem_append_left _ (h.awake cur hcur hzero)⟩
  · rcases List.mem_append.1 hc with hold | hnew
    · exact h.calls c hold
    · rw [List.mem_singleton.1 hnew]
      rfl
  · have hcount := h.count
    rw [outstanding] at hcount
    show (getCount y.state).toNat = _
    simp [hcount, outstanding, Latched.step, Call.thread, TryExecute.added, TryExecute.countDowns]

theorem Inv.step (h : Inv y) {op : Op} (hmeets : Meets y op) : Inv (y.step op) := by
  obtain ⟨hkept, hlt⟩ := hmeets
  cases op with
  | tryExecute => exact h.tryExecute
  | close => exact h.call trivial nofun
  | wait => exact h.call trivial nofun
  | closeAndWait => exact h.call trivial nofun
  | call k weak =>
    simp only [Latched.step] at hlt ⊢
    cases hc : y.calls[k]? with
    | none => exact h
    | some c =>
      rw [hc] at hlt
      exact h.callStep hc hlt
  | run i weak =>
    simp only [Latched.step]
    cases ht : y.waits[i]? with
    | none => exact h
    | some t => exact h.waitStep ht
  | perform k =>
    simp only [Latched.step]
    split
    · rename_i hc
      have hsound : Sound (.counting (Call.countDown 1).thread) := rfl
      exact h.setCall hc hsound rfl h.waits fun cur hblocked hzero => .inr ⟨h.awake cur hblocked hzero, nofun⟩
    · exact h
  | drop k =>
    simp only [Latched.step]
    split
    · rename_i hc
      exact absurd hc (hkept k rfl)
    · exact h

/-! ### Who waits returns -/

/-- A step of a call that takes steps alone: the word, and where the call is then. -/
def turnAlone (s : BitVec 64 × Thread) : BitVec 64 × Thread :=
  let turn := s.2.turn false s.1
  (turn.state, if turn.notifies then turn.thread.wake else turn.thread)

theorem step_run {i : ℕ} {t : Thread} (ht : y.waits[i]? = some t) :
    (y.step (.run i false)).state = (turnAlone (y.state, t)).1 ∧
      (y.step (.run i false)).waits[i]? = some (turnAlone (y.state, t)).2 := by
  have hlt : i < y.waits.length := (List.getElem?_eq_some_iff.1 ht).1
  simp only [Latched.step, ht, Latched.waitStep, turnAlone, notified, true_and]
  split_ifs
  · rw [List.getElem?_map, List.getElem?_set_self hlt]
    rfl
  · exact List.getElem?_set_self hlt

theorem alone_eq {i : ℕ} (n : ℕ) : ∀ {y : Latched} {t : Thread}, y.waits[i]? = some t →
    (y.alone i n).waits[i]? = some (turnAlone^[n] (y.state, t)).2 := by
  induction n with
  | zero => exact fun ht => ht
  | succ n ih =>
    intro y t ht
    obtain ⟨hstate, hwaits⟩ := step_run ht
    rw [alone, Function.iterate_succ_apply, ih hwaits, hstate]

/-- A call returns when it takes steps alone. -/
def Returns (s : BitVec 64 × Thread) : Prop := ∃ n, (turnAlone^[n] s).2 = .returned true

theorem Returns.step {s s' : BitVec 64 × Thread} (h : Returns s') (hturn : turnAlone s = s') : Returns s := by
  obtain ⟨n, hn⟩ := h
  refine ⟨n + 1, ?_⟩
  rw [Function.iterate_succ_apply, hturn]
  exact hn

variable {state : BitVec 64} (current : BitVec 64) (andWait : Bool)

theorem returns_returned (state : BitVec 64) : Returns (state, .returned true) := ⟨0, rfl⟩

theorem returns_waitLoad (hzero : getCount state = 0) : Returns (state, .waitLoad) := by
  have hlooked : Returns (state, .waitLoop state) := by
    refine (returns_returned state).step ?_
    simp only [turnAlone, Thread.turn, if_pos hzero]
    rfl
  exact hlooked.step rfl

theorem returns_waitLoop (hzero : getCount state = 0) : Returns (state, .waitLoop current) := by
  by_cases hcurrent : getCount current = 0
  · refine (returns_returned state).step ?_
    simp only [turnAlone, Thread.turn, if_pos hcurrent]
    rfl
  · have hne : state ≠ current := by
      rintro rfl
      exact hcurrent hzero
    refine (returns_waitLoad hzero).step ?_
    simp only [turnAlone, Thread.turn, if_neg hcurrent, if_neg hne]
    rfl

theorem returns_afterClose (hzero : getCount state = 0) : Returns (state, afterClose andWait) := by
  cases andWait with
  | false => exact returns_returned state
  | true => exact returns_waitLoad hzero

theorem returns_notify (hzero : getCount state = 0) : Returns (state, .notify andWait) := by
  refine (returns_afterClose andWait hzero).step ?_
  cases andWait <;> rfl

theorem returns_closeLoop_self (hzero : getCount state = 0) : Returns (state, .closeLoop andWait state) := by
  by_cases hclosed : isClosed state = true
  · refine (returns_afterClose andWait hzero).step ?_
    simp only [turnAlone, Thread.turn, if_pos hclosed]
    rfl
  · have hor : getCount (state ||| closedFlag) = 0 :=
      (getCount_or_closedFlag (Bool.eq_false_iff.2 hclosed)).trans hzero
    refine (returns_notify andWait hor).step ?_
    simp only [turnAlone, Thread.turn, if_neg hclosed, true_and, if_pos hor]
    rfl

theorem returns_closeLoop (hzero : getCount state = 0) : Returns (state, .closeLoop andWait current) := by
  by_cases hclosed : isClosed current = true
  · refine (returns_afterClose andWait hzero).step ?_
    simp only [turnAlone, Thread.turn, if_pos hclosed]
    rfl
  · by_cases hsame : state = current
    · exact hsame ▸ returns_closeLoop_self andWait hzero
    · refine (returns_closeLoop_self andWait hzero).step ?_
      simp only [turnAlone, Thread.turn, if_neg hclosed, hsame, false_and, if_false]
      rfl

theorem returns_of_waits (hzero : getCount state = 0) {t : Thread} (h : Waits t) (hawake : ∀ cur, t ≠ .blocked cur) :
    Returns (state, t) := by
  cases t with
  | closeLoad andWait => exact (returns_closeLoop_self andWait hzero).step rfl
  | closeLoop andWait current => exact returns_closeLoop current andWait hzero
  | notify andWait => exact returns_notify andWait hzero
  | waitLoad => exact returns_waitLoad hzero
  | waitLoop current => exact returns_waitLoop current hzero
  | blocked current => exact absurd rfl (hawake current)
  | returned ret =>
    obtain rfl : ret = true := h
    exact returns_returned state
  | _ => exact h.elim

/-! ### Runs -/

theorem countDowns_of_not_outstanding {c : TryExecute} (h : Sound c) (hc : ¬ c.Outstanding) :
    c.added - c.countDowns = 0 := by
  rw [TryExecute.Outstanding, not_and, not_not] at hc
  by_contra hne
  have hended := hc (by omega)
  cases c with
  | dropped => exact h
  | counting t =>
    cases t with
    | returned ret => exact hne rfl
    | threw => exact h
    | _ => exact hended
  | _ => exact hended

theorem Inv.accounted (h : Inv y) : Accounted y where
  matched := by
    intro c hc hended
    have hsound := h.calls c hc
    cases c with
    | dropped => exact hsound.elim
    | counting t =>
      cases t with
      | returned ret => rfl
      | threw => exact hsound.elim
      | _ => exact hended.elim
    | _ => exact hended.elim
  count := h.count
  returns := by
    intro hnone i hi
    have hzero : getCount y.state = 0 := by
      rw [getCount_eq_zero, h.count, outstanding, List.sum_eq_zero]
      intro x hx
      obtain ⟨c, hc, rfl⟩ := List.mem_map.1 hx
      exact countDowns_of_not_outstanding (h.calls c hc) (hnone c hc)
    have ht : y.waits[i]? = some y.waits[i] := List.getElem?_eq_getElem hi
    have hmem : y.waits[i] ∈ y.waits := List.getElem_mem hi
    obtain ⟨n, hn⟩ := returns_of_waits hzero (h.waits _ hmem) fun cur hcur =>
      hnone _ (h.awake cur (hcur ▸ hmem) hzero) ⟨Nat.one_pos, fun hended => hended⟩
    exact ⟨n, (alone_eq n ht).trans (congrArg some hn)⟩

theorem Accounted.meets {op : Op} (haccounted : Accounted (y.step op)) : Meets y op := by
  constructor
  · rintro k rfl hc
    have hlt : k < y.calls.length := (List.getElem?_eq_some_iff.1 hc).1
    have hdropped : .dropped ∈ (y.step (.drop k)).calls := by
      simp only [Latched.step, hc]
      exact List.mem_set hlt _
    exact absurd (haccounted.matched _ hdropped trivial) (by decide)
  · rw [← haccounted.count, toNat_getCount]
    exact Nat.mod_lt _ (by decide)

/-- **The tasks are accounted for in all states of a run if and only if the executor discards none of them** (and less
than `2 ^ 63` are outstanding). -/
theorem accounted_iff (ops : List Op) : AllHold step Accounted {} ops ↔ AllMeet step Meets {} ops :=
  allHold_iff_allMeet Inv Inv.accounted (fun h _ hmeets => h.step hmeets) (fun _ _ haccounted => haccounted.meets)
    inv_new ops

/-- A task is submitted and discarded, and another thread closes the latch and waits. -/
def droppedRun : List Op :=
  [.tryExecute, .call 0 false, .call 0 false, .call 0 false, .drop 0, .closeAndWait, .run 0 false, .run 0 false,
    .run 0 false, .run 0 false]

theorem not_accounted : (droppedRun.foldl step {}).calls = [.dropped] ∧
    (∃ current, (droppedRun.foldl step {}).waits = [.blocked current]) ∧
    ¬ AllHold step Accounted {} droppedRun := by
  refine ⟨by decide, ⟨1 ||| closedFlag, by decide⟩, fun h => ?_⟩
  exact absurd ((h.take 5).last.matched .dropped (by decide) trivial) (by decide)

end Latched

end AimRT.Executor
