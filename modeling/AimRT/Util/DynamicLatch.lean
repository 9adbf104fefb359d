import AimRT.Lib.Run
import AimRT.Lib.Trace
import Mathlib.Data.Nat.Bitwise

/-!
# The dynamic latch

`DynamicLatch` keeps a count and a flag in one word.  `TryAdd` and `Close` read the word, decide, and put a new one in
its place if it is still the one they read; `CountDown` subtracts first and checks then.  So a count is exact as long as
nothing is counted down that was not added (`NoUnderflow`): a `CountDown` that throws has changed the word already, and
where it borrows from the flag the latch is closed, or opened again.

A call takes one step for each access to the word.  A `compare_exchange_weak` may fail although the word is the one that
was read.  A thread that waits is woken by `notify_all`, and looks at the word before it waits again.
-/

namespace AimRT.Util

open Lib.Run Lib.Trace

/-! ### The word -/

/-- `CLOSED_FLAG`. -/
def closedFlag : BitVec 64 := 0x8000000000000000#64

/-- `COUNT_MASK`. -/
def countMask : BitVec 64 := ~~~closedFlag

/-- `GetCount`. -/
def getCount (state : BitVec 64) : BitVec 64 := state &&& countMask

/-- `IsClosed`. -/
def isClosed (state : BitVec 64) : Bool := state &&& closedFlag != 0

theorem toNat_getCount (state : BitVec 64) : (getCount state).toNat = state.toNat % 2 ^ 63 := by
  have hmask : countMask.toNat = 2 ^ 63 - 1 := rfl
  rw [getCount, BitVec.toNat_and, hmask, Nat.and_two_pow_sub_one_eq_mod]

theorem isClosed_iff (state : BitVec 64) : isClosed state = true ↔ 2 ^ 63 ≤ state.toNat := by
  have hflag : closedFlag.toNat = 2 ^ 63 := rfl
  have hlt := state.isLt
  have hzero : state &&& closedFlag = 0 ↔ state.toNat &&& 2 ^ 63 = 0 := by
    rw [← BitVec.toNat_inj, BitVec.toNat_and, hflag]
    rfl
  rw [isClosed, bne_iff_ne, ne_eq, hzero, Nat.and_two_pow]
  by_cases hlow : state.toNat < 2 ^ 63
  · rw [Nat.testBit_lt_two_pow hlow]
    simp only [Bool.toNat_false, zero_mul, not_true_eq_false, false_iff]
    omega
  · have hbit : state.toNat.testBit 63 = true := by
      rw [← Nat.sub_add_cancel (not_lt.1 hlow), Nat.add_comm, Nat.testBit_two_pow_add_eq, Bool.not_eq_true',
        Nat.testBit_lt_two_pow (by omega)]
    rw [hbit]
    simp only [Bool.toNat_true, one_mul]
    omega

theorem toNat_or_closedFlag {state : BitVec 64} (h : state.toNat < 2 ^ 63) :
    (state ||| closedFlag).toNat = state.toNat + 2 ^ 63 := by
  have hflag : closedFlag.toNat = 2 ^ 63 := rfl
  have hor := Nat.two_pow_add_eq_or_of_lt h 1
  rw [Nat.mul_one] at hor
  rw [BitVec.toNat_or, hflag, Nat.or_comm, ← hor, Nat.add_comm]

/-! ### Calls -/

/-- A call that is under way, by what comes next: the load or the loop of `TryAdd`, of `Close` and of `Wait`, the
subtraction of `CountDown`, and `notify_all`.  `CloseAndWait` is `Close` with a `Wait` behind it. -/
inductive Thread where
  | tryAddLoad (delta : BitVec 64)
  | tryAddLoop (delta current : BitVec 64)
  | countDown (delta : BitVec 64)
  | closeLoad (andWait : Bool)
  | closeLoop (andWait : Bool) (current : BitVec 64)
  | notify (andWait : Bool)
  | waitLoad
  | waitLoop (current : BitVec 64)
  | blocked (current : BitVec 64)
  | returned (ret : Bool)
  | threw
  deriving DecidableEq, Repr

inductive Call where
  | tryAdd (delta : BitVec 64)
  | countDown (delta : BitVec 64)
  | close
  | wait
  | closeAndWait
  deriving DecidableEq, Repr

/-- What happened to the word: a `TryAdd` that is successful, a `CountDown` that returns normally, one that throws with
the word before and behind its subtraction, a `Close`, and a `Wait` with the count at which it returns. -/
inductive Event where
  | added (delta : BitVec 64)
  | countedDown (delta : BitVec 64)
  | threw (before after : BitVec 64)
  | closed
  | waited (count : BitVec 64)
  deriving DecidableEq, Repr

/-- What a step of a thread leaves: its next step, the word, what happened, and whether all that wait are woken. -/
structure Turn where
  thread : Thread
  state : BitVec 64
  event : Option Event := none
  notifies : Bool := false

def Call.thread : Call → Thread
  | .tryAdd delta => .tryAddLoad delta
  | .countDown delta => .countDown delta
  | .close => .closeLoad false
  | .wait => .waitLoad
  | .closeAndWait => .closeLoad true

/-- What follows on `Close`. -/
def afterClose (andWait : Bool) : Thread := if andWait then .waitLoad else .returned true

/-- A step of a thread; `weak` lets a `compare_exchange_weak` fail, and a `wait` end, for no reason. -/
def Thread.turn (weak : Bool) (state : BitVec 64) : Thread → Turn
  | .tryAddLoad delta => { thread := .tryAddLoop delta state, state := state }
  | .tryAddLoop delta current =>
    if isClosed current then { thread := .returned false, state := state }
    else if state = current ∧ weak = false then
      { thread := .returned true, state := current + delta, event := some (.added delta) }
    else { thread := .tryAddLoop delta state, state := state }
  | .countDown delta =>
    if delta.sle (getCount state) then
      { thread := if getCount state = delta then .notify false else .returned true
        state := state - delta
        event := some (.countedDown delta) }
    else { thread := .threw, state := state - delta, event := some (.threw state (state - delta)) }
  | .closeLoad andWait => { thread := .closeLoop andWait state, state := state }
  | .closeLoop andWait current =>
    if isClosed current then { thread := afterClose andWait, state := state, event := some .closed }
    else if state = current ∧ weak = false then
      { thread := if getCount (current ||| closedFlag) = 0 then .notify andWait else afterClose andWait
        state := current ||| closedFlag
        event := some .closed }
    else { thread := .closeLoop andWait state, state := state }
  | .notify andWait => { thread := afterClose andWait, state := state, notifies := true }
  | .waitLoad => { thread := .waitLoop state, state := state }
  | .waitLoop current =>
    if getCount current = 0 then
      { thread := .returned true, state := state, event := some (.waited (getCount current)) }
    else if state = current then { thread := .blocked current, state := state }
    else { thread := .waitLoad, state := state }
  | .blocked current => { thread := if weak then .waitLoop current else .blocked current, state := state }
  | .returned ret => { thread := .returned ret, state := state }
  | .threw => { thread := .threw, state := state }

/-- The word, the calls, and what happened. -/
structure DynamicLatch where
  state : BitVec 64 := 0
  threads : List Thread := []
  log : List Event := []
  deriving DecidableEq, Repr

/-- A thread that is woken looks at the word again. -/
def Thread.wake : Thread → Thread
  | .blocked current => .waitLoop current
  | t => t

inductive Op where
  | call (c : Call)
  | run (i : ℕ) (weak : Bool)
  deriving DecidableEq, Repr

/-- A delta is positive, as a `ptrdiff_t`. -/
def Positive (delta : BitVec 64) : Prop := 0 < delta.toNat ∧ delta.toNat < 2 ^ 63

instance (delta : BitVec 64) : Decidable (Positive delta) := inferInstanceAs (Decidable (_ ∧ _))

/-- The delta of a call is positive. -/
def Op.PositiveDelta : Op → Prop
  | .call (.tryAdd delta) => Positive delta
  | .call (.countDown delta) => Positive delta
  | _ => True

instance : DecidablePred Op.PositiveDelta
  | .call (.tryAdd delta) => inferInstanceAs (Decidable (Positive delta))
  | .call (.countDown delta) => inferInstanceAs (Decidable (Positive delta))
  | .call .close | .call .wait | .call .closeAndWait | .run _ _ => isTrue trivial

namespace DynamicLatch

/-- A thread has taken a turn. -/
def take (y : DynamicLatch) (i : ℕ) (turn : Turn) : DynamicLatch where
  state := turn.state
  threads := if turn.notifies then (y.threads.set i turn.thread).map Thread.wake else y.threads.set i turn.thread
  log := y.log ++ turn.event.toList

/-- A call is made, or a thread takes its next step. -/
def step (y : DynamicLatch) : Op → DynamicLatch
  | .call c => { y with threads := y.threads ++ [c.thread] }
  | .run i weak =>
    match y.threads[i]? with
    | none => y
    | some t => y.take i (t.turn weak y.state)

/-! ### What is promised -/

/-- The sum of the deltas of the successful calls of `TryAdd`. -/
def up (log : List Event) : ℕ :=
  (log.map fun
    | .added delta => delta.toNat
    | _ => 0).sum

/-- The sum of the deltas of the calls of `CountDown` that returned normally. -/
def down (log : List Event) : ℕ :=
  (log.map fun
    | .countedDown delta => delta.toNat
    | _ => 0).sum

/-- No `TryAdd` is successful behind a `Close`. -/
def NotLate (log : List Event) : Event → Prop
  | .added _ => .closed ∉ log
  | _ => True

/-- **The latch is exact.** -/
structure Exact (y : DynamicLatch) : Prop where
  count : (getCount y.state).toNat + down y.log = up y.log
  closed : .closed ∈ y.log → isClosed y.state = true
  late : Legal NotLate y.log
  waited : ∀ count, .waited count ∈ y.log → count = 0
  unchanged : ∀ before after, .threw before after ∈ y.log →
    getCount after = getCount before ∧ isClosed after = isClosed before

/-- **What is asked of the callers**: the deltas are positive, and what is outstanding stays below `2 ^ 63`. -/
def Asked (y : DynamicLatch) (op : Op) : Prop := op.PositiveDelta ∧ up (step y op).log < down (step y op).log + 2 ^ 63

instance (y : DynamicLatch) (op : Op) : Decidable (Asked y op) := inferInstanceAs (Decidable (_ ∧ _))

/-- A `CountDown` finds what it is to take. -/
def NoUnderflow (y : DynamicLatch) : Op → Prop
  | .run i _ => ∀ delta, y.threads[i]? = some (.countDown delta) → delta.toNat ≤ (getCount y.state).toNat
  | .call _ => True

/-! ### The invariant -/

/-- What a thread knows: its delta is positive, and a `Close` that has read the flag is behind another one. -/
def Sound (log : List Event) : Thread → Prop
  | .tryAddLoad delta => Positive delta
  | .tryAddLoop delta _ => Positive delta
  | .countDown delta => Positive delta
  | .closeLoop _ current => isClosed current = true → .closed ∈ log
  | _ => True

/-- As long as nothing is counted down that was not added. -/
structure Inv (y : DynamicLatch) : Prop where
  threads : ∀ t ∈ y.threads, Sound y.log t
  balance : down y.log ≤ up y.log
  bound : up y.log < down y.log + 2 ^ 63
  word : y.state.toNat = up y.log - down y.log + if .closed ∈ y.log then 2 ^ 63 else 0
  late : Legal NotLate y.log
  waited : ∀ count, .waited count ∈ y.log → count = 0
  normal : ∀ before after, .threw before after ∉ y.log

theorem up_append_singleton (log : List Event) (e : Event) : up (log ++ [e]) = up log + up [e] := by
  simp [up]

theorem down_append_singleton (log : List Event) (e : Event) : down (log ++ [e]) = down log + down [e] := by
  simp [down]

variable {y : DynamicLatch}

theorem Inv.isClosed_iff (h : Inv y) : isClosed y.state = true ↔ .closed ∈ y.log := by
  have hword := h.word
  have hbound := h.bound
  rw [Util.isClosed_iff]
  split_ifs at hword with hclosed
  · simp only [hclosed, iff_true]
    omega
  · simp only [hclosed, iff_false]
    omega

theorem Inv.toNat_getCount (h : Inv y) : (getCount y.state).toNat = up y.log - down y.log := by
  have hword := h.word
  have hbound := h.bound
  rw [Util.toNat_getCount, hword]
  split_ifs <;> omega

theorem Inv.exact (h : Inv y) : Exact y where
  count := by
    have hbalance := h.balance
    rw [h.toNat_getCount]
    omega
  closed := h.isClosed_iff.2
  late := h.late
  waited := h.waited
  unchanged := fun before after hthrew => absurd hthrew (h.normal before after)

theorem Sound.mono {log log' : List Event} {t : Thread} (h : Sound log t) (hlog : .closed ∈ log → .closed ∈ log') :
    Sound log' t := by
  cases t with
  | closeLoop andWait current => exact fun hclosed => hlog (h hclosed)
  | _ => exact h

theorem Sound.wake {log : List Event} {t : Thread} (h : Sound log t) : Sound log t.wake := by
  cases t <;> exact h

theorem sound_take (h : ∀ t ∈ y.threads, Sound y.log t) (i : ℕ) {turn : Turn}
    (hturn : Sound (y.log ++ turn.event.toList) turn.thread) :
    ∀ t ∈ (y.take i turn).threads, Sound (y.take i turn).log t := by
  have hset : ∀ t ∈ y.threads.set i turn.thread, Sound (y.log ++ turn.event.toList) t := by
    intro t ht
    rcases List.mem_or_eq_of_mem_set ht with hold | rfl
    · exact (h t hold).mono fun hclosed => List.mem_append_left _ hclosed
    · exact hturn
  intro t ht
  simp only [take] at ht ⊢
  split_ifs at ht
  · obtain ⟨t', ht', rfl⟩ := List.mem_map.1 ht
    exact (hset t' ht').wake
  · exact hset t ht

/-- A turn in which nothing happens. -/
theorem Inv.quiet (h : Inv y) (i : ℕ) {turn : Turn} (hstate : turn.state = y.state) (hevent : turn.event = none)
    (hturn : Sound y.log turn.thread) : Inv (y.take i turn) := by
  have hlog : (y.take i turn).log = y.log := by simp [take, hevent]
  have hsound := sound_take h.threads i (hturn.mono fun hclosed => List.mem_append_left turn.event.toList hclosed)
  refine ⟨hsound, ?_, ?_, ?_, ?_, ?_, ?_⟩
  all_goals rw [hlog]
  · exact h.balance
  · exact h.bound
  · exact (congrArg BitVec.toNat hstate).trans h.word
  · exact h.late
  · exact h.waited
  · exact h.normal

/-- A turn in which something happens. -/
theorem Inv.event (h : Inv y) (i : ℕ) {turn : Turn} {e : Event} (hevent : turn.event = some e)
    (hturn : Sound (y.log ++ [e]) turn.thread) (hbalance : down y.log + down [e] ≤ up y.log + up [e])
    (hbound : up y.log + up [e] < down y.log + down [e] + 2 ^ 63)
    (hword : turn.state.toNat = up y.log + up [e] - (down y.log + down [e]) +
      if .closed ∈ y.log ++ [e] then 2 ^ 63 else 0)
    (hlate : NotLate y.log e) (hwaited : ∀ count, e = .waited count → count = 0)
    (hnormal : ∀ before after, e ≠ .threw before after) : Inv (y.take i turn) := by
  have hlog : (y.take i turn).log = y.log ++ [e] := by simp [take, hevent]
  have hsound : ∀ t ∈ (y.take i turn).threads, Sound (y.take i turn).log t :=
    sound_take h.threads i (by rw [hevent]; exact hturn)
  refine ⟨hsound, ?_, ?_, ?_, ?_, ?_, ?_⟩
  all_goals rw [hlog]
  · rw [up_append_singleton, down_append_singleton]
    exact hbalance
  · rw [up_append_singleton, down_append_singleton]
    exact hbound
  · rw [up_append_singleton, down_append_singleton]
    exact hword
  · exact legal_append_singleton.2 ⟨h.late, hlate⟩
  · intro count hcount
    rcases List.mem_append.1 hcount with hold | hnew
    · exact h.waited count hold
    · exact hwaited count (List.mem_singleton.1 hnew).symm
  · intro before after hthrew
    rcases List.mem_append.1 hthrew with hold | hnew
    · exact h.normal before after hold
    · exact hnormal before after (List.mem_singleton.1 hnew).symm

theorem Sound.afterClose (log : List Event) (andWait : Bool) : Sound log (afterClose andWait) := by
  cases andWait <;> trivial

/-- A `TryAdd` that is successful. -/
theorem Inv.added (h : Inv y) (i : ℕ) {delta : BitVec 64} (hopen : isClosed y.state = false)
    (hbound : up y.log + delta.toNat < down y.log + 2 ^ 63) :
    Inv (y.take i { thread := .returned true, state := y.state + delta, event := some (.added delta) }) := by
  have hclosed : .closed ∉ y.log := by
    rw [← h.isClosed_iff, hopen]
    exact Bool.false_ne_true
  have hbalance := h.balance
  have hword := h.word
  rw [if_neg hclosed] at hword
  have hup : up [.added delta] = delta.toNat := by simp [up]
  have hdown : down [.added delta] = 0 := by simp [down]
  refine h.event i rfl trivial ?_ ?_ ?_ hclosed (fun count heq => by cases heq) fun before after heq => by cases heq
  · omega
  · omega
  · rw [BitVec.toNat_add, hup, hdown, if_neg (by simpa using hclosed)]
    omega

/-- A `CountDown` that finds what it takes. -/
theorem Inv.countedDown (h : Inv y) (i : ℕ) {delta : BitVec 64} (hle : delta.toNat ≤ (getCount y.state).toNat)
    {t : Thread} (ht : ∀ log, Sound log t) :
    Inv (y.take i { thread := t, state := y.state - delta, event := some (.countedDown delta) }) := by
  rw [h.toNat_getCount] at hle
  have hbalance := h.balance
  have hbound := h.bound
  have hword := h.word
  have hlt := y.state.isLt
  have hup : up [.countedDown delta] = 0 := by simp [up]
  have hdown : down [.countedDown delta] = delta.toNat := by simp [down]
  refine h.event i rfl (ht _) ?_ ?_ ?_ trivial (fun count heq => by cases heq) fun before after heq => by cases heq
  · omega
  · omega
  · have hsub : (y.state - delta).toNat = y.state.toNat - delta.toNat :=
      BitVec.toNat_sub_of_le (by rw [BitVec.le_def]; omega)
    have hmem : Event.closed ∈ y.log ++ [Event.countedDown delta] ↔ Event.closed ∈ y.log := by simp
    rw [hsub, hup, hdown]
    simp only [hmem]
    omega

/-- A `Close` that sets the flag, or finds it set. -/
theorem Inv.closed (h : Inv y) (i : ℕ) {state : BitVec 64}
    (hstate : state = y.state ∧ .closed ∈ y.log ∨ state = y.state ||| closedFlag ∧ isClosed y.state = false)
    {t : Thread} (ht : ∀ log, Sound log t) : Inv (y.take i { thread := t, state := state, event := some .closed }) := by
  have hbalance := h.balance
  have hbound := h.bound
  have hword := h.word
  have hup : up [.closed] = 0 := by simp [up]
  have hdown : down [.closed] = 0 := by simp [down]
  refine h.event i rfl (ht _) ?_ ?_ ?_ trivial (fun count heq => by cases heq) fun before after heq => by cases heq
  · omega
  · omega
  · rw [if_pos (by simp), hup, hdown]
    dsimp only
    rcases hstate with ⟨rfl, hclosed⟩ | ⟨rfl, hopen⟩
    · rw [hword, if_pos hclosed]
      omega
    · have hclosed : .closed ∉ y.log := by
        rw [← h.isClosed_iff, hopen]
        exact Bool.false_ne_true
      rw [if_neg hclosed] at hword
      rw [toNat_or_closedFlag (by omega), hword]
      omega

theorem sle_getCount {delta : BitVec 64} (hdelta : Positive delta) (state : BitVec 64) :
    delta.sle (getCount state) = true ↔ delta.toNat ≤ (getCount state).toNat := by
  obtain ⟨-, hlt⟩ := hdelta
  have hcount : (getCount state).toNat < 2 ^ 63 := by
    rw [Util.toNat_getCount]
    exact Nat.mod_lt _ (by decide)
  rw [BitVec.sle_iff_toInt_le, BitVec.toInt_eq_toNat_of_lt (by omega), BitVec.toInt_eq_toNat_of_lt (by omega)]
  omega

theorem Inv.step (h : Inv y) {op : Op} (hasked : Asked y op) (hcovered : NoUnderflow y op) : Inv (step y op) := by
  cases op with
  | call c =>
    refine ⟨fun t ht => ?_, h.balance, h.bound, h.word, h.late, h.waited, h.normal⟩
    rcases List.mem_append.1 ht with hold | hnew
    · exact h.threads t hold
    · have hdelta := hasked.1
      rw [List.mem_singleton.1 hnew]
      cases c <;> exact hdelta
  | run i weak =>
    have hbound := hasked.2
    cases ht : y.threads[i]? with
    | none =>
      simp only [DynamicLatch.step, ht]
      exact h
    | some t =>
      have hsound := h.threads t (List.mem_of_getElem? ht)
      simp only [DynamicLatch.step, ht] at hbound ⊢
      cases t with
      | tryAddLoad delta => exact h.quiet i rfl rfl hsound
      | tryAddLoop delta current =>
        simp only [Thread.turn] at hbound ⊢
        split_ifs at hbound ⊢ with hclosed hsame
        · exact h.quiet i rfl rfl trivial
        · obtain ⟨rfl, -⟩ := hsame
          refine h.added i (Bool.eq_false_iff.2 hclosed) ?_
          simp only [take, Option.toList_some, up_append_singleton, down_append_singleton] at hbound
          simpa [up, down] using hbound
        · exact h.quiet i rfl rfl hsound
      | countDown delta =>
        have hle := hcovered delta ht
        simp only [Thread.turn, (sle_getCount hsound y.state).2 hle, if_true]
        refine h.countedDown i hle fun log => ?_
        split_ifs <;> trivial
      | closeLoad andWait => exact h.quiet i rfl rfl h.isClosed_iff.1
      | closeLoop andWait current =>
        simp only [Thread.turn]
        split_ifs with hclosed hsame hzero
        · exact h.closed i (.inl ⟨rfl, hsound hclosed⟩) fun log => Sound.afterClose log andWait
        · obtain ⟨rfl, -⟩ := hsame
          exact h.closed i (.inr ⟨rfl, Bool.eq_false_iff.2 hclosed⟩) fun log => trivial
        · obtain ⟨rfl, -⟩ := hsame
          exact h.closed i (.inr ⟨rfl, Bool.eq_false_iff.2 hclosed⟩) fun log => Sound.afterClose log andWait
        · exact h.quiet i rfl rfl h.isClosed_iff.1
      | notify andWait => exact h.quiet i rfl rfl (Sound.afterClose _ andWait)
      | waitLoad => exact h.quiet i rfl rfl trivial
      | waitLoop current =>
        simp only [Thread.turn]
        split_ifs with hzero
        · exact h.event i rfl trivial h.balance h.bound (by simpa [up, down] using h.word) trivial
            (fun count heq => by cases heq; exact BitVec.eq_of_toNat_eq (by simpa using congrArg BitVec.toNat hzero))
            fun before after heq => by cases heq
        · exact h.quiet i rfl rfl trivial
        · exact h.quiet i rfl rfl trivial
      | blocked current => exact h.quiet i rfl rfl (by cases weak <;> trivial)
      | returned ret => exact h.quiet i rfl rfl trivial
      | threw => exact h.quiet i rfl rfl trivial

/-! ### Runs -/

theorem inv_new : Inv {} where
  threads := fun t ht => by cases ht
  balance := Nat.le_refl 0
  bound := by decide
  word := rfl
  late := legal_nil
  waited := fun count hcount => by cases hcount
  normal := fun before after hthrew => by cases hthrew

/-- A `CountDown` that does not find what it is to take has changed the word. -/
theorem Inv.noUnderflow (h : Inv y) {op : Op} (hexact : Exact (y.step op)) : NoUnderflow y op := by
  cases op with
  | call c => trivial
  | run i weak =>
    intro delta ht
    by_contra hlt
    have hdelta : Positive delta := h.threads _ (List.mem_of_getElem? ht)
    have hsle : delta.sle (getCount y.state) = false := by
      rw [← Bool.not_eq_true, sle_getCount hdelta]
      exact hlt
    have hthrew : .threw y.state (y.state - delta) ∈ (y.step (.run i weak)).log := by
      simp [DynamicLatch.step, ht, take, Thread.turn, hsle]
    obtain ⟨hcount, hclosed⟩ := hexact.unchanged _ _ hthrew
    rw [← BitVec.toNat_inj, Util.toNat_getCount, Util.toNat_getCount] at hcount
    rw [Bool.eq_iff_iff, Util.isClosed_iff, Util.isClosed_iff] at hclosed
    rw [BitVec.toNat_sub] at hcount hclosed
    have hlow := y.state.isLt
    obtain ⟨hpos, hhigh⟩ := hdelta
    omega

/-- **The latch is exact in all states of a run if and only if no `CountDown` finds less than it takes.** -/
theorem exact_run_iff {ops : List Op} (hasked : AllMeet step Asked {} ops) :
    AllHold step Exact {} ops ↔ AllMeet step NoUnderflow {} ops :=
  allHold_iff_allMeet_of Inv Inv.exact (fun h => h.step) (fun h _ _ => h.noUnderflow) inv_new hasked

/-- One is added and counted down, while another thread closes the latch and waits. -/
def countedRun : List Op :=
  [.call (.tryAdd 1), .run 0 false, .run 0 false, .call .closeAndWait, .call (.countDown 1), .run 1 false,
    .run 1 false, .run 1 false, .run 1 false, .run 2 false, .run 2 false, .run 1 false]

theorem exact_countedRun : AllMeet step Asked {} countedRun ∧ AllHold step Exact {} countedRun := by
  have hasked : AllMeet step Asked {} countedRun := by
    simp only [countedRun, AllMeet]
    decide
  refine ⟨hasked, (exact_run_iff hasked).2 ?_⟩
  simp [countedRun, AllMeet, NoUnderflow, step, take, Call.thread, Thread.turn, Thread.wake, isClosed, getCount,
    closedFlag, countMask, afterClose]

/-- One is counted down on a new latch. -/
def underflowRun : List Op := [.call (.countDown 1), .run 0 false]

theorem not_exact_run : AllMeet step Asked {} underflowRun ∧ ¬ AllHold step Exact {} underflowRun := by
  refine ⟨?_, fun h => ?_⟩
  · simp only [underflowRun, AllMeet]
    decide
  · have hthrew := h.last.unchanged 0 (0 - 1) (by decide)
    exact absurd hthrew.1 (by decide)

end DynamicLatch

end AimRT.Util
