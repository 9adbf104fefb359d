import AimRT.Lib.Run
import AimRT.Lib.Trace

/-!
# The light signal

`LightSignal` is a flag with a condition variable.  `Wait` and `WaitFor` look at the flag once, and take the end of
their wait for a signal, whatever has ended it; `WaitFor` takes it for a timeout when the clock has reached its
deadline.  So what they report is right as long as no wait ends by itself, without the flag having been set during the
call, and no deadline lies behind the end of the clock (`Meets`).

All four functions hold the mutex for as long as they run, but for the time of the wait, so each of them is one step,
and one more for what follows on a wait.
-/

namespace AimRT.Util

open Lib.Run Lib.Trace

namespace LightSignal

/-! ### The code -/

inductive Call where
  | notify
  | reset
  | wait
  | waitFor (timeout : Int64)
  deriving DecidableEq, Repr

/-- Where a thread is: it has still to get the mutex, or it waits for the condition, or its wait has ended.  `wait_for`
keeps the time at which it was called and its timeout. -/
inductive Place where
  | idle
  | entering (call : Call)
  | waiting (timed : Option (Int64 × Int64))
  | woken (timed : Option (Int64 × Int64))
  deriving DecidableEq, Repr

/-- A thread calls, or performs a `Notify` or a `Reset`, or begins to wait for a time, or returns from a wait. -/
inductive Event where
  | called (t : ℕ) (call : Call)
  | notified
  | wasReset
  | waits (t : ℕ) (start : Int64)
  | returned (t : ℕ) (ret : Bool) (time : Int64)
  deriving DecidableEq, Repr

end LightSignal

/-- The signal with its clock and its threads; `flagSeen` says of a call whether the flag was set at its beginning or at
any time since. -/
structure LightSignal where
  flag : Bool := false
  now : Int64 := 0
  places : ℕ → LightSignal.Place := fun _ => .idle
  flagSeen : ℕ → Bool := fun _ => false
  log : List LightSignal.Event := []

namespace LightSignal

/-- `notify_all`. -/
def Place.notified : Place → Place
  | .waiting timed => .woken timed
  | p => p

/-- The clock has not reached the deadline of the wait, the sum of the time it began at and its timeout. -/
def inTime (now : Int64) : Option (Int64 × Int64) → Bool
  | none => true
  | some (start, timeout) => now < start + timeout

/-- A wait ends at any time; the clock does not go back. -/
inductive Op where
  | call (t : ℕ) (call : Call)
  | enter (t : ℕ)
  | wake (t : ℕ)
  | resume (t : ℕ)
  | tick (time : Int64)
  deriving DecidableEq, Repr

/-- The thread goes on at `p`. -/
def go (s : LightSignal) (t : ℕ) (p : Place) : LightSignal := { s with places := Function.update s.places t p }

def record (s : LightSignal) (e : Event) : LightSignal := { s with log := s.log ++ [e] }

/-- The thread returns from `Wait` or `WaitFor`. -/
def ret (s : LightSignal) (t : ℕ) (ret : Bool) : LightSignal := (s.go t .idle).record (.returned t ret s.now)

/-- The thread has got the mutex. -/
def perform (s : LightSignal) (t : ℕ) : Call → LightSignal
  | .notify =>
    ({ s with
      flag := true
      places := Function.update (fun t' => (s.places t').notified) t .idle
      flagSeen := fun _ => true } : LightSignal).record .notified
  | .reset => ({ s.go t .idle with flag := false } : LightSignal).record .wasReset
  | .wait => if s.flag then s.ret t true else s.go t (.waiting none)
  | .waitFor timeout =>
    if s.flag then s.ret t true else (s.go t (.waiting (some (s.now, timeout)))).record (.waits t s.now)

def step (s : LightSignal) : Op → LightSignal
  | .call t call =>
    match s.places t with
    | .idle =>
      ({ s.go t (.entering call) with flagSeen := Function.update s.flagSeen t s.flag } : LightSignal).record
        (.called t call)
    | _ => s
  | .enter t =>
    match s.places t with
    | .entering call => s.perform t call
    | _ => s
  | .wake t =>
    match s.places t with
    | .waiting timed => s.go t (.woken timed)
    | _ => s
  | .resume t =>
    match s.places t with
    | .woken timed => s.ret t (inTime s.now timed)
    | _ => s
  | .tick time => { s with now := if s.now ≤ time then time else s.now }

/-! ### What is promised -/

variable {log before during before' during' : List Event} {t : ℕ} {call call' : Call}

/-- A `Notify` was performed after the last `Reset`. -/
def IsGiven (log : List Event) : Prop := ∃ earlier later, log = earlier ++ .notified :: later ∧ .wasReset ∉ later

/-- The last call of a thread, with what happened before it and since. -/
structure LastCall (t : ℕ) (log : List Event) (call : Call) (before during : List Event) : Prop where
  split : log = before ++ .called t call :: during
  last : ∀ call', .called t call' ∉ during

/-- A `Notify` was performed after the last `Reset` that preceded the call, or during the call. -/
def WasGiven (before during : List Event) : Prop := .notified ∈ during ∨ IsGiven before

/-- What a thread may report: a signal that was given, or a timeout that has elapsed since the wait began. -/
def Allowed (log : List Event) : Event → Prop
  | .returned t true _ => ∃ call before during, LastCall t log call before during ∧ WasGiven before during
  | .returned t false time => ∃ timeout before during start, LastCall t log (.waitFor timeout) before during ∧
      .waits t start ∈ during ∧ start.toInt + timeout.toInt ≤ time.toInt
  | _ => True

/-- **Nothing is reported that was not given.** -/
def Honest (s : LightSignal) : Prop := Legal Allowed s.log

/-- A wait that ends before its deadline ends in a call during which the flag was set, and a deadline lies in front of
the end of the clock. -/
def Meets (s : LightSignal) : Op → Prop
  | .resume t => ∀ timed, s.places t = .woken timed →
      (inTime s.now timed = true → s.flagSeen t = true) ∧
        (inTime s.now timed = false → ∀ start timeout, timed = some (start, timeout) →
          start.toInt + timeout.toInt < 2 ^ 63)
  | _ => True

/-! ### The last call -/

/-- There is only one last call. -/
theorem LastCall.unique (h : LastCall t log call before during) (h' : LastCall t log call' before' during') :
    call = call' ∧ before = before' ∧ during = during' := by
  rcases List.append_eq_append_iff.1 (h.split.symm.trans h'.split) with ⟨mid, hbefore, hrest⟩ | ⟨mid, hbefore, hrest⟩
  · cases mid with
    | nil =>
      obtain ⟨hcalled, hduring⟩ := List.cons.inj hrest
      exact ⟨(Event.called.inj hcalled).2, by rw [hbefore, List.append_nil], hduring⟩
    | cons e mid =>
      obtain ⟨-, hduring⟩ := List.cons.inj hrest
      exact absurd (by rw [hduring]; simp) (h.last call')
  · cases mid with
    | nil =>
      obtain ⟨hcalled, hduring⟩ := List.cons.inj hrest
      exact ⟨(Event.called.inj hcalled).2.symm, by rw [hbefore, List.append_nil], hduring.symm⟩
    | cons e mid =>
      obtain ⟨-, hduring⟩ := List.cons.inj hrest
      exact absurd (by rw [hduring]; simp) (h'.last call)

theorem LastCall.append (h : LastCall t log call before during) {e : Event} (he : ∀ call', e ≠ .called t call') :
    LastCall t (log ++ [e]) call before (during ++ [e]) where
  split := by rw [h.split, List.append_assoc, List.cons_append]
  last := by
    intro call' hmem
    rcases List.mem_append.1 hmem with hold | hnew
    · exact h.last call' hold
    · exact he call' (List.mem_singleton.1 hnew).symm

theorem lastCall_called (t : ℕ) (call : Call) (log : List Event) :
    LastCall t (log ++ [Event.called t call]) call log [] := ⟨rfl, fun _ => List.not_mem_nil⟩

/-- The flag after a `Notify`, after a `Reset`, and after anything else. -/
theorem isGiven_append (e : Event) : IsGiven (log ++ [e]) ↔ e = .notified ∨ IsGiven log ∧ e ≠ .wasReset := by
  constructor
  · rintro ⟨earlier, later, hsplit, hlater⟩
    rcases List.eq_nil_or_concat later with rfl | ⟨later, e', rfl⟩
    · exact .inl (List.cons.inj (List.append_inj' hsplit rfl).2).1
    · rw [List.concat_eq_append] at hsplit hlater
      rw [← List.cons_append, ← List.append_assoc] at hsplit
      obtain ⟨rfl, he⟩ := List.append_inj' hsplit rfl
      obtain rfl := (List.cons.inj he).1
      rw [List.mem_append, not_or] at hlater
      refine .inr ⟨⟨earlier, later, rfl, hlater.1⟩, fun hreset => hlater.2 ?_⟩
      rw [hreset]
      exact List.mem_singleton_self _
  · rintro (rfl | ⟨⟨earlier, later, rfl, hlater⟩, he⟩)
    · exact ⟨log, [], rfl, List.not_mem_nil⟩
    · refine ⟨earlier, later ++ [e], by rw [List.append_assoc, List.cons_append], ?_⟩
      rw [List.mem_append, not_or]
      exact ⟨hlater, fun hmem => he (List.mem_singleton.1 hmem).symm⟩

theorem not_isGiven_nil : ¬IsGiven [] := by
  rintro ⟨earlier, later, hsplit, -⟩
  exact absurd hsplit.symm (by simp)

/-! ### The invariant -/

/-- What is known of the call of a thread that waits. -/
def Waits (t : ℕ) (timed : Option (Int64 × Int64)) (call : Call) (during : List Event) : Prop :=
  match timed with
  | none => call = .wait
  | some (start, timeout) =>
    call = .waitFor timeout ∧ (∀ start', .waits t start' ∈ during ↔ start' = start) ∧ 0 ≤ start.toInt

/-- An event that does not belong to the call of a thread. -/
structure Foreign (t : ℕ) (e : Event) : Prop where
  called : ∀ call, e ≠ .called t call
  waits : ∀ start, e ≠ .waits t start

/-- A thread is in a call of which `P` is known; `seen` says whether the flag was set since its beginning. -/
def InCall (log : List Event) (seen : Bool) (t : ℕ) (P : Call → List Event → Prop) : Prop :=
  ∃ call before during, LastCall t log call before during ∧ (seen = true ↔ WasGiven before during) ∧ P call during

def Sound (log : List Event) (seen : Bool) (t : ℕ) : Place → Prop
  | .idle => True
  | .entering call => InCall log seen t fun call' during => call' = call ∧ ∀ start, .waits t start ∉ during
  | .waiting timed => InCall log seen t (Waits t timed)
  | .woken timed => InCall log seen t (Waits t timed)

structure Inv (s : LightSignal) : Prop where
  legal : Legal Allowed s.log
  flag : s.flag = true ↔ IsGiven s.log
  clock : 0 ≤ s.now.toInt
  places : ∀ t, Sound s.log (s.flagSeen t) t (s.places t)

variable {s s' : LightSignal} {e : Event} {seen seen' : Bool} {p : Place} {timed : Option (Int64 × Int64)}

theorem inv_default : Inv {} where
  legal := legal_nil
  flag := iff_of_false Bool.false_ne_true not_isGiven_nil
  clock := le_rfl
  places := fun _ => trivial

/-- The call goes on while something else happens. -/
theorem InCall.append {P P' : Call → List Event → Prop} (h : InCall log seen t P)
    (he : ∀ call', e ≠ .called t call') (hseen : seen' = true ↔ seen = true ∨ e = .notified)
    (hP : ∀ call during, P call during → P' call (during ++ [e])) : InCall (log ++ [e]) seen' t P' := by
  obtain ⟨call, before, during, hcall, hgiven, hP₀⟩ := h
  refine ⟨call, before, during ++ [e], hcall.append he, ?_, hP call during hP₀⟩
  rw [hseen, hgiven, WasGiven, WasGiven, List.mem_append, List.mem_singleton, eq_comm (a := e)]
  tauto

theorem Foreign.mem_append {start : Int64} (he : Foreign t e) :
    .waits t start ∈ during ++ [e] ↔ .waits t start ∈ during := by
  rw [List.mem_append, List.mem_singleton]
  exact or_iff_left fun heq => he.waits start heq.symm

theorem Waits.append (h : Waits t timed call during) (he : Foreign t e) : Waits t timed call (during ++ [e]) := by
  unfold Waits at h ⊢
  split
  next => exact h
  next start timeout => exact ⟨h.1, fun start' => he.mem_append.trans (h.2.1 start'), h.2.2⟩

theorem Sound.append (h : Sound log seen t p) (he : Foreign t e)
    (hseen : seen' = true ↔ seen = true ∨ e = .notified) : Sound (log ++ [e]) seen' t p := by
  cases p with
  | idle => trivial
  | entering call =>
    exact InCall.append h he.called hseen fun _ _ hcall =>
      ⟨hcall.1, fun start hmem => hcall.2 start (he.mem_append.1 hmem)⟩
  | waiting timed => exact InCall.append h he.called hseen fun _ _ hwaits => hwaits.append he
  | woken timed => exact InCall.append h he.called hseen fun _ _ hwaits => hwaits.append he

theorem Sound.notified (h : Sound log seen t p) : Sound log seen t p.notified := by
  cases p <;> exact h

/-- The places of the other threads while a thread does something. -/
theorem Inv.update (h : Inv s) (hp : Sound (s.log ++ [e]) (s.flagSeen t) t p)
    (he : ∀ t', t' ≠ t → Foreign t' e) (hne : e ≠ .notified) :
    ∀ t', Sound (s.log ++ [e]) (s.flagSeen t') t' (Function.update s.places t p t') := by
  intro t'
  by_cases hself : t' = t
  · subst hself
    rwa [Function.update_self]
  · rw [Function.update_of_ne hself]
    exact (h.places t').append (he t' hself) (by simp [hne])

/-- A step in which nothing happens to the signal. -/
theorem Inv.go (h : Inv s) (hp : Sound s.log (s.flagSeen t) t p) : Inv (s.go t p) where
  legal := h.legal
  flag := h.flag
  clock := h.clock
  places := by
    intro t'
    simp only [LightSignal.go]
    by_cases hself : t' = t
    · subst hself
      rwa [Function.update_self]
    · rw [Function.update_of_ne hself]
      exact h.places t'

/-- A step that leaves the flag alone. -/
theorem Inv.record (h : Inv s) (hallowed : Allowed s.log e) (hp : Sound (s.log ++ [e]) (s.flagSeen t) t p)
    (he : ∀ t', t' ≠ t → Foreign t' e) (hnotified : e ≠ .notified) (hreset : e ≠ .wasReset) :
    Inv ((s.go t p).record e) where
  legal := legal_append_singleton.2 ⟨h.legal, hallowed⟩
  flag := by
    show s.flag = true ↔ IsGiven (s.log ++ [e])
    rw [isGiven_append, h.flag]
    simp [hnotified, hreset]
  clock := h.clock
  places := h.update hp he hnotified

/-- A thread returns. -/
theorem Inv.ret (h : Inv s) {r : Bool} (hallowed : Allowed s.log (.returned t r s.now)) : Inv (s.ret t r) :=
  h.record hallowed trivial (fun _ _ => ⟨nofun, nofun⟩) nofun nofun

theorem InCall.given {P : Call → List Event → Prop} (h : InCall log true t P) (time : Int64) :
    Allowed log (.returned t true time) := by
  obtain ⟨call, before, during, hcall, hgiven, -⟩ := h
  exact ⟨call, before, during, hcall, hgiven.1 rfl⟩

/-- Where the flag is set, it has been set since the call began. -/
theorem InCall.given_of_flag {P : Call → List Event → Prop} (h : InCall log seen t P) (hflag : IsGiven log)
    (time : Int64) : Allowed log (.returned t true time) := by
  obtain ⟨call, before, during, hcall, -, -⟩ := h
  refine ⟨call, before, during, hcall, ?_⟩
  obtain ⟨earlier, later, hsplit, hlater⟩ := hflag
  rcases List.append_eq_append_iff.1 (hcall.split.symm.trans hsplit) with ⟨mid, hearlier, hrest⟩ | ⟨mid, hbefore, hrest⟩
  · cases mid with
    | nil => cases hrest
    | cons e mid =>
      obtain ⟨-, hduring⟩ := List.cons.inj hrest
      exact .inl (by rw [hduring]; simp)
  · cases mid with
    | nil => cases hrest
    | cons e mid =>
      obtain ⟨rfl, hlater'⟩ := List.cons.inj hrest
      refine .inr ⟨earlier, mid, hbefore, fun hmem => hlater ?_⟩
      rw [hlater']
      exact List.mem_append_left _ hmem

/-! ### Steps -/

/-- A call begins. -/
theorem Inv.beginCall (h : Inv s) (t : ℕ) (call : Call) : Inv (s.step (.call t call)) := by
  unfold step
  dsimp only
  split
  next =>
    refine ⟨legal_append_singleton.2 ⟨h.legal, trivial⟩, ?_, h.clock, fun t' => ?_⟩
    · show s.flag = true ↔ IsGiven (s.log ++ [Event.called t call])
      rw [isGiven_append, h.flag]
      simp
    · simp only [LightSignal.record, LightSignal.go]
      by_cases hself : t' = t
      · subst hself
        rw [Function.update_self, Function.update_self]
        refine ⟨call, s.log, [], lastCall_called t' call s.log, ?_, rfl, fun _ => List.not_mem_nil⟩
        rw [h.flag, WasGiven, or_iff_right List.not_mem_nil]
      · rw [Function.update_of_ne hself, Function.update_of_ne hself]
        exact (h.places t').append ⟨fun _ heq => hself (Event.called.inj heq).1.symm, nofun⟩ (by simp)
  next => exact h

/-- The flag is set, and nobody waits any more. -/
theorem Inv.notify (h : Inv s) (t : ℕ) : Inv (s.perform t .notify) where
  legal := legal_append_singleton.2 ⟨h.legal, trivial⟩
  flag := iff_of_true rfl ((isGiven_append _).2 (.inl rfl))
  clock := h.clock
  places := by
    intro t'
    simp only [perform, LightSignal.record]
    by_cases hself : t' = t
    · subst hself
      rw [Function.update_self]
      trivial
    · rw [Function.update_of_ne hself]
      exact (h.places t').notified.append ⟨nofun, nofun⟩ (by simp)

theorem Inv.reset (h : Inv s) (t : ℕ) : Inv (s.perform t .reset) where
  legal := legal_append_singleton.2 ⟨h.legal, trivial⟩
  flag := by
    refine iff_of_false Bool.false_ne_true fun hgiven => ?_
    rcases (isGiven_append _).1 hgiven with heq | ⟨-, hne⟩
    · cases heq
    · exact hne rfl
  clock := h.clock
  places := h.update trivial (fun _ _ => ⟨nofun, nofun⟩) nofun

theorem Inv.enter (h : Inv s) (t : ℕ) : Inv (s.step (.enter t)) := by
  unfold step
  dsimp only
  split
  next call hplace =>
    have hcall := h.places t
    rw [hplace] at hcall
    cases call with
    | notify => exact h.notify t
    | reset => exact h.reset t
    | wait =>
      rw [perform]
      split_ifs with hflag
      · exact h.ret (hcall.given_of_flag (h.flag.1 hflag) s.now)
      · refine h.go ?_
        obtain ⟨call, before, during, hlast, hgiven, rfl, -⟩ := hcall
        exact ⟨.wait, before, during, hlast, hgiven, rfl⟩
    | waitFor timeout =>
      rw [perform]
      split_ifs with hflag
      · exact h.ret (hcall.given_of_flag (h.flag.1 hflag) s.now)
      · have hforeign : ∀ t', t' ≠ t → Foreign t' (.waits t s.now) := fun t' hne =>
          ⟨nofun, fun _ heq => hne (Event.waits.inj heq).1.symm⟩
        refine h.record trivial ?_ hforeign nofun nofun
        refine InCall.append hcall nofun (by simp) fun call during hnone => ⟨hnone.1, fun start' => ?_, h.clock⟩
        rw [List.mem_append, or_iff_right (hnone.2 start'), List.mem_singleton, Event.waits.injEq]
        exact and_iff_right rfl
  next => exact h

theorem Inv.wake (h : Inv s) (t : ℕ) : Inv (s.step (.wake t)) := by
  unfold step
  dsimp only
  split
  next timed hplace =>
    have hcall := h.places t
    rw [hplace] at hcall
    exact h.go hcall
  next => exact h

theorem Inv.tick (h : Inv s) (time : Int64) : Inv (s.step (.tick time)) where
  legal := h.legal
  flag := h.flag
  clock := by
    unfold step
    dsimp only
    split_ifs with hle
    · exact h.clock.trans (Int64.le_iff_toInt_le.1 hle)
    · exact h.clock
  places := h.places

/-- A timeout has elapsed when the clock has reached a deadline that it can reach. -/
theorem elapsed_of_not_inTime {start timeout now : Int64} (h : inTime now (some (start, timeout)) = false)
    (hstart : 0 ≤ start.toInt) (hlt : start.toInt + timeout.toInt < 2 ^ 63) :
    start.toInt + timeout.toInt ≤ now.toInt := by
  have hle := timeout.le_toInt
  have hadd : (start + timeout).toInt = start.toInt + timeout.toInt := by
    rw [Int64.toInt_add, Int.bmod_eq_of_le (by omega) (by omega)]
  rw [inTime, decide_eq_false_iff_not, Int64.lt_iff_toInt_lt, not_lt, hadd] at h
  exact h

theorem Inv.resume (h : Inv s) (hmeets : s.Meets (.resume t)) : Inv (s.step (.resume t)) := by
  unfold step
  dsimp only
  split
  next timed hplace =>
    have hcall := h.places t
    rw [hplace] at hcall
    obtain ⟨hseen, hdeadline⟩ := hmeets timed hplace
    refine h.ret ?_
    cases hin : inTime s.now timed with
    | true =>
      rw [hseen hin] at hcall
      exact hcall.given s.now
    | false =>
      obtain ⟨call, before, during, hlast, -, hwaits⟩ := hcall
      cases timed with
      | none => cases hin
      | some timed =>
        obtain ⟨start, timeout⟩ := timed
        obtain ⟨rfl, hmem, hstart⟩ := hwaits
        exact ⟨timeout, before, during, start, hlast, (hmem start).2 rfl,
          elapsed_of_not_inTime hin hstart (hdeadline hin start timeout rfl)⟩
  next => exact h

theorem Inv.step {op : Op} (h : Inv s) (hmeets : s.Meets op) : Inv (s.step op) := by
  cases op with
  | call t call => exact h.beginCall t call
  | enter t => exact h.enter t
  | wake t => exact h.wake t
  | resume t => exact h.resume hmeets
  | tick time => exact h.tick time

/-- A step that does not meet the condition reports what was not given. -/
theorem Inv.meets {op : Op} (h : Inv s) (hhonest : (s.step op).Honest) : s.Meets op := by
  cases op with
  | resume t =>
    intro timed hplace
    have hstep : s.step (.resume t) = s.ret t (inTime s.now timed) := by
      simp only [LightSignal.step, hplace]
    rw [hstep] at hhonest
    have hallowed : Allowed s.log (.returned t (inTime s.now timed) s.now) :=
      (legal_append_singleton.1 hhonest).2
    obtain ⟨call, before, during, hlast, hgiven, hwaits⟩ : InCall s.log (s.flagSeen t) t (Waits t timed) := by
      have hcall := h.places t
      rwa [hplace] at hcall
    constructor
    · intro hin
      rw [hin] at hallowed
      obtain ⟨call', before', during', hlast', hgiven'⟩ := hallowed
      obtain ⟨-, rfl, rfl⟩ := hlast.unique hlast'
      exact hgiven.2 hgiven'
    · rintro hin start timeout rfl
      rw [hin] at hallowed
      obtain ⟨timeout', before', during', start', hlast', hmem', helapsed⟩ := hallowed
      obtain ⟨rfl, hmem, -⟩ := hwaits
      obtain ⟨heq, rfl, rfl⟩ := hlast.unique hlast'
      obtain rfl := Call.waitFor.inj heq
      obtain rfl := (hmem start').1 hmem'
      exact helapsed.trans_lt s.now.toInt_lt
  | _ => trivial

/-! ### Runs -/

theorem notified_mem_of_given (h : LastCall t log call before during) (hgiven : WasGiven before during) :
    .notified ∈ log := by
  rw [h.split]
  rcases hgiven with hduring | ⟨earlier, later, rfl, -⟩
  · exact List.mem_append_right _ (List.mem_cons_of_mem _ hduring)
  · simp

end LightSignal

end AimRT.Util
