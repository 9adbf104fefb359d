import AimRT.Lib.Run
import Mathlib.Data.Int.ModEq
import Mathlib.Order.Bounds.Basic

/-!
# The timer

What `Reset`, `Cancel` and the closure of `ExecuteLoop` do to the fields of a `Timer`.  The closure asks whether it is
still the one that was scheduled for `next_call_time_`, runs the task, and moves `next_call_time_` on: by one period,
and when that is in the past already, by as many as it takes.

Times and periods are nanoseconds, and `/` of durations truncates.  As long as no `Reset` comes in between, the new time
is the first one of the grid that is not in the past.
-/

namespace AimRT.Executor

open Lib.Run

/-- The fields of `TimerBase`. -/
structure Timer where
  period : ℤ
  nextCallTime : ℤ
  cancelled : Bool
  deriving DecidableEq, Repr

namespace Timer

/-- What the constructor leaves. -/
def create (period : ℤ) : Timer := ⟨period, 0, true⟩

def cancel (timer : Timer) : Timer := { timer with cancelled := true }

/-- `Reset` up to its `ExecuteLoop`, at `executor_.Now()`. -/
def reset (timer : Timer) (now : ℤ) : Timer :=
  { timer with cancelled := false, nextCallTime := now + timer.period }

/-- The closure that was scheduled for `plannedTime` runs the task. -/
def runsTask (timer : Timer) (plannedTime : ℤ) : Bool := !timer.cancelled && plannedTime == timer.nextCallTime

/-- `skip_count` for a `next_call_time_` that is `nowAhead` behind. -/
def skipCount (period nowAhead : ℤ) : ℤ := 1 + (nowAhead - 1).tdiv period

/-- The closure behind the task, up to its `ExecuteLoop`. -/
def advance (timer : Timer) (now : ℤ) : Timer :=
  let nextCallTime := timer.nextCallTime + timer.period
  if nextCallTime < now then
    if timer.period = 0 then { timer with nextCallTime := now }
    else { timer with
      nextCallTime := nextCallTime + skipCount timer.period (now - nextCallTime) * timer.period }
  else { timer with nextCallTime := nextCallTime }

/-- The times the task is called at when the closures of one chain read the clock at `nows` behind it. -/
def callTimes (timer : Timer) : List ℤ → List ℤ
  | [] => [timer.nextCallTime]
  | now :: nows => timer.nextCallTime :: (timer.advance now).callTimes nows

theorem callTimes_nil (timer : Timer) : timer.callTimes [] = [timer.nextCallTime] := rfl

variable {timer : Timer} {now : ℤ}

@[simp] theorem period_cancel : timer.cancel.period = timer.period := rfl

@[simp] theorem period_reset : (timer.reset now).period = timer.period := rfl

@[simp] theorem period_advance : (timer.advance now).period = timer.period := by
  simp only [advance]
  split_ifs <;> rfl

@[simp] theorem cancelled_advance : (timer.advance now).cancelled = timer.cancelled := by
  simp only [advance]
  split_ifs <;> rfl

theorem runsTask_iff {plannedTime : ℤ} :
    timer.runsTask plannedTime = true ↔ timer.cancelled = false ∧ plannedTime = timer.nextCallTime := by
  simp [runsTask]

/-! ### The grid -/

/-- `skip_count` is the least number of periods that is no less than what it has to catch up with. -/
theorem skipCount_spec {period nowAhead : ℤ} (hperiod : 0 < period) (hahead : 0 < nowAhead) :
    1 ≤ skipCount period nowAhead ∧ nowAhead ≤ skipCount period nowAhead * period ∧
      (skipCount period nowAhead - 1) * period < nowAhead := by
  have hnonneg : 0 ≤ nowAhead - 1 := by omega
  have hskip : skipCount period nowAhead = 1 + (nowAhead - 1) / period := by
    rw [skipCount, Int.tdiv_eq_ediv_of_nonneg hnonneg]
  have hquot : 0 ≤ (nowAhead - 1) / period := Int.ediv_nonneg hnonneg hperiod.le
  have hbelow : (nowAhead - 1) / period * period ≤ nowAhead - 1 := Int.ediv_mul_le _ hperiod.ne'
  have habove : nowAhead - 1 < ((nowAhead - 1) / period + 1) * period := Int.lt_ediv_add_one_mul_self _ hperiod
  refine ⟨by omega, ?_, ?_⟩
  · rw [hskip, add_comm 1]
    omega
  · rw [hskip, add_sub_cancel_left]
    omega

/-- The new time is some periods on, no fewer than needed to reach `now`, and none more. -/
theorem exists_advance (now : ℤ) (hperiod : 0 < timer.period) :
    ∃ k : ℤ, 1 ≤ k ∧ (timer.advance now).nextCallTime = timer.nextCallTime + k * timer.period ∧
      now ≤ timer.nextCallTime + k * timer.period ∧
      (1 < k → timer.nextCallTime + (k - 1) * timer.period < now) := by
  by_cases hlate : timer.nextCallTime + timer.period < now
  · obtain ⟨hone, hreach, hleast⟩ := skipCount_spec hperiod (sub_pos.2 hlate)
    generalize hskip : skipCount timer.period (now - (timer.nextCallTime + timer.period)) = skip at hone hreach hleast
    refine ⟨skip + 1, by omega, ?_, ?_, fun _ => ?_⟩
    · simp only [advance, if_pos hlate, if_neg hperiod.ne', hskip]
      ring
    · rw [add_mul, one_mul]
      omega
    · rw [add_sub_cancel_right]
      rw [sub_mul, one_mul] at hleast
      omega
  · refine ⟨1, le_rfl, ?_, ?_, fun h => absurd h (lt_irrefl _)⟩
    · simp only [advance, if_neg hlate, one_mul]
    · omega

theorem le_advance (hperiod : 0 < timer.period) : now ≤ (timer.advance now).nextCallTime := by
  obtain ⟨k, -, hnext, hreach, -⟩ := exists_advance now hperiod
  rwa [hnext]

theorem lt_advance (hperiod : 0 < timer.period) : timer.nextCallTime < (timer.advance now).nextCallTime := by
  obtain ⟨k, hk, hnext, -, -⟩ := exists_advance now hperiod
  have : 0 < k * timer.period := mul_pos (by omega) hperiod
  omega

/-- A closure that was not early does not go on by more than a period from now. -/
theorem advance_le (hperiod : 0 < timer.period) (hdue : timer.nextCallTime ≤ now) :
    (timer.advance now).nextCallTime ≤ now + timer.period := by
  obtain ⟨k, hk, hnext, -, hleast⟩ := exists_advance now hperiod
  rw [hnext]
  rcases eq_or_lt_of_le hk with rfl | hmore
  · rw [one_mul]
    omega
  · have := hleast hmore
    rw [sub_mul, one_mul] at this
    omega

theorem isLeast_advance (hperiod : 0 < timer.period) :
    IsLeast {t | (∃ k : ℤ, 1 ≤ k ∧ t = timer.nextCallTime + k * timer.period) ∧ now ≤ t}
      (timer.advance now).nextCallTime := by
  obtain ⟨k, hk, hnext, hreach, hleast⟩ := exists_advance now hperiod
  rw [hnext]
  refine ⟨⟨⟨k, hk, rfl⟩, hreach⟩, ?_⟩
  rintro t ⟨⟨k', hk', rfl⟩, hnow⟩
  by_contra! hless
  have hlt : k' < k := by
    by_contra! hge
    have := mul_le_mul_of_nonneg_right hge hperiod.le
    omega
  -- `k'` is one less than `k` at most, and that many periods were not enough
  have hbefore := hleast (by omega)
  have : k' * timer.period ≤ (k - 1) * timer.period := mul_le_mul_of_nonneg_right (by omega) hperiod.le
  omega

theorem advance_modEq (hperiod : 0 < timer.period) :
    (timer.advance now).nextCallTime ≡ timer.nextCallTime [ZMOD timer.period] := by
  obtain ⟨k, -, hnext, -, -⟩ := exists_advance now hperiod
  rw [hnext]
  exact (Int.modEq_iff_dvd.2 ⟨k, by ring⟩).symm

/-! ### The values on the way -/

/-- What `int64_t` holds. -/
def InInt64 (v : ℤ) : Prop := -2 ^ 63 ≤ v ∧ v < 2 ^ 63

/-- The values of the closure behind the task, in the order it computes them. -/
def advanceValues (timer : Timer) (now : ℤ) : List ℤ :=
  let nextCallTime := timer.nextCallTime + timer.period
  let nowAhead := now - nextCallTime
  if nextCallTime < now then
    [nextCallTime, nowAhead, nowAhead - 1, (nowAhead - 1).tdiv timer.period, skipCount timer.period nowAhead,
      skipCount timer.period nowAhead * timer.period, (timer.advance now).nextCallTime]
  else [nextCallTime]

/-- None of them overflows when the times do not, from the epoch on. -/
theorem advance_no_overflow (hperiod : 0 < timer.period) (hepoch : 0 ≤ timer.nextCallTime)
    (hfits : InInt64 (timer.advance now).nextCallTime) : ∀ v ∈ timer.advanceValues now, InInt64 v := by
  by_cases hlate : timer.nextCallTime + timer.period < now
  · obtain ⟨hone, hreach, hleast⟩ := skipCount_spec hperiod (sub_pos.2 hlate)
    simp only [advance, if_pos hlate, if_neg hperiod.ne'] at hfits
    simp only [advanceValues, advance, if_pos hlate, if_neg hperiod.ne']
    generalize hahead : now - (timer.nextCallTime + timer.period) = nowAhead at *
    have hskip : (nowAhead - 1).tdiv timer.period = skipCount timer.period nowAhead - 1 := by
      rw [skipCount, add_sub_cancel_left]
    have hmul : skipCount timer.period nowAhead ≤ skipCount timer.period nowAhead * timer.period :=
      le_mul_of_one_le_right (by omega) hperiod
    rw [hskip]
    simp only [InInt64, List.mem_cons, List.not_mem_nil, or_false, forall_eq_or_imp, forall_eq] at *
    omega
  · simp only [advance, if_neg hlate] at hfits
    simpa [advanceValues, if_neg hlate] using hfits

/-! ### Runs of the closure -/

theorem le_of_mem_callTimes (hperiod : 0 < timer.period) {nows : List ℤ} :
    ∀ t ∈ timer.callTimes nows, timer.nextCallTime ≤ t := by
  induction nows generalizing timer with
  | nil => simp [callTimes_nil]
  | cons now nows ih =>
    intro t ht
    rcases List.mem_cons.1 ht with rfl | ht
    · exact le_rfl
    · exact ((lt_advance hperiod).trans_le (ih (by simpa) t ht)).le

theorem pairwise_callTimes (hperiod : 0 < timer.period) (nows : List ℤ) :
    (timer.callTimes nows).Pairwise (· < ·) := by
  induction nows generalizing timer with
  | nil => simp [callTimes_nil]
  | cons now nows ih =>
    refine List.pairwise_cons.2 ⟨fun t ht => ?_, ih (by simpa)⟩
    exact (lt_advance hperiod).trans_le (le_of_mem_callTimes (by simpa) t ht)

theorem modEq_of_mem_callTimes (hperiod : 0 < timer.period) {nows : List ℤ} :
    ∀ t ∈ timer.callTimes nows, t ≡ timer.nextCallTime [ZMOD timer.period] := by
  induction nows generalizing timer with
  | nil => simp [callTimes_nil]
  | cons now nows ih =>
    intro t ht
    rcases List.mem_cons.1 ht with rfl | ht
    · rfl
    · have hrest : t ≡ (timer.advance now).nextCallTime [ZMOD (timer.advance now).period] := ih (by simpa) t ht
      rw [period_advance] at hrest
      exact hrest.trans (advance_modEq hperiod)

theorem allMeet_le_advance (hperiod : 0 < timer.period) (nows : List ℤ) :
    AllMeet advance (fun timer now => now ≤ (timer.advance now).nextCallTime) timer nows := by
  induction nows generalizing timer with
  | nil => trivial
  | cons now nows ih => exact ⟨le_advance hperiod, ih (by simpa)⟩

/-- Whenever the closure reads the clock behind the task, the time it goes on to is the least one on the grid that is
not in the past.  So the times of a chain are on one grid, they increase, and none is in the past when it is
scheduled. -/
theorem call_times_on_grid (timer : Timer) (hperiod : 0 < timer.period) :
    (∀ now, IsLeast {t | (∃ k : ℤ, 1 ≤ k ∧ t = timer.nextCallTime + k * timer.period) ∧ now ≤ t}
      (timer.advance now).nextCallTime) ∧
    ∀ nows, (∀ t ∈ timer.callTimes nows, t ≡ timer.nextCallTime [ZMOD timer.period]) ∧
      (timer.callTimes nows).Pairwise (· < ·) ∧
      AllMeet advance (fun timer now => now ≤ (timer.advance now).nextCallTime) timer nows :=
  ⟨fun _ => isLeast_advance hperiod, fun nows =>
    ⟨modEq_of_mem_callTimes hperiod, pairwise_callTimes hperiod nows, allMeet_le_advance hperiod nows⟩⟩

theorem call_times_on_grid_ten :
    IsLeast {t : ℤ | (∃ k : ℤ, 1 ≤ k ∧ t = 100 + k * 10) ∧ 120 ≤ t} 120 ∧
      (callTimes ⟨10, 100, false⟩ [120, 125]).Pairwise (· < ·) := by
  have h := call_times_on_grid ⟨10, 100, false⟩ (by decide)
  exact ⟨h.1 120, (h.2 [120, 125]).2.1⟩

end Timer

end AimRT.Executor
