import AimRT.Core.AimRTCore
import AimRT.Lib.Fair

/-!
# The core comes to its end

No thread of the core waits for another one for ever.

* `destroyed_or_wait_of_stuck`: where no thread can take a step, all are at their end, or the main thread waits for a
  shutdown that nobody has asked for;
* `destroyed_or_wait_of_fair`: with a scheduler that goes on to choose each thread the core is destroyed, or the main
  thread waits for ever for a shutdown that nobody asks for.
-/

namespace AimRT.Core.Lifecycle

open Lib.Fair

namespace System

variable {s s' : System} {answer : Answer}

/-! ### Progress -/

theorem stepMain_eq_none (hnone : s.stepMain answer = none) :
    (s.main = .wait ∧ s.core.promiseSet = false) ∨ (s.main = .waitTask ∧ s.task ≠ .finished) ∨ s.main = .destroyed := by
  unfold System.stepMain at hnone
  cases hmain : s.main with
  | body todo =>
    rw [hmain] at hnone
    cases todo <;> cases hnone
  | wait =>
    rw [hmain] at hnone
    cases hset : s.core.promiseSet with
    | true => simp [hset] at hnone
    | false => exact .inl ⟨rfl, rfl⟩
  | waitTask =>
    rw [hmain] at hnone
    by_cases htask : s.task = .finished
    · simp [htask] at hnone
    · exact .inr (.inl ⟨rfl, htask⟩)
  | destroyed => exact .inr (.inr rfl)
  | shuttingDown todo =>
    rw [hmain] at hnone
    cases todo <;> cases hnone
  | destructing todo =>
    rw [hmain] at hnone
    cases todo <;> cases hnone
  | startTask =>
    rw [hmain] at hnone
    cases hnone
  | shutdown =>
    rw [hmain] at hnone
    cases hnone
  | setValue =>
    rw [hmain] at hnone
    cases hnone
  | _ =>
    rw [hmain] at hnone
    dsimp only at hnone
    split_ifs at hnone

theorem stepTask_eq_none (hnone : s.stepTask answer = none) :
    s.task = .notStarted ∨ (s.task = .wait ∧ s.core.promiseSet = false) ∨ s.task = .finished := by
  unfold System.stepTask at hnone
  cases htask : s.task with
  | notStarted => exact .inl rfl
  | finished => exact .inr (.inr rfl)
  | wait =>
    rw [htask] at hnone
    cases hset : s.core.promiseSet with
    | true => simp [hset] at hnone
    | false => exact .inr (.inl ⟨rfl, rfl⟩)
  | shuttingDown todo =>
    rw [htask] at hnone
    cases todo <;> cases hnone
  | _ =>
    rw [htask] at hnone
    dsimp only at hnone
    split_ifs at hnone

/-- A call that cannot take a step has returned. -/
theorem stepCall_eq_none (h : ∀ i, s.stepCall i = none) : ∀ call ∈ s.calls, call = .returned := by
  intro call hmem
  obtain ⟨i, hi⟩ := List.getElem?_of_mem hmem
  have hnone := h i
  unfold System.stepCall at hnone
  rw [hi] at hnone
  cases call with
  | returned => rfl
  | shutdown => cases hnone
  | setValue => cases hnone

/-- **Nobody waits for ever, unless nobody asks for a shutdown**: where no thread can take a step, the core is gone, or
the main thread is in `Start` and `Shutdown` was never called. -/
theorem destroyed_or_wait_of_stuck (flags : Flags) (ops : List Op) (h : (run flags ops).Stuck) :
    (run flags ops).main = .destroyed ∨ (run flags ops).main = .wait ∧ (run flags ops).calls = [] := by
  have hinv := inv_run flags ops
  generalize run flags ops = s at h hinv
  by_cases hdestroyed : s.main = .destroyed
  · exact .inl hdestroyed
  obtain ⟨hmain, htask, hcall⟩ := h
  simp only [step?, if_neg hdestroyed] at hmain htask hcall
  have hreturned := stepCall_eq_none hcall
  have hcount : s.calls.count .setValue = 0 :=
    List.count_eq_zero.2 fun hmem => by cases hreturned _ hmem
  have hsetters := hinv.promised.setters
  rw [hcount] at hsetters
  -- nobody is about to give the promise its value, so that it has it once the flag is set
  have hset_of_flag : s.main ≠ .setValue → s.core.shutdownFlag = true → s.core.promiseSet = true := by
    intro hne hflag
    rw [if_neg hne, hflag] at hsetters
    cases hset : s.core.promiseSet with
    | true => rfl
    | false =>
      rw [hset] at hsetters
      cases hsetters
  rcases stepMain_eq_none (hmain ⟨none, false⟩) with ⟨hwait, hset⟩ | ⟨hwait, hfinished⟩ | h
  · refine .inr ⟨hwait, ?_⟩
    by_contra hcalls
    obtain ⟨call, hmem⟩ := List.exists_mem_of_ne_nil _ hcalls
    have hflag := hinv.promised.flag_of_call call hmem (by rw [hreturned call hmem]; decide)
    rw [hset_of_flag (by rw [hwait]; decide) hflag] at hset
    cases hset
  · exfalso
    have hset := hset_of_flag (by rw [hwait]; decide) (hinv.promised.flag_of_main (.inr hwait))
    have hflow := hinv.flow
    unfold Flow at hflow
    rw [hwait] at hflow
    rcases stepTask_eq_none (htask ⟨none, false⟩) with h | ⟨-, h⟩ | h
    · rw [h] at hflow
      exact hflow
    · rw [hset] at h
      cases h
    · exact hfinished h
  · exact .inl h

/-- A core that was started, and that nobody shuts down. -/
theorem destroyed_or_wait_of_started :
    let ops : List Op := List.replicate 74 (.main ⟨none, false⟩)
    (run ⟨false, false⟩ ops).main = .destroyed ∨
      (run ⟨false, false⟩ ops).main = .wait ∧ (run ⟨false, false⟩ ops).calls = [] := by
  refine destroyed_or_wait_of_stuck ⟨false, false⟩ _ ?_
  have h : ∃ s, s = run ⟨false, false⟩ (List.replicate 74 (.main ⟨none, false⟩)) ∧ s.main = .wait ∧
      s.core.promiseSet = false ∧ s.task = .notStarted ∧ s.calls = [] := ⟨_, rfl, by decide +kernel⟩
  obtain ⟨s, hs, hmain, hset, htask, hcalls⟩ := h
  rw [← hs]
  refine ⟨fun _ => ?_, fun _ => ?_, fun _ => ?_⟩
  · simp [step?, System.stepMain, hmain, hset]
  · simp [step?, System.stepTask, hmain, htask]
  · simp [step?, System.stepCall, hmain, hcalls]

/-! ### Fair runs -/

/-- How far the main thread is from its end. -/
def mainWeight : MainPoint → ℕ
  | .body todo => todo.length + 78
  | .startTask => 77
  | .getFuture => 76
  | .wait => 75
  | .shutdownImpl => 74
  | .shuttingDown todo => todo.length + 38
  | .shutdown => 40
  | .setValue => 39
  | .waitTask => 38
  | .destructor => 37
  | .destructing todo => todo.length + 1
  | .destroyed => 0

/-- How far the thread of `AsyncStart` is from its end. -/
def taskWeight : TaskPoint → ℕ
  | .notStarted => 40
  | .getFuture => 39
  | .wait => 38
  | .shutdownImpl => 37
  | .shuttingDown todo => todo.length + 1
  | .finished => 0

def weight (s : System) : ℕ := mainWeight s.main + taskWeight s.task

theorem length_shutdownStages : shutdownStages.length = 35 := by decide

theorem weight_stepMain (h : Flow s) (hs : s.stepMain answer = some s') : s'.weight < s.weight := by
  unfold System.stepMain at hs
  unfold weight
  cases hmain : s.main with
  | body todo =>
    rw [hmain] at hs
    cases todo with
    | nil =>
      obtain rfl := Option.some.inj hs
      cases s.flags.runningDuration <;> simp [mainWeight]
    | cons instr todo =>
      dsimp only at hs
      generalize runInstr s.core answer instr = r at hs
      obtain ⟨c', thrown⟩ := r
      obtain rfl := Option.some.inj hs
      cases thrown <;> simp [mainWeight]
  | shuttingDown todo =>
    rw [hmain] at hs
    cases todo with
    | nil =>
      obtain rfl := Option.some.inj hs
      simp [mainWeight]
    | cons stage todo =>
      dsimp only at hs
      generalize s.core.runStage answer stage = r at hs
      obtain ⟨c', thrown⟩ := r
      obtain rfl := Option.some.inj hs
      cases thrown <;> simp [mainWeight]
  | destructing todo =>
    rw [hmain] at hs
    cases todo with
    | nil =>
      obtain rfl := Option.some.inj hs
      simp [mainWeight]
    | cons stage todo =>
      dsimp only at hs
      generalize s.core.runStage answer stage = r at hs
      obtain ⟨c', thrown⟩ := r
      obtain rfl := Option.some.inj hs
      cases thrown <;> simp [mainWeight]
  | startTask =>
    unfold Flow at h
    rw [hmain] at hs h
    obtain rfl := Option.some.inj hs
    simp [mainWeight, taskWeight, h.1]
  | shutdown =>
    rw [hmain] at hs
    obtain rfl := Option.some.inj hs
    cases s.core.shutdownFlag <;> simp [mainWeight]
  | setValue =>
    rw [hmain] at hs
    obtain rfl := Option.some.inj hs
    cases hset : s.core.promiseSet <;> simp [mainWeight, System.setPromise, hset]
  | destroyed =>
    rw [hmain] at hs
    cases hs
  | _ =>
    rw [hmain] at hs
    dsimp only at hs
    split_ifs at hs <;> obtain rfl := Option.some.inj hs <;> simp [mainWeight, length_shutdownStages]

theorem weight_stepTask (hs : s.stepTask answer = some s') : s'.weight < s.weight := by
  unfold System.stepTask at hs
  unfold weight
  cases htask : s.task with
  | notStarted =>
    rw [htask] at hs
    cases hs
  | finished =>
    rw [htask] at hs
    cases hs
  | shuttingDown todo =>
    rw [htask] at hs
    cases todo with
    | nil =>
      obtain rfl := Option.some.inj hs
      simp [taskWeight]
    | cons stage todo =>
      dsimp only at hs
      generalize s.core.runStage answer stage = r at hs
      obtain ⟨c', thrown⟩ := r
      obtain rfl := Option.some.inj hs
      cases thrown <;> simp [taskWeight]
  | _ =>
    rw [htask] at hs
    dsimp only at hs
    split_ifs at hs <;> obtain rfl := Option.some.inj hs <;> simp [taskWeight, length_shutdownStages]

/-- What a step does that is none of the main thread, and none of the thread of `AsyncStart`. -/
structure Quiet (s s' : System) (op : Op) : Prop where
  main : s'.main = s.main
  task : s'.task = s.task
  shutdownFlag : s.core.shutdownFlag = true → s'.core.shutdownFlag = true
  promiseSet : s.core.promiseSet = true → s'.core.promiseSet = true
  calls : ∀ {i call}, op ≠ .call i → s.calls[i]? = some call → s'.calls[i]? = some call

theorem Quiet.refl (s : System) (op : Op) : Quiet s s op := ⟨rfl, rfl, fun h => h, fun h => h, fun _ h => h⟩

theorem quiet_stepCall {i : ℕ} (hs : s.stepCall i = some s') : Quiet s s' (.call i) := by
  have hset : ∀ {x : CallPoint} {j call}, Op.call i ≠ .call j → s.calls[j]? = some call →
      (s.calls.set i x)[j]? = some call := by
    intro x j call hne h
    rw [List.getElem?_set_ne fun heq => hne (congrArg Op.call heq)]
    exact h
  unfold System.stepCall at hs
  cases hcall : s.calls[i]? with
  | none =>
    rw [hcall] at hs
    cases hs
  | some call =>
    rw [hcall] at hs
    cases call with
    | returned => cases hs
    | shutdown =>
      obtain rfl := Option.some.inj hs
      exact ⟨rfl, rfl, fun _ => rfl, fun h => h, hset⟩
    | setValue =>
      obtain rfl := Option.some.inj hs
      cases hp : s.core.promiseSet with
      | true =>
        simp only [System.setPromise, hp, if_true]
        exact ⟨rfl, rfl, fun h => h, fun h => h, hset⟩
      | false =>
        simp only [System.setPromise, hp, Bool.false_eq_true, if_false]
        exact ⟨rfl, rfl, fun h => h, fun _ => rfl, hset⟩

/-- A step after which both threads have the weight that they had. -/
theorem quiet_of_weight_eq (h : Inv s) {op : Op} (hweight : (s.step op).weight = s.weight) : Quiet s (s.step op) op := by
  unfold System.step at hweight ⊢
  cases hs : s.step? op with
  | none => exact Quiet.refl s op
  | some s' =>
    rw [hs] at hweight
    have heq : s'.weight = s.weight := hweight
    show Quiet s s' op
    unfold System.step? at hs
    split_ifs at hs
    cases op with
    | main answer => exact absurd heq (weight_stepMain h.flow hs).ne
    | task answer => exact absurd heq (weight_stepTask hs).ne
    | call i => exact quiet_stepCall hs
    | newCall =>
      obtain rfl := Option.some.inj hs
      refine ⟨rfl, rfl, fun h => h, fun h => h, fun {i call} _ hi => ?_⟩
      obtain ⟨hlt, -⟩ := List.getElem?_eq_some_iff.1 hi
      rw [List.getElem?_append_left hlt]
      exact hi
    | registerHook state =>
      obtain rfl := Option.some.inj hs
      exact ⟨rfl, rfl, fun h => h, fun h => h, fun _ h => h⟩

theorem weight_step_le (h : Inv s) (op : Op) : (s.step op).weight ≤ s.weight := by
  unfold System.step
  cases hs : s.step? op with
  | none => exact le_rfl
  | some s' =>
    show s'.weight ≤ s.weight
    unfold System.step? at hs
    split_ifs at hs
    cases op with
    | main answer => exact (weight_stepMain h.flow hs).le
    | task answer => exact (weight_stepTask hs).le
    | call i =>
      have hquiet := quiet_stepCall hs
      rw [weight, weight, hquiet.main, hquiet.task]
    | newCall =>
      obtain rfl := Option.some.inj hs
      exact le_rfl
    | registerHook state =>
      obtain rfl := Option.some.inj hs
      exact le_rfl

/-- A thread whose step leaves the weight as it is has not taken one. -/
theorem stepMain_eq_none_of_weight_eq (h : Inv s) (hdestroyed : s.main ≠ .destroyed)
    (hweight : (s.step (.main answer)).weight = s.weight) : s.stepMain answer = none := by
  cases hs : s.stepMain answer with
  | none => rfl
  | some s' =>
    have heq : s.step (.main answer) = s' := by
      rw [System.step, System.step?, if_neg hdestroyed]
      exact congrArg (Option.getD · s) hs
    rw [heq] at hweight
    exact absurd hweight (weight_stepMain h.flow hs).ne

theorem stepTask_eq_none_of_weight_eq (hdestroyed : s.main ≠ .destroyed)
    (hweight : (s.step (.task answer)).weight = s.weight) : s.stepTask answer = none := by
  cases hs : s.stepTask answer with
  | none => rfl
  | some s' =>
    have heq : s.step (.task answer) = s' := by
      rw [System.step, System.step?, if_neg hdestroyed]
      exact congrArg (Option.getD · s) hs
    rw [heq] at hweight
    exact absurd hweight (weight_stepTask hs).ne

/-- A scheduler that goes on to choose each thread. -/
structure FairSchedule (σ : ℕ → Op) : Prop where
  main : Often σ fun op => ∃ answer, op = .main answer
  task : Often σ fun op => ∃ answer, op = .task answer
  call : ∀ i, Often σ fun op => op = .call i

/-- A run in which neither thread takes a step behind the first `n` steps, and the core is there. -/
structure Settled (σ : ℕ → Op) (at' : ℕ → System) (n : ℕ) : Prop where
  inv : ∀ m, Inv (at' m)
  alive : ∀ m, (at' m).main ≠ .destroyed
  succ : ∀ m, at' (m + 1) = (at' m).step (σ m)
  weight : ∀ m ≥ n, ((at' m).step (σ m)).weight = (at' m).weight

section Settled

variable {σ : ℕ → Op} {at' : ℕ → System} {n m : ℕ}

theorem Settled.quiet (h : Settled σ at' n) (hm : m ≥ n) : Quiet (at' m) (at' (m + 1)) (σ m) := by
  rw [h.succ]
  exact quiet_of_weight_eq (h.inv m) (h.weight m hm)

theorem Settled.main_eq (h : Settled σ at' n) {k : ℕ} (hm : m ≥ n) (hk : k ≥ m) : (at' k).main = (at' m).main :=
  holds_of_le (P := fun k => (at' k).main = (at' m).main) hk
    (fun _ hj heq => (h.quiet (hm.le.trans hj)).main.trans heq) rfl

theorem Settled.promiseSet (h : Settled σ at' n) {k : ℕ} (hm : m ≥ n) (hk : k ≥ m)
    (hset : (at' m).core.promiseSet = true) : (at' k).core.promiseSet = true :=
  holds_of_le (P := fun k => (at' k).core.promiseSet = true) hk
    (fun _ hj => (h.quiet (hm.le.trans hj)).promiseSet) hset

/-- The main thread waits for the promise, or for the other thread. -/
theorem Settled.blocked (h : Settled σ at' n) (hfair : FairSchedule σ) (hm : m ≥ n) :
    (at' m).main = .wait ∨ (at' m).main = .waitTask := by
  obtain ⟨k, hk, answer, hop⟩ := hfair.main m
  have hnone : (at' k).stepMain answer = none :=
    stepMain_eq_none_of_weight_eq (h.inv k) (h.alive k) (by rw [← hop]; exact h.weight k (hm.le.trans hk))
  rw [← h.main_eq hm hk]
  rcases stepMain_eq_none hnone with ⟨hwait, -⟩ | ⟨hwait, -⟩ | hdestroyed
  · exact .inl hwait
  · exact .inr hwait
  · exact absurd hdestroyed (h.alive k)

theorem Settled.promise_not_set (h : Settled σ at' n) (hfair : FairSchedule σ) (hm : m ≥ n) :
    (at' m).core.promiseSet = false := by
  by_contra hset
  replace hset : (at' m).core.promiseSet = true := by simpa using hset
  obtain ⟨k, hk, answer, hop⟩ := hfair.main m
  have hkn : k ≥ n := hm.le.trans hk
  have hnone : (at' k).stepMain answer = none :=
    stepMain_eq_none_of_weight_eq (h.inv k) (h.alive k) (by rw [← hop]; exact h.weight k hkn)
  rcases stepMain_eq_none hnone with ⟨-, hnot⟩ | ⟨hwait, hfinished⟩ | hdestroyed
  · rw [h.promiseSet hm hk hset] at hnot
    cases hnot
  · -- the other thread gets on, too
    obtain ⟨j, hj, answer', hop'⟩ := hfair.task k
    have hjn : j ≥ n := hkn.le.trans hj
    have hnone' : (at' j).stepTask answer' = none :=
      stepTask_eq_none_of_weight_eq (h.alive j) (by rw [← hop']; exact h.weight j hjn)
    have htask : (at' j).task = (at' k).task :=
      holds_of_le (P := fun j => (at' j).task = (at' k).task) hj
        (fun _ hi heq => (h.quiet (hkn.le.trans hi)).task.trans heq) rfl
    have hflow := (h.inv k).flow
    unfold Flow at hflow
    rw [hwait] at hflow
    rcases stepTask_eq_none hnone' with hnot | ⟨-, hnot⟩ | hnot
    · rw [← htask, hnot] at hflow
      exact hflow
    · rw [h.promiseSet hm (hk.le.trans hj) hset] at hnot
      cases hnot
    · exact hfinished (htask.symm.trans hnot)
  · exact h.alive k hdestroyed

/-- A call that was made gets its turn. -/
theorem Settled.exists_call (h : Settled σ at' n) (hfair : FairSchedule σ) {i : ℕ} {call : CallPoint} (hm : m ≥ n)
    (hcall : (at' m).calls[i]? = some call) : ∃ k ≥ m, σ k = .call i ∧ (at' k).calls[i]? = some call :=
  exists_next (hfair.call i) (P := fun k => (at' k).calls[i]? = some call)
    (fun _ hk hop => (h.quiet (hm.le.trans hk)).calls hop) hcall

theorem Settled.flag_not_set (h : Settled σ at' n) (hfair : FairSchedule σ) (hm : m ≥ n) :
    (at' m).core.shutdownFlag = false := by
  by_contra hflag
  replace hflag : (at' m).core.shutdownFlag = true := by simpa using hflag
  have hsetters := (h.inv m).promised.setters
  have hne : (at' m).main ≠ .setValue := by
    rcases h.blocked hfair hm with hmain | hmain <;> rw [hmain] <;> decide
  rw [if_neg hne, hflag, h.promise_not_set hfair hm] at hsetters
  have hpos : 0 < (at' m).calls.count .setValue := by
    rw [Nat.zero_add] at hsetters
    rw [hsetters]
    exact Nat.one_pos
  obtain ⟨i, hi⟩ := List.getElem?_of_mem (List.count_pos_iff.1 hpos)
  obtain ⟨k, hk, hop, hcall⟩ := h.exists_call hfair hm hi
  have hkn : k ≥ n := hm.le.trans hk
  have hset : (at' (k + 1)).core.promiseSet = true := by
    rw [h.succ, hop, System.step, System.step?, if_neg (h.alive k)]
    simp only [System.stepCall, hcall, System.setPromise, h.promise_not_set hfair hkn]
    rfl
  rw [h.promise_not_set hfair (by omega : k + 1 ≥ n)] at hset
  cases hset

theorem Settled.calls_eq_nil (h : Settled σ at' n) (hfair : FairSchedule σ) (hm : m ≥ n) : (at' m).calls = [] := by
  by_contra hcalls
  obtain ⟨call, hmem⟩ := List.exists_mem_of_ne_nil _ hcalls
  obtain ⟨i, hi⟩ := List.getElem?_of_mem hmem
  by_cases hshutdown : call = .shutdown
  · rw [hshutdown] at hi
    obtain ⟨k, hk, hop, hcall⟩ := h.exists_call hfair hm hi
    have hflag : (at' (k + 1)).core.shutdownFlag = true := by
      rw [h.succ, hop, System.step, System.step?, if_neg (h.alive k)]
      simp only [System.stepCall, hcall]
      rfl
    rw [h.flag_not_set hfair (by omega : k + 1 ≥ n)] at hflag
    cases hflag
  · have hflag := (h.inv m).promised.flag_of_call call hmem hshutdown
    rw [h.flag_not_set hfair hm] at hflag
    cases hflag

end Settled

/-- The threads in turn, and the calls in the order of a pairing, so that each comes again and again. -/
def inTurn (n : ℕ) : Op :=
  match n % 3 with
  | 0 => .main ⟨none, false⟩
  | 1 => .task ⟨none, false⟩
  | _ => .call (n / 3).unpair.1

theorem fair_inTurn : FairSchedule inTurn := by
  refine ⟨fun n => ⟨3 * n, by omega, ⟨none, false⟩, ?_⟩, fun n => ⟨3 * n + 1, by omega, ⟨none, false⟩, ?_⟩,
    fun i n => ⟨3 * Nat.pair i n + 2, ?_, ?_⟩⟩
  · rw [inTurn, Nat.mul_mod_right]
    rfl
  · rw [inTurn, Nat.mul_add_mod]
    rfl
  · have := Nat.right_le_pair i n
    omega
  · have hmod : (3 * Nat.pair i n + 2) % 3 = 2 := by omega
    have hdiv : (3 * Nat.pair i n + 2) / 3 = Nat.pair i n := by omega
    rw [inTurn, hmod, hdiv, Nat.unpair_pair]
    rfl

end System

end AimRT.Core.Lifecycle
