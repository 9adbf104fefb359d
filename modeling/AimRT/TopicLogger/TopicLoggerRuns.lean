import AimRT.TopicLogger.TopicLoggerBackend

/-!
# Every log is published or counted

Where the logs are: what `Log` records goes into the frame that is being filled or is counted for it, the task of the
timer takes both at once and numbers the frame, and what it has taken is published once.
-/

namespace AimRT.TopicLogger

open Lib Lib.Run Util Executor

namespace TopicLoggerBackend

variable {regexMatch : Bytes → Bytes → Option Bool} {s : TopicLoggerBackend}

/-! ### The frames -/

/-- The frames that were taken are numbered, bear what was counted, and were published or are about to be. -/
structure Numbered (s : TopicLoggerBackend) : Prop where
  consecutive : s.taken.map (·.logData.sequenceNum) = (List.range s.taken.length).map UInt64.ofNat
  sequenceNum : s.sequenceNum = UInt64.ofNat s.taken.length
  droppedCount : ∀ t ∈ s.taken, t.logData.droppedCount = UInt64.ofNat t.dropped.length
  droppedMsgCount : s.droppedMsgCount = UInt64.ofNat s.dropped.length
  published : (s.taken.map (·.logData)).Perm (s.published ++ s.closures.filterMap publishing)

theorem numbered_create (options : Options) : Numbered (create options) where
  consecutive := rfl
  sequenceNum := rfl
  droppedCount := by simp [create]
  droppedMsgCount := rfl
  published := List.Perm.nil

theorem filterMap_pending (closures : List TimerClosure) (plannedTime : ℤ) :
    (closures ++ [TimerClosure.pending plannedTime]).filterMap publishing = closures.filterMap publishing := by
  rw [List.filterMap_append, List.filterMap_cons_none (by rfl), List.filterMap_nil, List.append_nil]

/-- What the closures are about to publish, with the closure in place `i` apart. -/
theorem exists_publishing {closures : List TimerClosure} {i : ℕ} {c : TimerClosure} (hc : closures[i]? = some c) :
    ∃ rest, (closures.filterMap publishing).Perm ((publishing c).toList ++ rest) ∧
      ∀ c', ((closures.set i c').filterMap publishing).Perm ((publishing c').toList ++ rest) := by
  obtain ⟨hi, rfl⟩ := List.getElem?_eq_some_iff.1 hc
  have hcons : ∀ c' : TimerClosure, (c' :: closures.eraseIdx i).filterMap publishing =
      (publishing c').toList ++ (closures.eraseIdx i).filterMap publishing := fun c' => by
    cases hpublishing : publishing c' <;> simp [hpublishing]
  refine ⟨(closures.eraseIdx i).filterMap publishing, ?_, fun c' => ?_⟩
  · rw [← hcons]
    exact (List.getElem_cons_eraseIdx_perm hi).symm.filterMap _
  · rw [← hcons]
    exact (List.set_perm_cons_eraseIdx hi c').filterMap _

/-- A closure that goes from one place to another, neither of which publishes. -/
theorem published_put {closures : List TimerClosure} {i : ℕ} {c c' : TimerClosure} (hc : closures[i]? = some c)
    (hnone : publishing c = none) (hnone' : publishing c' = none) {frames published : List LogData}
    (h : frames.Perm (published ++ closures.filterMap publishing)) :
    frames.Perm (published ++ (closures.set i c').filterMap publishing) := by
  obtain ⟨rest, hbefore, hafter⟩ := exists_publishing hc
  rw [hnone] at hbefore
  have hset := hafter c'
  rw [hnone'] at hset
  exact h.trans ((hbefore.trans hset.symm).append_left _)

theorem Numbered.record (h : Numbered s) (id : ℕ) (w : LogDataWrapper) (now : ℤ) : Numbered (s.record id w now) := by
  unfold TopicLoggerBackend.record
  split_ifs
  · refine { h with droppedMsgCount := ?_ }
    simp [drop, h.droppedMsgCount]
  · exact { h with }
  · refine { h with published := ?_ }
    show (s.taken.map _).Perm (s.published ++ (s.closures ++ [_]).filterMap publishing)
    rw [filterMap_pending]
    exact h.published

theorem Numbered.callStep (h : Numbered s) (id : ℕ) (now : ℤ) (c : LogCall) :
    Numbered (TopicLoggerBackend.callStep regexMatch s id now c).2 := by
  cases c with
  | record w => exact h.record id w now
  | lookup w =>
    simp only [TopicLoggerBackend.callStep]
    split <;> exact h
  | regex w =>
    simp only [TopicLoggerBackend.callStep]
    split_ifs
    · exact h
    · exact { h with }
  | checkRun w | returned w result => exact h

theorem Numbered.timerTask (h : Numbered s) {i : ℕ} (hc : s.closures[i]? = some .task) (timeStamp : UInt64) :
    Numbered (put (s.timerTask timeStamp) i) := by
  unfold TopicLoggerBackend.timerTask
  split
  · exact { h with published := published_put hc rfl rfl h.published }
  · rename_i logs hcurrent
    obtain ⟨rest, hbefore, hafter⟩ := exists_publishing hc
    refine ⟨?_, ?_, ?_, rfl, ?_⟩
    · simp [put, List.range_succ, h.consecutive, h.sequenceNum]
    · simp [put, h.sequenceNum]
    · simpa [put, h.droppedMsgCount, or_imp, forall_and] using h.droppedCount
    · simp only [put, List.map_append, List.map_cons, List.map_nil]
      refine ((h.published.trans (hbefore.append_left _)).append_right _).trans ?_
      refine List.Perm.trans ?_ ((hafter _).symm.append_left _)
      simp only [publishing, Option.toList, List.nil_append, List.append_assoc]
      exact List.perm_append_comm.append_left _

theorem Numbered.closureStep (h : Numbered s) {i : ℕ} {c : TimerClosure} (hc : s.closures[i]? = some c) (now : ℤ)
    (timeStamp : UInt64) : Numbered (put (s.closureStep now timeStamp c) i) := by
  cases c with
  | task => exact h.timerTask hc timeStamp
  | publish logData =>
    obtain ⟨rest, hbefore, hafter⟩ := exists_publishing hc
    refine { h with published := (h.published.trans (hbefore.append_left _)).trans ?_ }
    refine List.Perm.trans ?_ ((hafter _).symm.append_left _)
    simp [put, TopicLoggerBackend.closureStep, publishing]
  | loop =>
    refine { h with published := ?_ }
    show (s.taken.map _).Perm (s.published ++ ((s.closures ++ [_]).set i _).filterMap publishing)
    rw [List.set_append_left _ _ (List.getElem?_eq_some_iff.1 hc).1, filterMap_pending]
    exact published_put hc rfl rfl h.published
  | pending plannedTime | planCheck plannedTime =>
    refine { h with published := published_put hc rfl ?_ h.published }
    simp only [TopicLoggerBackend.closureStep]
    split_ifs <;> rfl
  | advance | ended => exact { h with published := published_put hc rfl rfl h.published }

theorem Numbered.step (h : Numbered s) (op : Op) : Numbered (TopicLoggerBackend.step regexMatch s op) :=
  step_keeps regexMatch h (fun _ => { h with }) (fun i now c _ => { h.callStep i now c with })
    (fun _ now timeStamp _ hc => h.closureStep hc now timeStamp) { h with } { h with } op

/-! ### The logs -/

/-- The entry is the log of a call that has recorded it. -/
def IsLog (calls : List LogCall) (e : ℕ × SingleLogData) : Prop :=
  ∃ w maxMsgSize, calls[e.1]? = some (.returned w .recorded) ∧ e.2 = singleLogData maxMsgSize w

/-- The calls that have recorded their logs are accounted for once, and no others. -/
structure Accounting (s : TopicLoggerBackend) : Prop where
  once : ∀ i, (accounted s ++ waiting s).count i = (recorded s.calls i).toNat
  taken : ∀ t ∈ s.taken, ∀ e ∈ t.logData.logs, IsLog s.calls e
  current : ∀ e ∈ s.currentLogData.getD [], IsLog s.calls e

theorem accounting_create (options : Options) : Accounting (create options) where
  once i := by simp [accounted, waiting, recorded, create]
  taken := by simp [create]
  current := by simp [create]

/-- A call goes on that has not recorded its log yet, or has. -/
theorem IsLog.set {calls : List LogCall} {e : ℕ × SingleLogData} (h : IsLog calls e) {i : ℕ} {c c' : LogCall}
    (hc : calls[i]? = some c) (hkeeps : ∀ w, c = .returned w .recorded → c' = c) : IsLog (calls.set i c') e := by
  obtain ⟨w, maxMsgSize, hw, hdata⟩ := h
  refine ⟨w, maxMsgSize, ?_, hdata⟩
  rcases eq_or_ne i e.1 with rfl | hi
  · obtain rfl : c = .returned w .recorded := Option.some.inj (hc.symm.trans hw)
    rw [hkeeps w rfl, List.getElem?_set_self (List.getElem?_eq_some_iff.1 hc).1]
  · rw [List.getElem?_set_ne hi, hw]

theorem recorded_set {calls : List LogCall} {i : ℕ} {c : LogCall} (hc : calls[i]? = some c) (c' : LogCall) (j : ℕ) :
    recorded (calls.set i c') j = if j = i then c'.isRecorded else recorded calls j := by
  rcases eq_or_ne j i with rfl | hne
  · rw [recorded, List.getElem?_set_self (List.getElem?_eq_some_iff.1 hc).1, if_pos rfl, Option.any_some]
  · rw [recorded, List.getElem?_set_ne hne.symm, if_neg hne, recorded]

theorem isRecorded_checked (w : LogDataWrapper) (ifLog : Bool) : (checked w ifLog).isRecorded = false := by
  cases ifLog <;> rfl

/-- A call goes on without a change of where the logs are. -/
theorem Accounting.set (h : Accounting s) {s' : TopicLoggerBackend} {i : ℕ} {c c' : LogCall}
    (hc : s.calls[i]? = some c) (hsame : c'.isRecorded = c.isRecorded)
    (hkeeps : ∀ w, c = .returned w .recorded → c' = c) (hcalls : s'.calls = s.calls.set i c')
    (htaken : s'.taken = s.taken) (hcurrent : s'.currentLogData = s.currentLogData)
    (hdropped : s'.dropped = s.dropped) : Accounting s' where
  once j := by
    have hrecorded : recorded s'.calls j = recorded s.calls j := by
      rw [hcalls, recorded_set hc]
      split_ifs with hj
      · rw [hsame, hj, recorded, hc, Option.any_some]
      · rfl
    rw [hrecorded, ← h.once j]
    simp only [accounted, waiting, htaken, hcurrent, hdropped]
  taken t ht e he := by
    rw [hcalls]
    exact (h.taken t (htaken ▸ ht) e he).set hc hkeeps
  current e he := by
    rw [hcalls]
    exact (h.current e (hcurrent ▸ he)).set hc hkeeps

/-- A call has recorded its log when there is one more that waits. -/
theorem Accounting.of_record (h : Accounting s) {s' : TopicLoggerBackend} {i : ℕ} {w : LogDataWrapper}
    (hc : s.calls[i]? = some (.record w)) (hcalls : s'.calls = s.calls.set i (.returned w .recorded))
    (htaken : s'.taken = s.taken) (hwaiting : (waiting s').Perm (i :: waiting s))
    (hcurrent : ∀ e ∈ s'.currentLogData.getD [], e ∈ s.currentLogData.getD [] ∨ e = (i, singleLogData s.maxMsgSize w)) :
    Accounting s' where
  once j := by
    have hbefore := h.once j
    rw [List.count_append] at hbefore ⊢
    rw [accounted, htaken, ← accounted, hwaiting.count_eq, hcalls, recorded_set hc, List.count_cons]
    rcases eq_or_ne j i with rfl | hne
    · have hnot : recorded s.calls j = false := by
        rw [recorded, hc]
        rfl
      rw [hnot] at hbefore
      simp only [LogCall.isRecorded, beq_self_eq_true, if_true, Bool.toNat_true, Bool.toNat_false] at hbefore ⊢
      omega
    · simpa [hne, hne.symm] using hbefore
  taken t ht e he := by
    rw [hcalls]
    exact (h.taken t (htaken ▸ ht) e he).set hc nofun
  current e he := by
    rw [hcalls]
    rcases hcurrent e he with he | rfl
    · exact (h.current e he).set hc nofun
    · exact ⟨w, s.maxMsgSize, List.getElem?_set_self (List.getElem?_eq_some_iff.1 hc).1, rfl⟩

theorem waiting_add (s : TopicLoggerBackend) (i : ℕ) (w : LogDataWrapper) :
    (waiting (s.add i w)).Perm (i :: waiting s) := by
  simp only [waiting, add, Option.getD_some, List.map_append, List.map_cons, List.map_nil, List.append_assoc]
  exact List.perm_middle

theorem mem_add {i : ℕ} {w : LogDataWrapper} : ∀ e ∈ (s.add i w).currentLogData.getD [],
    e ∈ s.currentLogData.getD [] ∨ e = (i, singleLogData s.maxMsgSize w) := fun _ he =>
  (List.mem_append.1 he).imp_right List.mem_singleton.1

theorem Accounting.record (h : Accounting s) {i : ℕ} {w : LogDataWrapper} (hc : s.calls[i]? = some (.record w))
    (now : ℤ) : Accounting { s.record i w now with calls := s.calls.set i (.returned w .recorded) } := by
  unfold TopicLoggerBackend.record
  split_ifs
  · refine h.of_record hc rfl rfl ?_ fun e he => .inl he
    simp only [waiting, drop, Option.getD_some, ← List.append_assoc]
    exact List.perm_append_singleton i _
  · exact h.of_record hc rfl rfl (waiting_add s i w) mem_add
  · exact h.of_record hc rfl rfl (waiting_add s i w) mem_add

theorem Accounting.callStep (h : Accounting s) {i : ℕ} {c : LogCall} (hc : s.calls[i]? = some c) (now : ℤ) :
    Accounting { (TopicLoggerBackend.callStep regexMatch s i now c).2 with
      calls := s.calls.set i (TopicLoggerBackend.callStep regexMatch s i now c).1 } := by
  cases c with
  | record w => exact h.record hc now
  | checkRun w =>
    refine h.set hc ?_ (fun _ hr => by cases hr) rfl rfl rfl rfl
    simp only [TopicLoggerBackend.callStep]
    split_ifs <;> rfl
  | lookup w =>
    simp only [TopicLoggerBackend.callStep]
    split
    · exact h.set hc (isRecorded_checked w _) (fun _ hr => by cases hr) rfl rfl rfl rfl
    · exact h.set hc (show (LogCall.regex w).isRecorded = false from rfl) (fun _ hr => by cases hr) rfl rfl rfl rfl
  | regex w =>
    simp only [TopicLoggerBackend.callStep]
    split_ifs
    · exact h.set hc (isRecorded_checked w _) (fun _ hr => by cases hr) rfl rfl rfl rfl
    · exact h.set hc (isRecorded_checked w _) (fun _ hr => by cases hr) rfl rfl rfl rfl
  | returned w result => exact h.set hc rfl (fun _ _ => rfl) rfl rfl rfl rfl

/-- A new call has no log yet. -/
theorem Accounting.log (h : Accounting s) (w : LogDataWrapper) :
    Accounting { s with calls := s.calls ++ [LogCall.checkRun w] } := by
  have happend : ∀ e, IsLog s.calls e → IsLog (s.calls ++ [LogCall.checkRun w]) e := fun e ⟨w', m, hw, hdata⟩ =>
    ⟨w', m, by rw [List.getElem?_append_left (List.getElem?_eq_some_iff.1 hw).1, hw], hdata⟩
  refine ⟨fun j => (h.once j).trans (congrArg Bool.toNat ?_), fun t ht e he => happend e (h.taken t ht e he),
    fun e he => happend e (h.current e he)⟩
  show recorded s.calls j = recorded (s.calls ++ [LogCall.checkRun w]) j
  rcases lt_trichotomy j s.calls.length with hlt | rfl | hlt
  · rw [recorded, recorded, List.getElem?_append_left hlt]
  · simp [recorded, LogCall.isRecorded]
  · simp [recorded, hlt.le, Nat.not_le.2 hlt]

/-- The task takes what waits; other steps of a closure take nothing. -/
theorem Accounting.closureStep (h : Accounting s) (i : ℕ) (now : ℤ) (timeStamp : UInt64) (c : TimerClosure) :
    Accounting (put (s.closureStep now timeStamp c) i) := by
  cases c with
  | task =>
    simp only [TopicLoggerBackend.closureStep, timerTask]
    split <;> rename_i hcurrent
    · exact ⟨h.once, h.taken, h.current⟩
    · refine ⟨fun j => ?_, fun t ht e he => ?_, by simp [put]⟩
      · refine Eq.trans ?_ (h.once j)
        simp [accounted, waiting, put, hcurrent]
      · rcases List.mem_append.1 ht with ht | ht
        · exact h.taken t ht e he
        · rw [List.mem_singleton.1 ht] at he
          exact h.current e (by simpa [hcurrent] using he)
  | _ => exact ⟨h.once, h.taken, h.current⟩

theorem Accounting.step (h : Accounting s) (op : Op) : Accounting (TopicLoggerBackend.step regexMatch s op) :=
  step_keeps regexMatch h h.log (fun _ now _ hc => h.callStep hc now)
    (fun i now timeStamp c _ => h.closureStep i now timeStamp c) ⟨h.once, h.taken, h.current⟩
    ⟨h.once, h.taken, h.current⟩ op

/-! ### What the closures do next -/

/-- The closures get to where the task takes what waits. -/
def TaskRuns (regexMatch : Bytes → Bytes → Option Bool) (s : TopicLoggerBackend) : Prop :=
  ∃ ops : List Op, ops.all Op.ofTimer = true ∧
    (ops.foldl (step regexMatch) s).taken.length = s.taken.length + 1

/-- By one more step of the closure in place `i`. -/
theorem taskRuns_of_closureStep {i : ℕ} {c : TimerClosure} (hc : s.closures[i]? = some c)
    (htaken : (s.closureStep 0 0 c).2.taken = s.taken) (h : TaskRuns regexMatch (put (s.closureStep 0 0 c) i)) :
    TaskRuns regexMatch s := by
  obtain ⟨ops, htimer, hlength⟩ := h
  refine ⟨.closure i 0 0 :: ops, by simpa [Op.ofTimer] using htimer, ?_⟩
  simp only [List.foldl_cons, step, hc, hlength]
  exact congrArg (·.length + 1) htaken

section Waiting

variable {i : ℕ} (hwaits : s.currentLogData.isSome) (hlive : s.timer.cancelled = false)
include hwaits

theorem taskRuns_of_task (hc : s.closures[i]? = some .task) : TaskRuns regexMatch s := by
  obtain ⟨logs, hlogs⟩ := Option.isSome_iff_exists.1 hwaits
  exact ⟨[.closure i 0 0], rfl, by simp [step, hc, closureStep, timerTask, hlogs, put]⟩

theorem taskRuns_of_planCheck (hc : s.closures[i]? = some (.planCheck s.timer.nextCallTime)) :
    TaskRuns regexMatch s := by
  refine taskRuns_of_closureStep hc rfl (taskRuns_of_task (i := i) hwaits ?_)
  simp [put, closureStep, (List.getElem?_eq_some_iff.1 hc).1]

include hlive

theorem taskRuns_of_pending (hc : s.closures[i]? = some (.pending s.timer.nextCallTime)) : TaskRuns regexMatch s := by
  refine taskRuns_of_closureStep hc rfl (taskRuns_of_planCheck (i := i) hwaits ?_)
  simp [put, closureStep, hlive, (List.getElem?_eq_some_iff.1 hc).1]

theorem taskRuns_of_loop (hc : s.closures[i]? = some .loop) : TaskRuns regexMatch s := by
  have hi := (List.getElem?_eq_some_iff.1 hc).1
  refine taskRuns_of_closureStep hc rfl (taskRuns_of_pending (i := s.closures.length) hwaits hlive ?_)
  show ((s.closures ++ [_]).set i _)[_]? = _
  rw [List.set_append_left _ _ hi]
  simp [put, closureStep, executeLoop]

theorem taskRuns_of_advance (hc : s.closures[i]? = some .advance) : TaskRuns regexMatch s := by
  refine taskRuns_of_closureStep hc rfl (taskRuns_of_loop (i := i) hwaits ?_ ?_)
  · simpa [put, closureStep] using hlive
  · simp [put, closureStep, (List.getElem?_eq_some_iff.1 hc).1]

theorem taskRuns_of_publish {logData : LogData} (hc : s.closures[i]? = some (.publish logData)) :
    TaskRuns regexMatch s := by
  refine taskRuns_of_closureStep hc rfl (taskRuns_of_advance (i := i) hwaits hlive ?_)
  simp [put, closureStep, (List.getElem?_eq_some_iff.1 hc).1]

theorem taskRuns_of_live {c : TimerClosure} (hc : c ∈ s.closures) (h : Live s.timer c) : TaskRuns regexMatch s := by
  obtain ⟨i, hi⟩ := List.mem_iff_getElem?.1 hc
  cases c with
  | pending plannedTime =>
    obtain rfl : plannedTime = s.timer.nextCallTime := h
    exact taskRuns_of_pending hwaits hlive hi
  | planCheck plannedTime =>
    obtain rfl : plannedTime = s.timer.nextCallTime := h
    exact taskRuns_of_planCheck hwaits hi
  | task => exact taskRuns_of_task hwaits hi
  | publish logData => exact taskRuns_of_publish hwaits hlive hi
  | advance => exact taskRuns_of_advance hwaits hlive hi
  | loop => exact taskRuns_of_loop hwaits hlive hi
  | ended => exact absurd h id

end Waiting

theorem Running.waiting_ne_nil (h : Running s) (hwaiting : waiting s ≠ []) :
    s.currentLogData.isSome ∧ s.timer.cancelled = false := by
  cases hcurrent : s.currentLogData with
  | none =>
    refine absurd ?_ hwaiting
    rw [waiting, hcurrent, h.none_dropped hcurrent]
    rfl
  | some logs => exact ⟨rfl, (h.current logs hcurrent).2⟩

/-! ### Runs -/

/-- The invariant, with options that let a frame have a log. -/
structure Inv (regexMatch : Bytes → Bytes → Option Bool) (s : TopicLoggerBackend) : Prop where
  max_pos : 1 ≤ s.options.maxMsgCount
  running : Running s
  filtering : Filtering regexMatch s
  numbered : Numbered s
  accounting : Accounting s

theorem options_step (s : TopicLoggerBackend) (op : Op) : (step regexMatch s op).options = s.options := by
  cases op with
  | log | setMaxMsgSize | shutdown => rfl
  | call i now =>
    simp only [step]
    split
    · rfl
    · simp
  | closure i now timeStamp =>
    simp only [step]
    split
    · rfl
    · rename_i c _
      cases c with
      | task =>
        simp only [closureStep, timerTask]
        split <;> rfl
      | _ => rfl

theorem Inv.step (h : Inv regexMatch s) (op : Op) : Inv regexMatch (step regexMatch s op) where
  max_pos := by
    rw [options_step]
    exact h.max_pos
  running := h.running.step h.max_pos op
  filtering := h.filtering.step op
  numbered := h.numbered.step op
  accounting := h.accounting.step op

theorem Inv.counted (h : Inv regexMatch s) : Counted regexMatch s where
  passed w result hmem hresult := by
    have hasked := h.filtering.asked _ hmem
    cases result with
    | stopped => exact absurd rfl hresult
    | filtered =>
      have hnot : passes regexMatch s.options w.moduleName = false := hasked
      simp [hnot]
    | recorded => exact iff_of_true rfl hasked
  once := h.accounting.once
  logs := h.accounting.taken
  consecutive := h.numbered.consecutive
  droppedCount := h.numbered.droppedCount
  published := h.numbered.published
  running hwaiting := by
    obtain ⟨hwaits, hlive⟩ := h.running.waiting_ne_nil hwaiting
    obtain ⟨c, hc, hgoes⟩ := h.running.live hlive
    exact ⟨by rw [h.running.flag, hlive]; rfl, hlive, ⟨c, hc, hgoes⟩, taskRuns_of_live hwaits hlive hc hgoes⟩

/-- **Every log is published or counted**, in every state of every run of calls of `Log` and closures of the timer. -/
theorem every_log_is_counted (regexMatch : Bytes → Bytes → Option Bool) (options : Options)
    (hmax : 1 ≤ options.maxMsgCount) (ops : List Op) :
    AllHold (step regexMatch) (Counted regexMatch) (create options) ops :=
  allHold_of_inv (Inv regexMatch) Inv.counted Inv.step
    ⟨hmax, running_create options, ⟨by simp [create], by simp [create]⟩, numbered_create options,
      accounting_create options⟩ ops

/-- Frames of one log. -/
def options1 : Options := ⟨ascii "(.*)", 500, 2 ^ 64 - 1, 1⟩

def log0 : LogDataWrapper := ⟨ascii "m", 1, 2, 3, 4, ascii "f", ascii "g", ascii "text"⟩

/-- Of two logs one is counted, the timer publishes, and stops at its next turn. -/
def twoLogs : List Op :=
  [.log log0, .log log0, .call 0 0, .call 0 0, .call 0 0, .call 0 0, .call 1 0, .call 1 0, .call 1 0, .call 1 0] ++
    List.replicate 6 (.closure 0 500000000 7) ++ List.replicate 6 (.closure 1 1000000000 8)

theorem every_log_is_counted_two :
    AllHold (step fun _ _ => some true) (Counted fun _ _ => some true) (create options1) twoLogs :=
  every_log_is_counted _ options1 (by decide) twoLogs

example : ((twoLogs.foldl (step fun _ _ => some true) (create options1)).published.map
    fun d => (d.sequenceNum, d.droppedCount, d.logs.map Prod.fst)) = [(0, 1, [0])] := by decide

end TopicLoggerBackend

end AimRT.TopicLogger
