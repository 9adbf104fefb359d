import AimRT.Executor.Timer
import AimRT.Util.Context
import AimRT.Util.Utf8Truncation

/-!
# The topic logger backend

`TopicLoggerBackend` with any number of calls of `Log` and the closures of its timer.  A call asks `run_flag_` and the
filter, and adds its log to `current_log_data_`, or counts it where that is full; the task of the timer takes what is
there and publishes it.  A task that finds nothing stops the timer, and the next log that is added starts it again.

A call and a closure take one step for each access to what they share: a load, what is done under one mutex, what the
closure does to the fields of its timer.
-/

namespace AimRT.TopicLogger

open Lib Lib.Run Util Executor

/-! ### Log data -/

structure LogDataWrapper where
  moduleName : Bytes
  threadId : UInt64
  t : UInt64
  lvl : UInt32
  line : UInt32
  fileName : Bytes
  functionName : Bytes
  logData : Bytes
  deriving DecidableEq, Repr

structure SingleLogData where
  moduleName : Bytes
  threadId : UInt64
  timePoint : UInt64
  level : UInt32
  line : UInt32
  fileName : Bytes
  functionName : Bytes
  message : Bytes
  deriving DecidableEq, Repr

/-- A frame; `logs` has each entry with the number of the call of `Log` that it is from. -/
structure LogData where
  timeStamp : UInt64
  sequenceNum : UInt64
  droppedCount : UInt64
  logs : List (ℕ × SingleLogData)
  deriving DecidableEq, Repr

/-- `(utf8_str[pos] & 0xC0) == 0x80`. -/
def isContByte (utf8Str : Bytes) (pos : ℕ) : Bool := utf8Str.getD pos 0 &&& 0xC0 == 0x80

/-- The loop of `SafeUtf8TruncationLength`. -/
def truncatePos (utf8Str : Bytes) : ℕ → ℕ
  | 0 => 0
  | pos + 1 => if isContByte utf8Str (pos + 1) then truncatePos utf8Str pos else pos + 1

def safeUtf8TruncationLength (utf8Str : Bytes) (desiredLength : ℕ) : ℕ :=
  if utf8Str.length ≤ desiredLength then utf8Str.length else truncatePos utf8Str desiredLength

structure Options where
  moduleFilter : Bytes
  intervalMs : UInt32
  maxMsgSize : ℕ
  maxMsgCount : ℕ
  deriving DecidableEq, Repr

/-- The `SingleLogData` of a log. -/
def singleLogData (maxMsgSize : ℕ) (w : LogDataWrapper) : SingleLogData where
  moduleName := w.moduleName
  threadId := w.threadId
  timePoint := w.t
  level := w.lvl
  line := w.line
  fileName := w.fileName
  functionName := w.functionName
  message := w.logData.take (safeUtf8TruncationLength w.logData maxMsgSize)

theorem truncateBack_eq_some {utf8Str : Bytes} {pos : ℕ} (h : pos < utf8Str.length) :
    truncateBack utf8Str pos = some (truncatePos utf8Str pos) := by
  induction pos with
  | zero => rfl
  | succ pos ih =>
    have hbyte : Util.isContByte utf8Str (pos + 1) = some (isContByte utf8Str (pos + 1)) := by
      rw [isContByte, List.getD_eq_getElem?_getD, List.getElem?_eq_getElem h]
      exact isContByte_eq (List.getElem?_eq_getElem h)
    rw [truncateBack, truncatePos, hbyte]
    cases isContByte utf8Str (pos + 1) with
    | false => rfl
    | true => exact ih (by omega)

/-- The truncation reads inside the log. -/
theorem safeUtf8TruncationLength_eq_some (utf8Str : Bytes) (desiredLength : ℕ) :
    Util.safeUtf8TruncationLength utf8Str utf8Str.length desiredLength =
      some (safeUtf8TruncationLength utf8Str desiredLength) := by
  unfold safeUtf8TruncationLength
  split_ifs with hle
  · exact if_pos hle
  · rw [Util.safeUtf8TruncationLength_eq (by omega), truncateBack_eq_some (by omega)]

/-- The message of a log that is a valid text is one, too. -/
theorem singleLogData_message_valid {w : LogDataWrapper} (h : Utf8.Valid w.logData) (maxMsgSize : ℕ) :
    Utf8.Valid (singleLogData maxMsgSize w).message := by
  obtain ⟨cs, hcs⟩ := h
  obtain ⟨r, hresult, hbound, -⟩ := safeUtf8TruncationLength_boundary cs maxMsgSize
  rw [safeUtf8TruncationLength_eq_some, Option.some.injEq] at hresult
  show Utf8.Valid (w.logData.take (safeUtf8TruncationLength w.logData maxMsgSize))
  rw [hcs, hresult]
  exact hbound.take

/-! ### The backend -/

/-- How a call of `Log` ends: `run_flag_` was not set, the filter did not let it pass, or it was added or counted. -/
inductive Result where
  | stopped
  | filtered
  | recorded
  deriving DecidableEq, Repr

/-- A call of `Log`, by its next step: the load of `run_flag_`, the lookup in `module_filter_map_`, the match and the
`emplace`, and what is done under `mutex_`. -/
inductive LogCall where
  | checkRun (w : LogDataWrapper)
  | lookup (w : LogDataWrapper)
  | regex (w : LogDataWrapper)
  | record (w : LogDataWrapper)
  | returned (w : LogDataWrapper) (result : Result)
  deriving DecidableEq, Repr

def LogCall.isRecorded : LogCall → Bool
  | .returned _ .recorded => true
  | _ => false

/-- A closure of the timer, by its next step: it waits and asks `IsCancelled`, compares `planned_time`, does what the
task does under `mutex_`, publishes, moves `next_call_time_` on and schedules the next one. -/
inductive TimerClosure where
  | pending (plannedTime : ℤ)
  | planCheck (plannedTime : ℤ)
  | task
  | publish (logData : LogData)
  | advance
  | loop
  | ended
  deriving DecidableEq, Repr

/-- A frame that was taken, and the calls whose logs its `dropped_count` stands for. -/
structure Taken where
  logData : LogData
  dropped : List ℕ
  deriving DecidableEq, Repr

/-- The backend, the calls of `Log` and the closures of its timer.  `currentLogData` has the logs of
`current_log_data_`, `dropped` the calls that were counted since it was taken. -/
structure TopicLoggerBackend where
  options : Options
  runFlag : Bool
  publishFlag : Bool
  moduleFilterMap : List (Bytes × Bool)
  currentLogData : Option (List (ℕ × SingleLogData))
  maxMsgSize : ℕ
  sequenceNum : UInt64
  droppedMsgCount : UInt64
  timer : Timer
  calls : List LogCall
  closures : List TimerClosure
  dropped : List ℕ
  taken : List Taken
  published : List LogData
  deriving DecidableEq, Repr

namespace TopicLoggerBackend

/-- What `Initialize` leaves. -/
def create (options : Options) : TopicLoggerBackend where
  options := options
  runFlag := true
  publishFlag := false
  moduleFilterMap := []
  currentLogData := none
  maxMsgSize := 2 ^ 64 - 1
  sequenceNum := 0
  droppedMsgCount := 0
  timer := .create (options.intervalMs.toNat * 1000000)
  calls := []
  closures := []
  dropped := []
  taken := []
  published := []

/-- `Timer::ExecuteLoop`. -/
def executeLoop (s : TopicLoggerBackend) : TopicLoggerBackend :=
  { s with closures := s.closures ++ [.pending s.timer.nextCallTime] }

/-- The log of the call `id` is added to `current_log_data_`. -/
def add (s : TopicLoggerBackend) (id : ℕ) (w : LogDataWrapper) : TopicLoggerBackend :=
  { s with currentLogData := some (s.currentLogData.getD [] ++ [(id, singleLogData s.maxMsgSize w)]) }

/-- It is counted. -/
def drop (s : TopicLoggerBackend) (id : ℕ) : TopicLoggerBackend :=
  { s with
    currentLogData := some (s.currentLogData.getD [])
    droppedMsgCount := s.droppedMsgCount + 1
    dropped := s.dropped ++ [id] }

/-- The timer is started at `now`. -/
def restart (s : TopicLoggerBackend) (now : ℤ) : TopicLoggerBackend :=
  executeLoop { s with publishFlag := true, timer := s.timer.reset now }

/-- What the call `id` of `Log` does under `mutex_`, at `now`. -/
def record (s : TopicLoggerBackend) (id : ℕ) (w : LogDataWrapper) (now : ℤ) : TopicLoggerBackend :=
  if s.options.maxMsgCount ≤ (s.currentLogData.getD []).length then s.drop id
  else if s.publishFlag then s.add id w
  else (s.add id w).restart now

/-- The closure in place `i` is at `r.1` then. -/
def put (r : TimerClosure × TopicLoggerBackend) (i : ℕ) : TopicLoggerBackend :=
  { r.2 with closures := r.2.closures.set i r.1 }

section Steps

variable (regexMatch : Bytes → Bytes → Option Bool)

/-- The filter lets the module's logs pass; `regexMatch` of an expression that is not valid is nothing. -/
def passes (options : Options) (moduleName : Bytes) : Bool :=
  (regexMatch options.moduleFilter moduleName).getD false

/-- `CheckLog` is through. -/
def checked (w : LogDataWrapper) (ifLog : Bool) : LogCall := if ifLog then .record w else .returned w .filtered

/-- The next step of the call `id`: where it is then, and what it has changed. -/
def callStep (s : TopicLoggerBackend) (id : ℕ) (now : ℤ) : LogCall → LogCall × TopicLoggerBackend
  | .checkRun w => (if s.runFlag then .lookup w else .returned w .stopped, s)
  | .lookup w =>
    match s.moduleFilterMap.lookup w.moduleName with
    | some ifLog => (checked w ifLog, s)
    | none => (.regex w, s)
  | .regex w =>
    let ifLog := passes regexMatch s.options w.moduleName
    (checked w ifLog,
      -- `emplace` leaves an entry that is there
      if (s.moduleFilterMap.lookup w.moduleName).isSome then s
      else { s with moduleFilterMap := s.moduleFilterMap ++ [(w.moduleName, ifLog)] })
  | .record w => (.returned w .recorded, s.record id w now)
  | .returned w result => (.returned w result, s)

/-- The task without the part that publishes. -/
def timerTask (s : TopicLoggerBackend) (timeStamp : UInt64) : TimerClosure × TopicLoggerBackend :=
  match s.currentLogData with
  | none => (.advance, { s with publishFlag := false, timer := s.timer.cancel })
  | some logs =>
    let logData : LogData := ⟨timeStamp, s.sequenceNum, s.droppedMsgCount, logs⟩
    (.publish logData, { s with
      currentLogData := none
      sequenceNum := s.sequenceNum + 1
      droppedMsgCount := 0
      dropped := []
      taken := s.taken ++ [⟨logData, s.dropped⟩] })

/-- The next step of a closure. -/
def closureStep (s : TopicLoggerBackend) (now : ℤ) (timeStamp : UInt64) :
    TimerClosure → TimerClosure × TopicLoggerBackend
  | .pending plannedTime => (if s.timer.cancelled then .ended else .planCheck plannedTime, s)
  | .planCheck plannedTime => (if plannedTime = s.timer.nextCallTime then .task else .ended, s)
  | .task => s.timerTask timeStamp
  | .publish logData => (.advance, { s with published := s.published ++ [logData] })
  | .advance => (.loop, { s with timer := s.timer.advance now })
  | .loop => (.ended, s.executeLoop)
  | .ended => (.ended, s)

/-- A thread calls `Log`; a call takes its next step; a closure takes its next step, at a time of its executor;
`SetMaxMsgSize` and `Shutdown`. -/
inductive Op where
  | log (w : LogDataWrapper)
  | call (i : ℕ) (now : ℤ)
  | closure (i : ℕ) (now : ℤ) (timeStamp : UInt64)
  | setMaxMsgSize
  | shutdown
  deriving DecidableEq, Repr

def step (s : TopicLoggerBackend) : Op → TopicLoggerBackend
  | .log w => { s with calls := s.calls ++ [.checkRun w] }
  | .call i now =>
    match s.calls[i]? with
    | none => s
    | some c => { (callStep regexMatch s i now c).2 with calls := s.calls.set i (callStep regexMatch s i now c).1 }
  | .closure i now timeStamp =>
    match s.closures[i]? with
    | none => s
    | some c => put (s.closureStep now timeStamp c) i
  | .setMaxMsgSize => { s with maxMsgSize := s.options.maxMsgSize }
  | .shutdown => { s with runFlag := false }

/-- What a step keeps that is kept by a step of a call, by one of a closure and by what happens to the backend. -/
theorem step_keeps {P : TopicLoggerBackend → Prop} {s : TopicLoggerBackend} (h : P s)
    (hlog : ∀ w, P { s with calls := s.calls ++ [.checkRun w] })
    (hcall : ∀ i now c, s.calls[i]? = some c →
      P { (callStep regexMatch s i now c).2 with calls := s.calls.set i (callStep regexMatch s i now c).1 })
    (hclosure : ∀ i now timeStamp c, s.closures[i]? = some c → P (put (s.closureStep now timeStamp c) i))
    (hmaxMsgSize : P { s with maxMsgSize := s.options.maxMsgSize }) (hshutdown : P { s with runFlag := false })
    (op : Op) : P (step regexMatch s op) := by
  cases op with
  | log w => exact hlog w
  | call i now =>
    cases hc : s.calls[i]? with
    | none => simpa only [step, hc] using h
    | some c => simpa only [step, hc] using hcall i now c hc
  | closure i now timeStamp =>
    cases hc : s.closures[i]? with
    | none => simpa only [step, hc] using h
    | some c => simpa only [step, hc] using hclosure i now timeStamp c hc
  | setMaxMsgSize => exact hmaxMsgSize
  | shutdown => exact hshutdown

end Steps

/-! ### What is promised -/

/-- The closure will execute the task, or goes on to schedule one that will. -/
def Live (timer : Timer) : TimerClosure → Prop
  | .pending plannedTime | .planCheck plannedTime => plannedTime = timer.nextCallTime
  | .task | .publish _ | .advance | .loop => True
  | .ended => False

/-- The frame that a closure is about to publish. -/
def publishing : TimerClosure → Option LogData
  | .publish logData => some logData
  | _ => none

/-- The call `i` has added its log or counted it. -/
def recorded (calls : List LogCall) (i : ℕ) : Bool := calls[i]?.any LogCall.isRecorded

/-- The calls whose logs are in a frame or counted in one, each as often as they are. -/
def accounted (s : TopicLoggerBackend) : List ℕ :=
  s.taken.flatMap (fun t => t.logData.logs.map Prod.fst ++ t.dropped)

/-- Those that are in `current_log_data_` or were counted since then. -/
def waiting (s : TopicLoggerBackend) : List ℕ := (s.currentLogData.getD []).map Prod.fst ++ s.dropped

/-- A step of a closure. -/
def Op.ofTimer : Op → Bool
  | .closure _ _ _ => true
  | _ => false

section Promise

variable (regexMatch : Bytes → Bytes → Option Bool)

/-- **Every log is published or counted.**  A call that has recorded its log is in one place, and it has recorded it if
the filter lets it pass.  The frames bear the numbers from 0 on and the number of the logs they leave out, and each is
published once.  For as long as a log waits, the timer runs. -/
structure Counted (s : TopicLoggerBackend) : Prop where
  passed : ∀ w result, .returned w result ∈ s.calls → result ≠ .stopped →
    (result = .recorded ↔ passes regexMatch s.options w.moduleName = true)
  once : ∀ i, (accounted s ++ waiting s).count i = (recorded s.calls i).toNat
  logs : ∀ t ∈ s.taken, ∀ e ∈ t.logData.logs, ∃ w maxMsgSize,
    s.calls[e.1]? = some (.returned w .recorded) ∧ e.2 = singleLogData maxMsgSize w
  consecutive : s.taken.map (·.logData.sequenceNum) = (List.range s.taken.length).map UInt64.ofNat
  droppedCount : ∀ t ∈ s.taken, t.logData.droppedCount = UInt64.ofNat t.dropped.length
  published : (s.taken.map (·.logData)).Perm (s.published ++ s.closures.filterMap publishing)
  running : waiting s ≠ [] → s.publishFlag = true ∧ s.timer.cancelled = false ∧ (∃ c ∈ s.closures, Live s.timer c) ∧
    ∃ ops : List Op, ops.all Op.ofTimer = true ∧
      (ops.foldl (step regexMatch) s).taken.length = s.taken.length + 1

end Promise

/-! ### The timer runs -/

/-- The timer is cancelled if and only if `publish_flag_` is not set, and has a closure that goes on if not; there is
no frame without a log, and nothing is counted without one. -/
structure Running (s : TopicLoggerBackend) : Prop where
  flag : s.publishFlag = !s.timer.cancelled
  live : s.timer.cancelled = false → ∃ c ∈ s.closures, Live s.timer c
  current : ∀ logs ∈ s.currentLogData, logs ≠ [] ∧ s.timer.cancelled = false
  none_dropped : s.currentLogData = none → s.dropped = []

variable {s : TopicLoggerBackend}

theorem running_create (options : Options) : Running (create options) where
  flag := rfl
  live := by simp [create, Timer.create]
  current := by simp [create]
  none_dropped _ := rfl

/-- A change that leaves the timer, the closures and the logs as they are. -/
theorem Running.congr {s' : TopicLoggerBackend} (h : Running s) (hflag : s'.publishFlag = s.publishFlag)
    (htimer : s'.timer = s.timer) (hclosures : s'.closures = s.closures)
    (hcurrent : s'.currentLogData = s.currentLogData) (hdropped : s'.dropped = s.dropped) : Running s' where
  flag := by rw [hflag, htimer, h.flag]
  live := by
    rw [htimer, hclosures]
    exact h.live
  current := by
    rw [hcurrent, htimer]
    exact h.current
  none_dropped := by
    rw [hcurrent, hdropped]
    exact h.none_dropped

theorem Running.drop (h : Running s) (hfull : s.currentLogData.getD [] ≠ []) (id : ℕ) : Running (s.drop id) where
  flag := h.flag
  live := h.live
  current logs hlogs := by
    -- a full frame has a log, so the timer runs
    cases hcurrent : s.currentLogData with
    | none => simp [hcurrent] at hfull
    | some logs' =>
      obtain rfl : logs' = logs := by simpa [TopicLoggerBackend.drop, hcurrent] using hlogs
      exact h.current logs' hcurrent
  none_dropped hnone := by simp [TopicLoggerBackend.drop] at hnone

theorem Running.add (h : Running s) (hflag : s.publishFlag = true) (id : ℕ) (w : LogDataWrapper) :
    Running (s.add id w) where
  flag := h.flag
  live := h.live
  current logs hlogs := by
    obtain rfl := Option.some.inj hlogs
    refine ⟨by simp, ?_⟩
    show s.timer.cancelled = false
    simpa [h.flag] using hflag
  none_dropped hnone := by simp [TopicLoggerBackend.add] at hnone

theorem running_restart (s : TopicLoggerBackend) (id : ℕ) (w : LogDataWrapper) (now : ℤ) :
    Running ((s.add id w).restart now) where
  flag := rfl
  live _ := ⟨_, List.mem_append_right _ (List.mem_singleton_self _), rfl⟩
  current logs hlogs := by
    obtain rfl := Option.some.inj hlogs
    exact ⟨by simp, rfl⟩
  none_dropped hnone := by simp [restart, executeLoop, TopicLoggerBackend.add] at hnone

theorem Running.record (h : Running s) (hmax : 1 ≤ s.options.maxMsgCount) (id : ℕ) (w : LogDataWrapper) (now : ℤ) :
    Running (s.record id w now) := by
  unfold TopicLoggerBackend.record
  split_ifs with hfull hflag
  · exact h.drop (List.ne_nil_of_length_pos (hmax.trans hfull)) id
  · exact h.add hflag id w
  · exact running_restart s id w now

/-- One of the closures is in another place now. -/
theorem exists_live_set {timer timer' : Timer} {closures : List TimerClosure} {i : ℕ} {c c' : TimerClosure}
    (h : ∃ c ∈ closures, Live timer c) (hc : closures[i]? = some c) (hlive : Live timer c → Live timer' c')
    (hsame : timer' = timer ∨ Live timer' c') : ∃ c ∈ closures.set i c', Live timer' c := by
  obtain ⟨hi, rfl⟩ := List.getElem?_eq_some_iff.1 hc
  have hmem : c' ∈ closures.set i c' := List.mem_iff_getElem.2 ⟨i, by simpa, by simp⟩
  rcases hsame with rfl | hlive'
  · obtain ⟨d, hd, hlived⟩ := h
    obtain ⟨j, hj, rfl⟩ := List.mem_iff_getElem.1 hd
    rcases eq_or_ne i j with rfl | hne
    · exact ⟨c', hmem, hlive hlived⟩
    · exact ⟨closures[j], List.mem_iff_getElem.2 ⟨j, by simpa, by simp [hne]⟩, hlived⟩
  · exact ⟨c', hmem, hlive'⟩

theorem Running.timerTask (h : Running s) {i : ℕ} (hc : s.closures[i]? = some .task) (timeStamp : UInt64) :
    Running (put (s.timerTask timeStamp) i) := by
  unfold TopicLoggerBackend.timerTask
  split <;> rename_i hcurrent
  · exact ⟨rfl, fun hlive => by simp [put, Timer.cancel] at hlive, fun logs hlogs => by simp [put, hcurrent] at hlogs,
      fun _ => h.none_dropped hcurrent⟩
  · exact ⟨h.flag, fun hlive => exists_live_set (h.live hlive) hc id (.inl rfl),
      fun logs hlogs => by simp [put] at hlogs, fun _ => rfl⟩

theorem Running.closureStep (h : Running s) {i : ℕ} {c : TimerClosure} (hc : s.closures[i]? = some c) (now : ℤ)
    (timeStamp : UInt64) : Running (put (s.closureStep now timeStamp c) i) := by
  cases c with
  | pending plannedTime =>
    refine ⟨h.flag, fun hlive => exists_live_set (h.live hlive) hc (fun hplanned => ?_) (.inl rfl), h.current,
      h.none_dropped⟩
    have hcancelled : s.timer.cancelled = false := hlive
    show Live s.timer (if s.timer.cancelled then .ended else .planCheck plannedTime)
    rw [hcancelled]
    exact hplanned
  | planCheck plannedTime =>
    refine ⟨h.flag, fun hlive => exists_live_set (h.live hlive) hc (fun hplanned => ?_) (.inl rfl), h.current,
      h.none_dropped⟩
    have hnext : plannedTime = s.timer.nextCallTime := hplanned
    simp [TopicLoggerBackend.closureStep, hnext, Live]
  | task => exact h.timerTask hc timeStamp
  | publish logData =>
    exact ⟨h.flag, fun hlive => exists_live_set (h.live hlive) hc id (.inl rfl), h.current, h.none_dropped⟩
  | advance =>
    refine ⟨?_, fun hlive => exists_live_set (h.live ?_) hc id (.inr trivial), fun logs hlogs => ?_, h.none_dropped⟩
    · simpa [put, TopicLoggerBackend.closureStep] using h.flag
    · simpa [put, TopicLoggerBackend.closureStep] using hlive
    · simpa [put, TopicLoggerBackend.closureStep] using h.current logs hlogs
  | loop =>
    refine ⟨h.flag, fun _ => ⟨.pending s.timer.nextCallTime, ?_, rfl⟩, h.current, h.none_dropped⟩
    show _ ∈ (s.closures ++ [_]).set i _
    rw [List.set_append_left _ _ (List.getElem?_eq_some_iff.1 hc).1]
    exact List.mem_append_right _ (List.mem_singleton_self _)
  | ended =>
    refine ⟨h.flag, fun hlive => exists_live_set (h.live hlive) hc id (.inl rfl), h.current, h.none_dropped⟩

/-! ### The filter -/

section Filter

variable {regexMatch : Bytes → Bytes → Option Bool}

/-- What a call has found out about its log. -/
def Asked (regexMatch : Bytes → Bytes → Option Bool) (options : Options) : LogCall → Prop
  | .record w | .returned w .recorded => passes regexMatch options w.moduleName = true
  | .returned w .filtered => passes regexMatch options w.moduleName = false
  | _ => True

/-- `module_filter_map_` has what the expression says, and so have the calls. -/
structure Filtering (regexMatch : Bytes → Bytes → Option Bool) (s : TopicLoggerBackend) : Prop where
  cached : ∀ e ∈ s.moduleFilterMap, e.2 = passes regexMatch s.options e.1
  asked : ∀ c ∈ s.calls, Asked regexMatch s.options c

theorem asked_checked {options : Options} {w : LogDataWrapper} {ifLog : Bool}
    (h : ifLog = passes regexMatch options w.moduleName) : Asked regexMatch options (checked w ifLog) := by
  cases ifLog
  · exact h.symm
  · exact h.symm

theorem mem_of_lookup {moduleFilterMap : List (Bytes × Bool)} {moduleName : Bytes} {ifLog : Bool}
    (h : moduleFilterMap.lookup moduleName = some ifLog) : (moduleName, ifLog) ∈ moduleFilterMap := by
  induction moduleFilterMap with
  | nil => simp at h
  | cons e moduleFilterMap ih =>
    rw [List.lookup_cons] at h
    split at h <;> rename_i heq
    · rw [beq_iff_eq.1 heq, ← Option.some.inj h]
      exact List.mem_cons_self
    · exact List.mem_cons_of_mem _ (ih h)

@[simp] theorem options_record (s : TopicLoggerBackend) (id : ℕ) (w : LogDataWrapper) (now : ℤ) :
    (s.record id w now).options = s.options := by
  unfold record
  split_ifs <;> rfl

@[simp] theorem moduleFilterMap_record (s : TopicLoggerBackend) (id : ℕ) (w : LogDataWrapper) (now : ℤ) :
    (s.record id w now).moduleFilterMap = s.moduleFilterMap := by
  unfold record
  split_ifs <;> rfl

@[simp] theorem options_callStep (s : TopicLoggerBackend) (id : ℕ) (now : ℤ) (c : LogCall) :
    (callStep regexMatch s id now c).2.options = s.options := by
  cases c with
  | record w => simp [callStep]
  | lookup w =>
    simp only [callStep]
    split <;> rfl
  | regex w =>
    simp only [callStep]
    split_ifs <;> rfl
  | checkRun w | returned w result => rfl

theorem Filtering.asked_callStep (h : Filtering regexMatch s) {i : ℕ} {c : LogCall} (hc : s.calls[i]? = some c)
    (now : ℤ) : Asked regexMatch s.options (callStep regexMatch s i now c).1 := by
  have hasked := h.asked c (List.mem_of_getElem? hc)
  cases c with
  | checkRun w =>
    simp only [callStep]
    split_ifs <;> trivial
  | lookup w =>
    simp only [callStep]
    split <;> rename_i hlookup
    · exact asked_checked (h.cached _ (mem_of_lookup hlookup))
    · trivial
  | regex w => exact asked_checked rfl
  | record w => exact hasked
  | returned w result => exact hasked

theorem Filtering.cached_callStep (h : Filtering regexMatch s) (i : ℕ) (now : ℤ) (c : LogCall) :
    ∀ e ∈ (callStep regexMatch s i now c).2.moduleFilterMap, e.2 = passes regexMatch s.options e.1 := by
  cases c with
  | record w => simpa [callStep] using h.cached
  | lookup w =>
    simp only [callStep]
    split <;> exact h.cached
  | regex w =>
    simp only [callStep]
    split_ifs
    · exact h.cached
    · intro e he
      rcases List.mem_append.1 he with he | he
      · exact h.cached e he
      · rw [List.mem_singleton.1 he]
  | checkRun w | returned w result => exact h.cached

theorem Filtering.step (h : Filtering regexMatch s) (op : Op) : Filtering regexMatch (step regexMatch s op) := by
  refine step_keeps regexMatch h (fun w => ⟨h.cached, fun c hc => ?_⟩) (fun i now c hc => ?_)
    (fun i now timeStamp c hc => ?_) ⟨h.cached, h.asked⟩ ⟨h.cached, h.asked⟩ op
  · rcases List.mem_append.1 hc with hc | hc
    · exact h.asked c hc
    · rw [List.mem_singleton.1 hc]
      trivial
  · refine ⟨by simpa using h.cached_callStep i now c, fun c' hc' => ?_⟩
    rw [options_callStep]
    rcases List.mem_or_eq_of_mem_set hc' with hc' | rfl
    · exact h.asked c' hc'
    · exact h.asked_callStep hc now
  · cases c with
    | task =>
      simp only [closureStep, timerTask]
      split <;> exact ⟨h.cached, h.asked⟩
    | _ => exact ⟨h.cached, h.asked⟩

end Filter

/-! ### Steps and runs -/

section Runs

variable {regexMatch : Bytes → Bytes → Option Bool}

theorem Running.callStep (h : Running s) (hmax : 1 ≤ s.options.maxMsgCount) (id : ℕ) (now : ℤ) (c : LogCall) :
    Running (TopicLoggerBackend.callStep regexMatch s id now c).2 := by
  cases c with
  | record w => exact h.record hmax id w now
  | regex w =>
    simp only [TopicLoggerBackend.callStep]
    split_ifs
    · exact h
    · exact h.congr rfl rfl rfl rfl rfl
  | lookup w =>
    simp only [TopicLoggerBackend.callStep]
    split <;> exact h
  | checkRun w | returned w result => exact h

theorem Running.step (h : Running s) (hmax : 1 ≤ s.options.maxMsgCount) (op : Op) :
    Running (TopicLoggerBackend.step regexMatch s op) := by
  refine step_keeps regexMatch h (fun w => h.congr rfl rfl rfl rfl rfl) (fun i now c _ => ?_)
    (fun i now timeStamp c hc => h.closureStep hc now timeStamp) (h.congr rfl rfl rfl rfl rfl)
    (h.congr rfl rfl rfl rfl rfl) op
  exact (h.callStep hmax i now c).congr rfl rfl rfl rfl rfl

end Runs

end TopicLoggerBackend

end AimRT.TopicLogger
