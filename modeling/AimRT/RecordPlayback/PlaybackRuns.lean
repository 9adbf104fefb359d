import AimRT.Lib.Run
import AimRT.RecordPlayback.PlaybackReading

/-!
# Runs of a playback action

The caller and the executor take their steps in any order: signals start and stop a run, a call of `AddPlaybackTasks`
checks for the stop signal and later reads its batch, and a task publishes its record.  The counter that a run shares
is held by the calls and by the last tasks of the batches; when nobody holds it the action is ready for the next run.

What a run has published, the tasks that it left to the executor and the records that are left to read are together
the messages of its window.  A step only moves records from one of the three to the next one, so when the action is
ready and the run was not stopped, everything was published or is going to be.

All of that rests on what a run finds when it starts (`StartsClean`).  `StartPlaybackImpl` computes the window anew,
but the file that comes next and the reader are those that the run before has left.
-/

namespace AimRT.RecordPlayback

open PlaybackAction Lib.Run

/-! ### The system -/

/-- A task of the executor: it publishes a record at a time, and the last one of a batch makes the next call. -/
structure Task (D : Type) where
  run : ℕ
  tp : UInt64
  record : PlaybackRecord D
  last : Bool
  deriving DecidableEq, Repr

/-- What a call that started a run asked for, and when it was made. -/
structure PlaybackRun where
  skipDurationS : UInt64
  playDurationS : UInt64
  now : UInt64
  deriving DecidableEq, Repr

/-- The action, the calls of `AddPlaybackTasks` that begin and those that have passed the check, and the tasks that
wait.  The tasks that were run, the runs that were started and the numbers of those that were stopped are kept to tell
of them. -/
structure Player (D : Type) where
  action : PlaybackAction D
  entering : ℕ := 0
  reading : ℕ := 0
  tasks : List (Task D) := []
  fired : List (Task D) := []
  runs : List PlaybackRun := []
  stopped : List ℕ := []

namespace Player

variable {D : Type}

/-- The copies of the counter. -/
def holders (y : Player D) : ℕ := y.entering + y.reading + y.tasks.countP Task.last

/-- When the last copy of the counter is gone, the action is ready. -/
def release (y : Player D) : Player D :=
  if holders y = 0 then { y with action := { y.action with playbackState := .readyToPlay } } else y

/-- `StartPlaybackImpl`: two calls of `AddPlaybackTasks`. -/
def begin (skipDurationS playDurationS now : UInt64) (y : Player D) : Player D :=
  { y with
    action := startPlaybackImpl skipDurationS playDurationS now y.action
    entering := y.entering + 2
    runs := y.runs ++ [⟨skipDurationS, playDurationS, now⟩] }

/-- The tasks of a batch. -/
def tasksOf (run : ℕ) (startTimestamp : UInt64) : List (PlaybackRecord D) → List (Task D)
  | [] => []
  | [record] => [⟨run, startTimestamp + record.dt, record, true⟩]
  | record :: records => ⟨run, startTimestamp + record.dt, record, false⟩ :: tasksOf run startTimestamp records

section

variable (run : ℕ) (startTimestamp : UInt64) (record record' : PlaybackRecord D) (records : List (PlaybackRecord D))

theorem tasksOf_nil : tasksOf run startTimestamp ([] : List (PlaybackRecord D)) = [] := rfl

theorem tasksOf_singleton :
    tasksOf run startTimestamp [record] = [⟨run, startTimestamp + record.dt, record, true⟩] := rfl

theorem tasksOf_cons_cons : tasksOf run startTimestamp (record :: record' :: records) =
    ⟨run, startTimestamp + record.dt, record, false⟩ :: tasksOf run startTimestamp (record' :: records) := rfl

end

/-- A call that has passed the check reads its batch. -/
def readBatch (y : Player D) : Player D :=
  { y with
    action := (addPlaybackTasks y.action).2
    tasks := y.tasks ++ tasksOf (y.runs.length - 1) y.action.startTimestamp (addPlaybackTasks y.action).1 }

inductive Op where
  | start (now : UInt64)
  | signal (skipDurationS playDurationS now : UInt64)
  | stop
  | enter
  | read
  | fire (i : ℕ)
  deriving DecidableEq, Repr

/-- `Start` begins the run of the immediate mode. -/
def startAction (now : UInt64) (y : Player D) : Player D :=
  let started := { y with action := { y.action with state := .start } }
  if y.action.options.mode = .imd ∧ y.action.playbackState = .readyToPlay then
    begin y.action.options.skipDurationS y.action.options.playDurationS now started
  else started

def step (y : Player D) : Op → Player D
  | .start now => if y.action.state = .init then startAction now y else y
  | .signal skipDurationS playDurationS now =>
    if y.action.state = .start ∧ y.action.options.mode = .signal ∧ y.action.playbackState = .readyToPlay then
      begin skipDurationS playDurationS now y
    else y
  | .stop =>
    if y.action.state = .start ∧ y.action.options.mode = .signal ∧ y.action.playbackState = .playing then
      { y with
        action := { y.action with playbackState := .getStopSignal }
        stopped := (y.runs.length - 1) :: y.stopped }
    else y
  | .enter =>
    match y.entering with
    | 0 => y
    | n + 1 =>
      if y.action.playbackState = .getStopSignal then release { y with entering := n }
      else { y with entering := n, reading := y.reading + 1 }
  | .read =>
    match y.reading with
    | 0 => y
    | n + 1 => release (readBatch { y with reading := n })
  | .fire i =>
    match y.tasks[i]? with
    | none => y
    | some task =>
      { y with
        tasks := y.tasks.eraseIdx i
        fired := y.fired ++ [task]
        entering := if task.last then y.entering + 1 else y.entering }

/-! ### The window of a run -/

/-- The start of the window, as the numbers say. -/
def windowStart (files : List (BagFile D)) (skipDurationS : UInt64) : ℕ :=
  ((files.head?.map fun file : BagFile D => file.fileMeta.startTimestamp).getD 0).toNat +
    skipDurationS.toNat * 1000000000

/-- A message is in the window. -/
def inWindow (files : List (BagFile D)) (skipDurationS playDurationS : UInt64) (m : Message D) : Bool :=
  windowStart files skipDurationS ≤ m.logTime.toNat &&
    (playDurationS = 0 || m.logTime.toNat < windowStart files skipDurationS + playDurationS.toNat * 1000000000)

/-- The messages of the topics in the window. -/
def windowOf (s : PlaybackAction D) (skipDurationS playDurationS : UInt64) (file : BagFile D) : List (Message D) :=
  file.messages.filter fun m =>
    inWindow s.files skipDurationS playDurationS m && (topicOfChannel s file m.channelId).isSome

/-- What a run is to publish of a message, and when. -/
def publication (s : PlaybackAction D) (run : PlaybackRun) (file : BagFile D) (m : Message D) :
    UInt64 × PlaybackRecord D :=
  let offset := UInt64.ofNat (m.logTime.toNat - windowStart s.files run.skipDurationS)
  (run.now + offset, { topicIndex := (topicOfChannel s file m.channelId).getD 0, dt := offset, buffer := m.data })

/-- All that a run is to publish. -/
def expected (s : PlaybackAction D) (run : PlaybackRun) : List (UInt64 × PlaybackRecord D) :=
  s.files.flatMap fun file =>
    (windowOf s run.skipDurationS run.playDurationS file).map (publication s run file)

/-- The publications of the tasks of a run. -/
def publications (k : ℕ) (tasks : List (Task D)) : List (UInt64 × PlaybackRecord D) :=
  (tasks.filter fun task => task.run = k).map fun task => (task.tp, task.record)

/-- A run has ended: another one was started, or the action is ready for that. -/
def Ended (y : Player D) (k : ℕ) : Prop := k + 1 < y.runs.length ∨ y.action.playbackState = .readyToPlay

/-- **Every run covers its window.**  It publishes nothing else and nothing twice; and when it has ended without having
been stopped and its tasks were run, it has published everything.  When nothing is left to do, all runs have ended. -/
structure Covers (y : Player D) : Prop where
  defined : y.action.undefined = false
  within : ∀ k run, y.runs[k]? = some run →
    (publications k y.fired : Multiset (UInt64 × PlaybackRecord D)) ≤ expected y.action run
  covers : ∀ k run, y.runs[k]? = some run → k ∉ y.stopped → Ended y k → publications k y.tasks = [] →
    (publications k y.fired).Perm (expected y.action run)
  ends : y.entering = 0 → y.reading = 0 → y.tasks = [] → y.action.playbackState = .readyToPlay

/-- **What a run has to find**: the window fits into the 64 bits of the timestamps, nothing is in front of the reader,
and the file that comes next and those behind it have all the messages of the window, each of those that are accepted
at least one, and the accepted ones come first. -/
structure StartsClean (s : PlaybackAction D) (skipDurationS playDurationS : UInt64) : Prop where
  reader : s.msgReader.getD [] = []
  fits : windowStart s.files skipDurationS + playDurationS.toNat * 1000000000 < 2 ^ 64
  notMaxTime : playDurationS = 0 → ∀ file ∈ s.files, ∀ m ∈ windowOf s skipDurationS playDurationS file,
    m.logTime ≠ maxTime
  before : ∀ file ∈ s.files.take s.curMcapFileIndex, windowOf s skipDurationS playDurationS file = []
  played : ∀ file ∈ (ahead s).takeWhile (playable (startPlaybackImpl skipDurationS playDurationS 0 s)),
    windowOf s skipDurationS playDurationS file ≠ []
  refused : ∀ file ∈ (ahead s).dropWhile (playable (startPlaybackImpl skipDurationS playDurationS 0 s)),
    playable (startPlaybackImpl skipDurationS playDurationS 0 s) file = false ∧
      windowOf s skipDurationS playDurationS file = []

/-- A step that starts a run finds the action so. -/
def Clean (y : Player D) : Op → Prop
  | .start _ => y.action.state = .init → y.action.options.mode = .imd → y.action.playbackState = .readyToPlay →
      StartsClean y.action y.action.options.skipDurationS y.action.options.playDurationS
  | .signal skipDurationS playDurationS _ =>
      y.action.state = .start → y.action.options.mode = .signal → y.action.playbackState = .readyToPlay →
        StartsClean y.action skipDurationS playDurationS
  | _ => True

/-! ### The first records of a run -/

theorem toNat_startPlaybackOf {files : List (BagFile D)} {skipDurationS : UInt64}
    (h : windowStart files skipDurationS < 2 ^ 64) :
    (startPlaybackOf files skipDurationS).toNat = windowStart files skipDurationS := by
  unfold windowStart at h ⊢
  unfold startPlaybackOf
  rw [UInt64.toNat_add, UInt64.toNat_mul]
  simp only [UInt64.reduceToNat]
  omega

theorem toNat_stopPlaybackOf {files : List (BagFile D)} {skipDurationS playDurationS : UInt64}
    (h : windowStart files skipDurationS + playDurationS.toNat * 1000000000 < 2 ^ 64) (hplay : playDurationS ≠ 0) :
    (stopPlaybackOf (startPlaybackOf files skipDurationS) playDurationS).toNat =
      windowStart files skipDurationS + playDurationS.toNat * 1000000000 := by
  have hstart : (startPlaybackOf files skipDurationS).toNat = windowStart files skipDurationS :=
    toNat_startPlaybackOf (lt_of_le_of_lt (Nat.le_add_right _ _) h)
  rw [stopPlaybackOf, if_neg hplay, UInt64.toNat_add, UInt64.toNat_mul, hstart]
  simp only [UInt64.reduceToNat]
  omega

/-- Before the end there is everything that the reader may yield, but for the last timestamp of all. -/
theorem lt_endTime_iff {s : PlaybackAction D} {skipDurationS playDurationS : UInt64}
    (hfits : windowStart s.files skipDurationS + playDurationS.toNat * 1000000000 < 2 ^ 64) (now t : UInt64) :
    t < endTime (startPlaybackImpl skipDurationS playDurationS now s) ↔
      if playDurationS = 0 then t ≠ maxTime
      else t.toNat < windowStart s.files skipDurationS + playDurationS.toNat * 1000000000 := by
  have hstop : (startPlaybackImpl skipDurationS playDurationS now s).stopPlaybackTimestamp =
      stopPlaybackOf (startPlaybackOf s.files skipDurationS) playDurationS := rfl
  rw [endTime, hstop]
  by_cases hplay : playDurationS = 0
  · subst hplay
    have ht := t.toNat_lt
    have hmax : maxTime.toNat = 2 ^ 64 - 1 := rfl
    rw [stopPlaybackOf, if_pos rfl, if_neg (by decide), if_pos rfl, UInt64.lt_iff_toNat_lt, ne_eq, ← UInt64.toNat_inj,
      hmax]
    omega
  · have hnat := toNat_stopPlaybackOf hfits hplay
    have hpos : 0 < playDurationS.toNat := by
      rw [Nat.pos_iff_ne_zero, ne_eq, ← UInt64.toNat_zero, UInt64.toNat_inj]
      exact hplay
    rw [if_pos (by rw [UInt64.lt_iff_toNat_lt, hnat, UInt64.toNat_zero]; omega), if_neg hplay, UInt64.lt_iff_toNat_lt,
      hnat]

/-- The reader yields the messages of the window. -/
theorem readMessages_startPlaybackImpl {s : PlaybackAction D} {skipDurationS playDurationS : UInt64}
    (h : StartsClean s skipDurationS playDurationS) (now : UInt64) {file : BagFile D} (hfile : file ∈ s.files) :
    readMessages (startPlaybackImpl skipDurationS playDurationS now s) file =
      windowOf s skipDurationS playDurationS file := by
  have hstart : (startPlaybackOf s.files skipDurationS).toNat = windowStart s.files skipDurationS :=
    toNat_startPlaybackOf (lt_of_le_of_lt (Nat.le_add_right _ _) h.fits)
  refine List.filter_congr fun m hm => ?_
  have hend := lt_endTime_iff h.fits now m.logTime
  have hmem : windowStart s.files skipDurationS ≤ m.logTime.toNat →
      (topicOfChannel s file m.channelId).isSome = true → playDurationS = 0 → m.logTime ≠ maxTime := by
    intro hle htopic hplay
    refine h.notMaxTime hplay file hfile m (List.mem_filter.2 ⟨hm, ?_⟩)
    simp [inWindow, hle, htopic, hplay]
  change (startPlaybackOf s.files skipDurationS ≤ m.logTime && m.logTime < endTime _ &&
    (topicOfChannel s file m.channelId).isSome) = _
  rw [Bool.eq_iff_iff]
  simp only [inWindow, Bool.and_eq_true, Bool.or_eq_true, decide_eq_true_eq, hend, UInt64.le_iff_toNat_le, hstart]
  by_cases hplay : playDurationS = 0
  · simp only [hplay, if_true, true_or, and_true]
    constructor
    · rintro ⟨⟨hle, -⟩, htopic⟩
      exact ⟨hle, htopic⟩
    · rintro ⟨hle, htopic⟩
      exact ⟨⟨hle, hmem hle htopic hplay⟩, htopic⟩
  · simp only [hplay, if_false, false_or]

theorem offset_eq {files : List (BagFile D)} {skipDurationS : UInt64}
    (h : windowStart files skipDurationS < 2 ^ 64) {t : UInt64} (hle : windowStart files skipDurationS ≤ t.toNat) :
    t - startPlaybackOf files skipDurationS = UInt64.ofNat (t.toNat - windowStart files skipDurationS) := by
  have hstart := toNat_startPlaybackOf h
  have ht := t.toNat_lt
  rw [← UInt64.toNat_inj, UInt64.toNat_sub_of_le _ _ (by rw [UInt64.le_iff_toNat_le, hstart]; exact hle), hstart,
    UInt64.toNat_ofNat', Nat.mod_eq_of_lt (by omega)]

/-- The time and the record that a task gets. -/
def scheduled (startTimestamp : UInt64) (record : PlaybackRecord D) : UInt64 × PlaybackRecord D :=
  (startTimestamp + record.dt, record)

/-- **A run that starts cleanly** has all that it is to publish left to read. -/
theorem startPlaybackImpl_spec {s : PlaybackAction D} {skipDurationS playDurationS : UInt64}
    (hdefined : s.undefined = false) (h : StartsClean s skipDurationS playDurationS) (now : UInt64) :
    Reads (startPlaybackImpl skipDurationS playDurationS now s) ∧
      (left (startPlaybackImpl skipDurationS playDurationS now s)).map (scheduled now) =
        expected s ⟨skipDurationS, playDurationS, now⟩ := by
  have hread : ∀ file ∈ s.files, readMessages (startPlaybackImpl skipDurationS playDurationS now s) file =
      windowOf s skipDurationS playDurationS file := fun file hfile => readMessages_startPlaybackImpl h now hfile
  have hahead : ∀ file ∈ ahead s, file ∈ s.files := fun file hfile => List.mem_of_mem_drop hfile
  have hempty : (startPlaybackImpl skipDurationS playDurationS now s).msgReader.getD [] = [] := h.reader
  refine ⟨⟨hdefined, ?_, ?_, fun file hfile => (h.refused file hfile).1⟩, ?_⟩
  · rw [hempty]
    intro m hm
    cases hm
  · intro file hfile
    rw [hread file (hahead file ((List.takeWhile_prefix _).subset hfile))]
    exact h.played file hfile
  · rw [left_of_closed hempty]
    have hrecords : ∀ file ∈ s.files,
        (recordsIn (startPlaybackImpl skipDurationS playDurationS now s) file).map (scheduled now) =
          (windowOf s skipDurationS playDurationS file).map
            (publication s ⟨skipDurationS, playDurationS, now⟩ file) := by
      intro file hfile
      rw [recordsIn, hread file hfile, List.map_map]
      refine List.map_congr_left fun m hm => ?_
      have hwindow := (List.mem_filter.1 hm).2
      simp only [inWindow, Bool.and_eq_true, decide_eq_true_eq] at hwindow
      have hoffset := offset_eq (lt_of_le_of_lt (Nat.le_add_right _ _) h.fits) hwindow.1.1
      simp only [Function.comp, scheduled, recordIn, publication]
      change (now + (m.logTime - startPlaybackOf s.files skipDurationS),
        ({ topicIndex := _, dt := m.logTime - startPlaybackOf s.files skipDurationS, buffer := _ } :
          PlaybackRecord D)) = _
      rw [hoffset]
      rfl
    have hsplit : s.files = s.files.take s.curMcapFileIndex ++
        (played (startPlaybackImpl skipDurationS playDurationS now s) ++
          (ahead s).dropWhile (playable (startPlaybackImpl skipDurationS playDurationS 0 s))) := by
      have hwhile : played (startPlaybackImpl skipDurationS playDurationS now s) =
          (ahead s).takeWhile (playable (startPlaybackImpl skipDurationS playDurationS 0 s)) := rfl
      rw [hwhile, List.takeWhile_append_dropWhile, ahead, List.take_append_drop]
    have hplayed : ∀ file ∈ played (startPlaybackImpl skipDurationS playDurationS now s), file ∈ s.files :=
      fun file hfile => hahead file ((List.takeWhile_prefix _).subset hfile)
    have hbefore : (s.files.take s.curMcapFileIndex).flatMap (fun file =>
        (windowOf s skipDurationS playDurationS file).map
          (publication s ⟨skipDurationS, playDurationS, now⟩ file)) = [] := by
      rw [List.flatMap_eq_nil_iff]
      intro file hfile
      rw [h.before file hfile, List.map_nil]
    have hrefused : ((ahead s).dropWhile (playable (startPlaybackImpl skipDurationS playDurationS 0 s))).flatMap
        (fun file => (windowOf s skipDurationS playDurationS file).map
          (publication s ⟨skipDurationS, playDurationS, now⟩ file)) = [] := by
      rw [List.flatMap_eq_nil_iff]
      intro file hfile
      rw [(h.refused file hfile).2, List.map_nil]
    unfold expected
    dsimp only
    conv_rhs => rw [hsplit]
    rw [List.flatMap_append, List.flatMap_append, hbefore, hrefused, List.nil_append, List.append_nil, List.map_flatMap]
    refine List.flatMap_congr fun file hfile => ?_
    exact hrecords file (hplayed file hfile)

end Player

end AimRT.RecordPlayback
