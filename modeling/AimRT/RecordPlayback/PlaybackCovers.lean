import AimRT.RecordPlayback.PlaybackRuns
import Mathlib.Data.Multiset.AddSub

/-!
# Every run covers its window

Between two runs everything that was to be published is either published or left to the executor (`Rested`).  During a
run the records that are left to read come on top (`Running`), and a step moves them: a call that reads a batch makes
tasks of it, and a task that is run is one of those that were run.  The counter is released when nothing is left, or by
a stop signal.
-/

namespace AimRT.RecordPlayback.Player

open PlaybackAction Lib.Run

variable {D : Type}

/-! ### What is planned -/

/-- What the tasks of a run have published, and what they are going to. -/
def planned (y : Player D) (k : ℕ) : Multiset (UInt64 × PlaybackRecord D) :=
  ↑(publications k y.fired) + ↑(publications k y.tasks)

theorem publications_append (k : ℕ) (tasks tasks' : List (Task D)) :
    publications k (tasks ++ tasks') = publications k tasks ++ publications k tasks' := by
  simp [publications]

theorem publications_tasksOf (k run : ℕ) (startTimestamp : UInt64) (records : List (PlaybackRecord D)) :
    publications k (tasksOf run startTimestamp records) =
      if run = k then records.map (scheduled startTimestamp) else [] := by
  induction records with
  | nil => simp [tasksOf_nil, publications]
  | cons record records ih =>
    have hcons : ∀ last, publications k (⟨run, startTimestamp + record.dt, record, last⟩ ::
        tasksOf run startTimestamp records) =
        if run = k then (record :: records).map (scheduled startTimestamp) else [] := by
      intro last
      rw [← List.singleton_append, publications_append, ih]
      by_cases hrun : run = k <;> simp [publications, hrun, scheduled]
    cases records with
    | nil => exact hcons true
    | cons record' records => exact hcons false

/-- A batch that is not empty has a task that holds the counter. -/
theorem countP_tasksOf_pos (run : ℕ) (startTimestamp : UInt64) {records : List (PlaybackRecord D)}
    (h : records ≠ []) : 0 < (tasksOf run startTimestamp records).countP Task.last := by
  induction records with
  | nil => exact absurd rfl h
  | cons record records ih =>
    cases records with
    | nil => simp [tasksOf_singleton]
    | cons record' records =>
      rw [tasksOf_cons_cons, List.countP_cons]
      have hpos := ih (by simp)
      omega

theorem mem_tasksOf {run : ℕ} {startTimestamp : UInt64} {records : List (PlaybackRecord D)} {task : Task D}
    (h : task ∈ tasksOf run startTimestamp records) : task.run = run ∧ task.record ∈ records := by
  induction records with
  | nil => cases h
  | cons record records ih =>
    cases records with
    | nil =>
      rw [tasksOf_singleton, List.mem_singleton] at h
      rw [h]
      exact ⟨rfl, List.mem_cons_self⟩
    | cons record' records =>
      rw [tasksOf_cons_cons, List.mem_cons] at h
      rcases h with rfl | h
      · exact ⟨rfl, List.mem_cons_self⟩
      · exact (ih h).imp_right (List.mem_cons_of_mem _)

theorem expected_congr {s s' : PlaybackAction D} (hfiles : s'.files = s.files)
    (htopics : s'.topicNameToTopicIdMap = s.topicNameToTopicIdMap) (run : PlaybackRun) :
    expected s' run = expected s run := by
  unfold expected windowOf publication topicOfChannel
  rw [hfiles, htopics]

/-- The tasks that are run are some of those that were planned. -/
theorem coe_publications_eraseIdx {tasks : List (Task D)} {i : ℕ} {task : Task D} (h : tasks[i]? = some task) (k : ℕ) :
    (↑(publications k [task]) : Multiset (UInt64 × PlaybackRecord D)) + ↑(publications k (tasks.eraseIdx i)) =
      ↑(publications k tasks) := by
  obtain ⟨hi, rfl⟩ := List.getElem?_eq_some_iff.1 h
  rw [Multiset.coe_add, ← publications_append, Multiset.coe_eq_coe, List.singleton_append]
  exact ((List.getElem_cons_eraseIdx_perm hi).filter _).map _

/-! ### The invariant -/

/-- The runs before a number are planned, but for what is missing of those that were stopped. -/
def Past (y : Player D) (n : ℕ) : Prop :=
  ∀ k run, y.runs[k]? = some run → k < n →
    ∃ missing, planned y k + missing = ↑(expected y.action run) ∧ (k ∉ y.stopped → missing = 0)

/-- Between two runs. -/
structure Rested (y : Player D) : Prop where
  ready : y.action.playbackState = .readyToPlay
  holders : holders y = 0
  defined : y.action.undefined = false
  numbered : ∀ task ∈ y.fired ++ y.tasks, task.run < y.runs.length
  past : Past y y.runs.length

/-- During a run. -/
structure Running (y : Player D) (run : PlaybackRun) : Prop where
  busy : y.action.playbackState ≠ .readyToPlay
  started : y.action.state = .start
  reads : Reads y.action
  last : y.runs[y.runs.length - 1]? = some run
  now : y.action.startTimestamp = run.now
  numbered : ∀ task ∈ y.fired ++ y.tasks, task.run < y.runs.length
  stop : y.action.playbackState = .getStopSignal → y.runs.length - 1 ∉ y.stopped → left y.action = []
  past : Past y (y.runs.length - 1)
  current : planned y (y.runs.length - 1) + ↑((left y.action).map (scheduled run.now)) = ↑(expected y.action run)

/-- What holds in every state. -/
def Inv (y : Player D) : Prop := Rested y ∨ ∃ run, Running y run ∧ 0 < holders y

theorem Inv.covers {y : Player D} (h : Inv y) : Covers y := by
  obtain hrest | ⟨run, hrun, hpos⟩ := h
  · refine ⟨hrest.defined, fun k run hk => ?_, fun k run hk hstopped _ htasks => ?_, fun _ _ _ => hrest.ready⟩
    · obtain ⟨missing, hsum, -⟩ := hrest.past k run hk (List.getElem?_eq_some_iff.1 hk).1
      rw [← hsum, planned, add_assoc]
      exact Multiset.le_add_right _ _
    · obtain ⟨missing, hsum, hnone⟩ := hrest.past k run hk (List.getElem?_eq_some_iff.1 hk).1
      rw [hnone hstopped, add_zero, planned, htasks, Multiset.coe_nil, add_zero] at hsum
      exact Multiset.coe_eq_coe.1 hsum
  · have hlast := (List.getElem?_eq_some_iff.1 hrun.last).1
    refine ⟨hrun.reads.defined, fun k run' hk => ?_, fun k run' hk hstopped hended htasks => ?_, fun h1 h2 h3 => ?_⟩
    · have hlt := (List.getElem?_eq_some_iff.1 hk).1
      rcases Nat.lt_or_ge k (y.runs.length - 1) with hpast | hcurrent
      · obtain ⟨missing, hsum, -⟩ := hrun.past k run' hk hpast
        rw [← hsum, planned, add_assoc]
        exact Multiset.le_add_right _ _
      · obtain rfl : k = y.runs.length - 1 := by omega
        obtain rfl : run = run' := Option.some.inj (hrun.last.symm.trans hk)
        rw [← hrun.current, planned, add_assoc]
        exact Multiset.le_add_right _ _
    · have hpast : k < y.runs.length - 1 := by
        rcases hended with hlt | hready
        · omega
        · exact absurd hready hrun.busy
      obtain ⟨missing, hsum, hnone⟩ := hrun.past k run' hk hpast
      rw [hnone hstopped, add_zero, planned, htasks, Multiset.coe_nil, add_zero] at hsum
      exact Multiset.coe_eq_coe.1 hsum
    · rw [holders, h1, h2, h3] at hpos
      exact absurd hpos (Nat.lt_irrefl 0)

/-! ### Steps -/

theorem Past.congr {y y' : Player D} {n : ℕ} (h : Past y n) (hruns : ∀ k < n, y'.runs[k]? = y.runs[k]?)
    (hplanned : ∀ k < n, planned y' k = planned y k) (hfiles : y'.action.files = y.action.files)
    (htopics : y'.action.topicNameToTopicIdMap = y.action.topicNameToTopicIdMap)
    (hstopped : ∀ k < n, k ∉ y'.stopped → k ∉ y.stopped) : Past y' n := by
  intro k run hk hlt
  rw [hruns k hlt] at hk
  obtain ⟨missing, hsum, hnone⟩ := h k run hk hlt
  refine ⟨missing, ?_, fun hnot => hnone (hstopped k hlt hnot)⟩
  rw [hplanned k hlt, hsum, expected_congr hfiles htopics]

/-- A run begins in front of all that it is to publish. -/
theorem Rested.inv_begin {y : Player D} (h : Rested y) (hstarted : y.action.state = .start)
    {skipDurationS playDurationS : UInt64} (hclean : StartsClean y.action skipDurationS playDurationS) (now : UInt64) :
    Inv (begin skipDurationS playDurationS now y) := by
  obtain ⟨hreads, hleft⟩ := startPlaybackImpl_spec h.defined hclean now
  have hlength : (begin skipDurationS playDurationS now y).runs.length = y.runs.length + 1 := by
    simp [begin]
  have hnew : planned y y.runs.length = 0 := by
    have hnone : ∀ tasks : List (Task D), (∀ task ∈ tasks, task.run < y.runs.length) →
        publications y.runs.length tasks = [] := by
      intro tasks htasks
      rw [publications, List.map_eq_nil_iff, List.filter_eq_nil_iff]
      intro task htask hrun
      have hlt := htasks task htask
      have heq := of_decide_eq_true hrun
      omega
    rw [planned, hnone _ fun task htask => h.numbered task (List.mem_append_left _ htask),
      hnone _ fun task htask => h.numbered task (List.mem_append_right _ htask)]
    rfl
  refine .inr ⟨⟨skipDurationS, playDurationS, now⟩, ⟨?_, hstarted, hreads, ?_, rfl, ?_, ?_, ?_, ?_⟩, ?_⟩
  · exact fun heq => by cases heq
  · rw [hlength, Nat.add_sub_cancel]
    simp [begin]
  · intro task htask
    rw [hlength]
    exact Nat.lt_succ_of_lt (h.numbered task htask)
  · exact fun heq => by cases heq
  · rw [hlength, Nat.add_sub_cancel]
    refine h.past.congr (fun k hk => ?_) (fun k _ => rfl) rfl rfl fun k _ hnot => hnot
    exact List.getElem?_append_left hk
  · rw [hlength, Nat.add_sub_cancel]
    change planned y y.runs.length + _ = _
    rw [hnew, zero_add]
    exact congrArg _ hleft
  · change 0 < y.entering + 2 + y.reading + y.tasks.countP Task.last
    omega

/-- A run whose counter may be gone. -/
theorem Running.inv_release {y : Player D} {run : PlaybackRun} (h : Running y run)
    (hdone : holders y = 0 → y.runs.length - 1 ∉ y.stopped → left y.action = []) : Inv (release y) := by
  unfold release
  split_ifs with hzero
  · refine .inl ⟨rfl, hzero, h.reads.defined, h.numbered, ?_⟩
    intro k run' hk hlt
    have hlt' : k < y.runs.length := hlt
    rcases Nat.lt_or_ge k (y.runs.length - 1) with hpast | hcurrent
    · exact h.past k run' hk hpast
    · obtain rfl : k = y.runs.length - 1 := by omega
      obtain rfl : run = run' := Option.some.inj (h.last.symm.trans hk)
      refine ⟨_, h.current, fun hnot => ?_⟩
      rw [hdone hzero hnot]
      rfl
  · exact .inr ⟨run, h, Nat.pos_of_ne_zero hzero⟩

theorem Running.inv_enter {y : Player D} {run : PlaybackRun} (h : Running y run) (hpos : 0 < holders y) :
    Inv (step y .enter) := by
  cases hentering : y.entering with
  | zero =>
    simp only [step, hentering]
    exact .inr ⟨run, h, hpos⟩
  | succ n =>
    simp only [step, hentering]
    split_ifs with hstop
    · have hrun : Running { y with entering := n } run :=
        ⟨h.busy, h.started, h.reads, h.last, h.now, h.numbered, h.stop, h.past, h.current⟩
      exact hrun.inv_release fun _ => h.stop hstop
    · refine .inr ⟨run, ⟨h.busy, h.started, h.reads, h.last, h.now, h.numbered, h.stop, h.past, h.current⟩, ?_⟩
      simp only [holders]
      omega

/-- What a call reads becomes tasks; one that reads nothing sets the state in which the other chain ends. -/
theorem addPlaybackTasks_spec {s : PlaybackAction D} (h : Reads s) :
    Reads (addPlaybackTasks s).2 ∧ left s = (addPlaybackTasks s).1 ++ left (addPlaybackTasks s).2 ∧
      (addPlaybackTasks s).2.state = s.state ∧ (addPlaybackTasks s).2.files = s.files ∧
      (addPlaybackTasks s).2.topicNameToTopicIdMap = s.topicNameToTopicIdMap ∧
      (addPlaybackTasks s).2.startTimestamp = s.startTimestamp ∧
      ((addPlaybackTasks s).1 ≠ [] ∧ (addPlaybackTasks s).2.playbackState = s.playbackState ∨
        (addPlaybackTasks s).1 = [] ∧ (addPlaybackTasks s).2.playbackState = .getStopSignal ∧ left s = []) := by
  obtain ⟨hreads, hsame, taken, hrecords, hleft, hnone⟩ := readRecords_spec h [] 0
  rw [List.nil_append] at hrecords
  unfold addPlaybackTasks
  split_ifs with hempty
  · rw [List.isEmpty_iff, hrecords] at hempty
    subst hempty
    refine ⟨⟨hreads.defined, hreads.reader, hreads.full, hreads.refused⟩, hleft, hsame.state, hsame.files,
      hsame.topicIds, hsame.startTimestamp, .inr ⟨rfl, rfl, hnone rfl⟩⟩
  · rw [List.isEmpty_iff] at hempty
    exact ⟨hreads, by rw [hrecords]; exact hleft, hsame.state, hsame.files, hsame.topicIds, hsame.startTimestamp,
      .inl ⟨hempty, hsame.playbackState⟩⟩

theorem Running.inv_read {y : Player D} {run : PlaybackRun} (h : Running y run) (hpos : 0 < holders y) :
    Inv (step y .read) := by
  cases hreading : y.reading with
  | zero =>
    simp only [step, hreading]
    exact .inr ⟨run, h, hpos⟩
  | succ n =>
    simp only [step, hreading]
    obtain ⟨hreads, hleft, hstate, hfiles, htopics, hnow, hcases⟩ := addPlaybackTasks_spec h.reads
    have hlt := (List.getElem?_eq_some_iff.1 h.last).1
    have hplanned : ∀ k, planned (readBatch { y with reading := n }) k = planned y k +
        ↑(publications k (tasksOf (y.runs.length - 1) y.action.startTimestamp (addPlaybackTasks y.action).1)) := by
      intro k
      simp only [planned, readBatch, publications_append, ← Multiset.coe_add, add_assoc]
    have hrun : Running (readBatch { y with reading := n }) run := by
      refine ⟨?_, hstate.trans h.started, hreads, h.last, hnow.trans h.now, ?_, ?_, ?_, ?_⟩
      · rcases hcases with ⟨-, hsame⟩ | ⟨-, hstop, -⟩
        · exact fun hready => h.busy (hsame.symm.trans hready)
        · intro hready
          have hboth := hstop.symm.trans hready
          cases hboth
      · intro task htask
        rcases List.mem_append.1 htask with hfired | htasks
        · exact h.numbered task (List.mem_append_left _ hfired)
        · rcases List.mem_append.1 htasks with hold | hnew
          · exact h.numbered task (List.mem_append_right _ hold)
          · rw [(mem_tasksOf hnew).1]
            exact hlt
      · intro hstop hnot
        rcases hcases with ⟨-, hsame⟩ | ⟨hnil, -, hnone⟩
        · have hall := h.stop (hsame.symm.trans hstop) hnot
          rw [hall] at hleft
          exact (List.append_eq_nil_iff.1 hleft.symm).2
        · rw [hnone] at hleft
          exact (List.append_eq_nil_iff.1 hleft.symm).2
      · refine h.past.congr (fun k _ => rfl) (fun k hk => ?_) hfiles htopics fun k _ hnot => hnot
        rw [hplanned, publications_tasksOf, if_neg (Nat.ne_of_gt hk), Multiset.coe_nil, add_zero]
      · have hexpected : expected (readBatch { y with reading := n }).action run = expected y.action run :=
          expected_congr hfiles htopics run
        change planned (readBatch { y with reading := n }) (y.runs.length - 1) + _ = _
        rw [hplanned, publications_tasksOf, if_pos rfl, h.now, hexpected, ← h.current, hleft, List.map_append,
          ← Multiset.coe_add, add_assoc]
        rfl
    refine hrun.inv_release fun hzero _ => ?_
    rcases hcases with ⟨hne, -⟩ | ⟨-, -, hnone⟩
    · have hlast := countP_tasksOf_pos (y.runs.length - 1) y.action.startTimestamp hne
      simp only [holders, readBatch, List.countP_append] at hzero
      omega
    · rw [hnone] at hleft
      exact (List.append_eq_nil_iff.1 hleft.symm).2

/-- A task that is run is one of those that were run. -/
theorem planned_fire {y : Player D} {i : ℕ} {task : Task D} (htask : y.tasks[i]? = some task) (k : ℕ) :
    planned (step y (.fire i)) k = planned y k := by
  simp only [step, htask, planned]
  rw [publications_append, ← coe_publications_eraseIdx htask, ← Multiset.coe_add, add_assoc]

theorem holders_fire {y : Player D} {i : ℕ} {task : Task D} (htask : y.tasks[i]? = some task) :
    holders (step y (.fire i)) = holders y := by
  obtain ⟨hi, rfl⟩ := List.getElem?_eq_some_iff.1 htask
  have hcount := (List.getElem_cons_eraseIdx_perm hi).countP_eq Task.last
  rw [List.countP_cons] at hcount
  simp only [step, htask, holders]
  split_ifs at hcount ⊢ with hlast <;> omega

theorem mem_fire {y : Player D} {i : ℕ} {task task' : Task D} (htask : y.tasks[i]? = some task)
    (h : task' ∈ (step y (.fire i)).fired ++ (step y (.fire i)).tasks) : task' ∈ y.fired ++ y.tasks := by
  simp only [step, htask, List.mem_append, List.mem_singleton] at h
  rcases h with (hfired | rfl) | hrest
  · exact List.mem_append_left _ hfired
  · exact List.mem_append_right _ (List.mem_of_getElem? htask)
  · exact List.mem_append_right _ (List.mem_of_mem_eraseIdx hrest)

theorem Inv.fire {y : Player D} (h : Inv y) (i : ℕ) : Inv (step y (.fire i)) := by
  cases htask : y.tasks[i]? with
  | none => simpa only [step, htask] using h
  | some task =>
    have hplanned := planned_fire htask
    have hholders := holders_fire htask
    have hmem : ∀ task' ∈ (step y (.fire i)).fired ++ (step y (.fire i)).tasks, task' ∈ y.fired ++ y.tasks :=
      fun task' => mem_fire htask
    have haction : (step y (.fire i)).action = y.action := by simp only [step, htask]
    have hruns : (step y (.fire i)).runs = y.runs := by simp only [step, htask]
    have hstopped : (step y (.fire i)).stopped = y.stopped := by simp only [step, htask]
    have hpast : ∀ n, Past y n → Past (step y (.fire i)) n := by
      intro n hn
      refine hn.congr (fun k _ => by rw [hruns]) (fun k _ => hplanned k) ?_ ?_ fun k _ hnot => by rwa [hstopped] at hnot
      · rw [haction]
      · rw [haction]
    obtain hrest | ⟨run, hrun, hpos⟩ := h
    · refine .inl ⟨by rw [haction, hrest.ready], hholders.trans hrest.holders, by rw [haction, hrest.defined], ?_, ?_⟩
      · intro task' htask'
        rw [hruns]
        exact hrest.numbered task' (hmem task' htask')
      · rw [hruns]
        exact hpast _ hrest.past
    · refine .inr ⟨run, ⟨?_, ?_, ?_, ?_, ?_, ?_, ?_, ?_, ?_⟩, by rw [hholders]; exact hpos⟩
      · rw [haction]
        exact hrun.busy
      · rw [haction]
        exact hrun.started
      · rw [haction]
        exact hrun.reads
      · rw [hruns]
        exact hrun.last
      · rw [haction]
        exact hrun.now
      · intro task' htask'
        rw [hruns]
        exact hrun.numbered task' (hmem task' htask')
      · rw [haction, hruns, hstopped]
        exact hrun.stop
      · rw [hruns]
        exact hpast _ hrun.past
      · rw [haction, hruns, hplanned]
        exact hrun.current

/-- A stop signal takes the run out of those that are to cover their windows. -/
theorem Inv.stop {y : Player D} (h : Inv y) : Inv (step y .stop) := by
  simp only [step]
  split_ifs with hplaying
  · obtain hrest | ⟨run, hrun, hpos⟩ := h
    · rw [hrest.ready] at hplaying
      cases hplaying.2.2
    · refine .inr ⟨run, ⟨?_, hrun.started, ?_, hrun.last, hrun.now, hrun.numbered, ?_, ?_, hrun.current⟩, hpos⟩
      · exact fun heq => by cases heq
      · exact ⟨hrun.reads.defined, hrun.reads.reader, hrun.reads.full, hrun.reads.refused⟩
      · intro _ hnot
        exact absurd List.mem_cons_self hnot
      · exact hrun.past.congr (fun k _ => rfl) (fun k _ => rfl) rfl rfl
          fun k _ hnot hmem => hnot (List.mem_cons_of_mem _ hmem)
  · exact h

/-- A rested action is so in the state of the action, too. -/
theorem Rested.started {y : Player D} (h : Rested y) :
    Rested { y with action := { y.action with state := .start } } :=
  ⟨h.ready, h.holders, h.defined, h.numbered, h.past⟩

theorem Running.startAction {y : Player D} {run : PlaybackRun} (h : Running y run) (now : UInt64) :
    step y (.start now) = y := by
  simp only [step]
  rw [if_neg]
  rw [h.started]
  exact fun heq => by cases heq

theorem Inv.step {y : Player D} (h : Inv y) {op : Op} (hclean : Clean y op) : Inv (step y op) := by
  cases op with
  | start now =>
    obtain hrest | ⟨run, hrun, hpos⟩ := h
    · simp only [Player.step]
      split_ifs with hinit
      · unfold Player.startAction
        dsimp only
        split_ifs with himd
        · have hfound := hclean hinit himd.1 himd.2
          have hsame : StartsClean { y.action with state := .start } y.action.options.skipDurationS
              y.action.options.playDurationS :=
            ⟨hfound.reader, hfound.fits, hfound.notMaxTime, hfound.before, hfound.played, hfound.refused⟩
          exact hrest.started.inv_begin rfl hsame now
        · exact .inl hrest.started
      · exact .inl hrest
    · rw [hrun.startAction]
      exact .inr ⟨run, hrun, hpos⟩
  | signal skipDurationS playDurationS now =>
    simp only [Player.step]
    split_ifs with hready
    · obtain hrest | ⟨run, hrun, -⟩ := h
      · exact hrest.inv_begin hready.1 (hclean hready.1 hready.2.1 hready.2.2) now
      · exact absurd hready.2.2 hrun.busy
    · exact h
  | stop => exact h.stop
  | enter =>
    obtain hrest | ⟨run, hrun, hpos⟩ := h
    · have hzero : y.entering = 0 := by
        have hholders := hrest.holders
        rw [holders] at hholders
        omega
      simp only [Player.step, hzero]
      exact .inl hrest
    · exact hrun.inv_enter hpos
  | read =>
    obtain hrest | ⟨run, hrun, hpos⟩ := h
    · have hzero : y.reading = 0 := by
        have hholders := hrest.holders
        rw [holders] at hholders
        omega
      simp only [Player.step, hzero]
      exact .inl hrest
    · exact hrun.inv_read hpos
  | fire i => exact h.fire i

/-! ### The windows -/

/-- The player in front of an action that was initialized. -/
def loaded (s : PlaybackAction D) : Player D := { action := s }

/-- `Initialize` configures the topics that are selected and the files that are there. -/
theorem of_initializePlayback {typeSupport : String → Option ((String → Bool) × String)} {options : PlaybackOptions}
    {bag : Bag D} {s : PlaybackAction D} (h : initializePlayback typeSupport options bag = .ok s) :
    s = configuredPlayback options (selectTopics options.topicMetaList bag.topics)
      (bag.files.filter BagFile.isFile) := by
  unfold initializePlayback at h
  cases hcheck : (selectTopics options.topicMetaList bag.topics).forM (checkBagTopic typeSupport) with
  | error e =>
    simp only [hcheck] at h
    split_ifs at h
  | ok _ =>
    simp only [hcheck] at h
    split_ifs at h
    cases h
    rfl

theorem inv_loaded {typeSupport : String → Option ((String → Bool) × String)} {options : PlaybackOptions} {bag : Bag D}
    {s : PlaybackAction D} (h : initializePlayback typeSupport options bag = .ok s) : Inv (loaded s) := by
  rw [of_initializePlayback h]
  refine .inl ⟨rfl, rfl, rfl, ?_, ?_⟩
  · intro task htask
    cases htask
  · intro k run hk
    cases hk

/-- **Every playback run covers its window.**  For every bag and all signals, and whatever the order in which the
executor takes its tasks: when each run finds the action as it has to when it starts, then in all states the runs
publish what is in their windows, each message once and at its time. -/
theorem covers_of_clean {typeSupport : String → Option ((String → Bool) × String)} {options : PlaybackOptions}
    {bag : Bag D} {s : PlaybackAction D} (h : initializePlayback typeSupport options bag = .ok s) {ops : List Op}
    (hclean : AllMeet step Clean (loaded s) ops) : AllHold step Covers (loaded s) ops :=
  allHold_of_allMeet Inv Inv.covers (fun hinv _ hop => hinv.step hop) (inv_loaded h) hclean

/-- A bag with one message, a second behind its start. -/
def imageBag : Bag ℕ where
  version := 1
  topics := [⟨0, "image", "pb:Image", "pb"⟩]
  files := [
    { fileMeta := ⟨"aimrtbag_19700101_000005.mcap", 5000000000⟩
      isFile := true
      opens := true
      channels := [(1, "image")]
      messages := [{ channelId := 1, sequence := 0, logTime := 6000000000, publishTime := 0, data := 8 }]
      nodup := by decide }]

/-- The action of the signal mode for this bag. -/
def imageAction : PlaybackAction ℕ := configuredPlayback { mode := .signal } imageBag.topics imageBag.files

theorem initializePlayback_imageBag :
    initializePlayback (fun _ => some (fun _ => true, "pb")) { mode := .signal } imageBag = .ok imageAction := rfl

/-- A run without a stop signal publishes the message: both calls read, and the one task is run. -/
theorem covers_oneRun : AllHold step Covers (loaded imageAction)
    [.start 0, .signal 0 0 100, .enter, .enter, .read, .read, .fire 0, .enter] := by
  refine covers_of_clean initializePlayback_imageBag
    ⟨fun _ himd => ?_, fun _ _ _ => ⟨rfl, by decide, fun _ => ?_, ?_, ?_, ?_⟩,
      trivial, trivial, trivial, trivial, trivial, trivial, trivial⟩
  · cases himd
  all_goals decide +kernel

/-- The same, and a second call behind the end of the run. -/
def twoRuns : List Op :=
  [.start 0, .signal 0 0 100, .enter, .enter, .read, .read, .fire 0, .enter,
    .signal 0 0 200, .enter, .enter, .read, .read]

/-- The second run publishes nothing: the file that comes next is still the one behind the last one. -/
theorem second_run_publishes_nothing :
    let y := twoRuns.foldl step (loaded imageAction)
    (y.runs = [⟨0, 0, 100⟩, ⟨0, 0, 200⟩] ∧ y.stopped = [] ∧ y.action.playbackState = .readyToPlay ∧ y.tasks = [] ∧
      publications 1 y.fired = [] ∧ (expected y.action ⟨0, 0, 200⟩).length = 1) ∧ ¬Covers y := by
  intro y
  have hrun : y.runs = [⟨0, 0, 100⟩, ⟨0, 0, 200⟩] ∧ y.stopped = [] ∧ y.action.playbackState = .readyToPlay ∧
      y.tasks = [] ∧ publications 1 y.fired = [] ∧ (expected y.action ⟨0, 0, 200⟩).length = 1 := by
    decide +kernel
  refine ⟨hrun, fun hcovers => ?_⟩
  obtain ⟨hruns, hstopped, hready, htasks, hnone, hone⟩ := hrun
  have hperm := hcovers.covers 1 ⟨0, 0, 200⟩ (by rw [hruns]; rfl) (by rw [hstopped]; exact List.not_mem_nil)
    (.inr hready) (by rw [htasks]; rfl)
  have hlength := hperm.length_eq
  rw [hnone, hone] at hlength
  cases hlength

/-! ### The end of a run -/

/-- What the executor still has to do at most. -/
def effort (y : Player D) : ℕ := 3 * work y.action + 3 * y.tasks.length + 2 * y.entering + y.reading

/-- A step of the executor that does something. -/
def Effective (y : Player D) : Op → Prop
  | .enter => 0 < y.entering
  | .read => 0 < y.reading
  | .fire i => i < y.tasks.length
  | _ => False

theorem length_tasksOf (run : ℕ) (startTimestamp : UInt64) (records : List (PlaybackRecord D)) :
    (tasksOf run startTimestamp records).length = records.length := by
  induction records with
  | nil => rfl
  | cons record records ih =>
    cases records with
    | nil => rfl
    | cons record' records =>
      rw [tasksOf_cons_cons, List.length_cons, ih]
      rfl

theorem work_addPlaybackTasks (s : PlaybackAction D) :
    (addPlaybackTasks s).1.length + work (addPlaybackTasks s).2 ≤ work s := by
  have hwork := work_readRecords s [] 0
  rw [List.length_nil, Nat.zero_add] at hwork
  unfold addPlaybackTasks
  split_ifs
  · change 0 + work (readRecords s [] 0).2 ≤ work s
    omega
  · exact hwork

theorem effort_release (y : Player D) : effort (release y) = effort y := by
  unfold release
  split_ifs <;> rfl

theorem effort_step {y : Player D} {op : Op} (h : Effective y op) : effort (step y op) < effort y := by
  cases op with
  | start now => exact h.elim
  | signal skipDurationS playDurationS now => exact h.elim
  | stop => exact h.elim
  | enter =>
    obtain ⟨n, hn⟩ := Nat.exists_eq_succ_of_ne_zero (Nat.ne_of_gt h)
    simp only [step, hn]
    split_ifs
    · rw [effort_release]
      simp only [effort]
      omega
    · simp only [effort]
      omega
  | read =>
    obtain ⟨n, hn⟩ := Nat.exists_eq_succ_of_ne_zero (Nat.ne_of_gt h)
    have hwork := work_addPlaybackTasks y.action
    simp only [step, hn, effort_release]
    simp only [effort, readBatch, List.length_append, length_tasksOf]
    omega
  | fire i =>
    have hi : i < y.tasks.length := h
    have herase := List.length_eraseIdx_of_lt hi
    simp only [step, List.getElem?_eq_getElem hi, effort]
    split_ifs <;> omega

/-- **A run ends**: without further signals the executor does something so often at most, and then nothing is left to
do. -/
theorem length_le_effort {y : Player D} {ops : List Op} (h : AllMeet step Effective y ops) : ops.length ≤ effort y := by
  induction ops generalizing y with
  | nil => exact Nat.zero_le _
  | cons op ops ih =>
    have hstep := effort_step h.1
    have hrest := ih h.2
    rw [List.length_cons]
    omega

end AimRT.RecordPlayback.Player
