import AimRT.RecordPlayback.RecordWrites

/-!
# The start of a signal recording

`StartSignalRecord` opens a folder on the executor and writes what the caches hold of the last seconds.

The binary search ends at the first record that is not before the start, or at the last record of all when every
record is.  So a record too many is written when all of them are too old; and the start itself is taken modulo
`2 ^ 64` when the clock has not run for as long as was asked for.

When the folder cannot be opened the task throws.  The flag was set before, and the latch on which the caller
waits is counted down behind the task only, so nobody counts it down; the same is true of a task that is dropped.
-/

namespace AimRT.RecordPlayback.RecordAction

open Lib.BinarySearch

variable {D F : Type} (env : Env D F)

/-! ### The records that are written -/

/-- The timestamps of the caches do not decrease. -/
def InOrder (s : RecordAction D F) : Prop := (cached s).Pairwise fun x y => x.logTimestamp ≤ y.logTimestamp

theorem length_cached (s : RecordAction D F) : (cached s).length = s.lastCache.length + s.curCache.length := by
  rw [cached, List.length_append]

theorem getCacheTimestamp_eq (s : RecordAction D F) (i : ℕ) :
    getCacheTimestamp s i = ((cached s)[i]?.map OneRecord.logTimestamp).getD 0 := by
  unfold getCacheTimestamp cached
  rw [List.getElem?_append]
  split_ifs <;> rfl

/-- A record of the cache is before the start. -/
def isBefore (start : UInt64) (r : OneRecord D) : Bool := r.logTimestamp < start

theorem comeFirst_isBefore {s : RecordAction D F} (h : InOrder s) (start : UInt64) :
    ComeFirst (isBefore start) (cached s) := by
  refine h.imp fun {x y} hxy hy => ?_
  simp only [isBefore, decide_eq_true_eq, UInt64.lt_iff_toNat_lt] at hy ⊢
  rw [UInt64.le_iff_toNat_le] at hxy
  omega

/-- The two loops go over the caches from the position that the search found. -/
theorem preparation_eq_drop (start : UInt64) (s : RecordAction D F) :
    preparation start s = (cached s).drop (search (fun idx => getCacheTimestamp s idx < start) 0
      (s.lastCache.length + s.curCache.length - 1)) := by
  unfold preparation cached
  dsimp only
  split_ifs with hlast
  · rw [List.drop_append_of_le_length hlast.le]
  · rw [List.drop_append, List.drop_eq_nil_of_le (not_lt.1 hlast), List.nil_append]

theorem preparation_congr {s t : RecordAction D F} (hlast : s.lastCache = t.lastCache)
    (hcur : s.curCache = t.curCache) (start : UInt64) : preparation start s = preparation start t := by
  have hread : getCacheTimestamp s = getCacheTimestamp t := by
    funext i
    rw [getCacheTimestamp_eq, getCacheTimestamp_eq, cached, cached, hlast, hcur]
  unfold preparation
  rw [hread, hlast, hcur]

/-- **What the start writes** of caches in order: all but the records before the start, and the last one in any
case. -/
theorem preparation_eq {s : RecordAction D F} (h : InOrder s) (start : UInt64) :
    preparation start s =
      (cached s).drop (min (countFirst (isBefore start) (cached s)) ((cached s).length - 1)) := by
  rw [preparation_eq_drop, search_list (comeFirst_isBefore h start)]
  · rw [length_cached]
  · rw [length_cached]
    omega
  · intro i hi
    rw [getCacheTimestamp_eq, List.getElem?_eq_getElem hi]
    rfl

/-- The cached records of the last seconds: the sum is one of numbers, so nothing wraps around. -/
def ofLast (now preparationDurationS : UInt64) (r : OneRecord D) : Bool :=
  now.toNat ≤ r.logTimestamp.toNat + preparationDurationS.toNat * 1000000000

/-- The records that the start asks for, as the clock tells. -/
def requested (now preparationDurationS : UInt64) (s : RecordAction D F) : List (OneRecord D) :=
  (cached s).filter (ofLast now preparationDurationS)

/-- The start of the preparation, as the code computes it. -/
def startOf (now preparationDurationS : UInt64) : UInt64 := now - preparationDurationS * 1000000000

theorem toNat_startOf {now preparationDurationS : UInt64}
    (h : preparationDurationS.toNat * 1000000000 ≤ now.toNat) :
    (startOf now preparationDurationS).toNat = now.toNat - preparationDurationS.toNat * 1000000000 := by
  have hnow := now.toNat_lt
  have hmul : (preparationDurationS * 1000000000).toNat = preparationDurationS.toNat * 1000000000 := by
    rw [UInt64.toNat_mul]
    exact Nat.mod_eq_of_lt (lt_of_le_of_lt h hnow)
  rw [startOf, UInt64.toNat_sub_of_le _ _ (UInt64.le_iff_toNat_le.2 (by rwa [hmul])), hmul]

/-- The start is right about the caches: the clock has run for long enough, and the newest record is not too old;
or it has not, and the start that wrapped around is not behind the oldest record, or there is no other one. -/
def StartsRight (now preparationDurationS : UInt64) (s : RecordAction D F) : Prop :=
  ∀ oldest ∈ (cached s).head?, ∀ newest ∈ (cached s).getLast?,
    if preparationDurationS.toNat * 1000000000 ≤ now.toNat then
      now.toNat ≤ newest.logTimestamp.toNat + preparationDurationS.toNat * 1000000000
    else (cached s).length = 1 ∨ startOf now preparationDurationS ≤ oldest.logTimestamp

theorem comeFirst_not_ofLast {s : RecordAction D F} (h : InOrder s) (now preparationDurationS : UInt64) :
    ComeFirst (fun r => !ofLast now preparationDurationS r) (cached s) := by
  refine h.imp fun {x y} hxy hy => ?_
  simp only [ofLast, Bool.not_eq_true', decide_eq_false_iff_not, not_le] at hy ⊢
  rw [UInt64.le_iff_toNat_le] at hxy
  omega

theorem requested_eq {s : RecordAction D F} (h : InOrder s) (now preparationDurationS : UInt64) :
    requested now preparationDurationS s =
      (cached s).drop (countFirst (fun r => !ofLast now preparationDurationS r) (cached s)) := by
  rw [← filter_eq_drop (comeFirst_not_ofLast h now preparationDurationS)]
  simp only [Bool.not_not]
  rfl

theorem drop_eq_drop_iff {A : Type} {l : List A} {m n : ℕ} (hm : m ≤ l.length) (hn : n ≤ l.length) :
    l.drop m = l.drop n ↔ m = n := by
  refine ⟨fun h => ?_, fun h => by rw [h]⟩
  have hlength := congrArg List.length h
  rw [List.length_drop, List.length_drop] at hlength
  omega

/-- Where the clock has run for long enough, a record is before the start when it is too old. -/
theorem isBefore_startOf {now preparationDurationS : UInt64}
    (h : preparationDurationS.toNat * 1000000000 ≤ now.toNat) :
    isBefore (startOf now preparationDurationS) = fun r : OneRecord D => !ofLast now preparationDurationS r := by
  funext r
  have hstart := toNat_startOf h
  rw [Bool.eq_iff_iff]
  simp only [isBefore, ofLast, decide_eq_true_eq, Bool.not_eq_true', decide_eq_false_iff_not, UInt64.lt_iff_toNat_lt]
  omega

/-- **The records that are written are those asked for** exactly when the start is right about the caches. -/
theorem preparation_eq_requested_iff {s : RecordAction D F} (h : InOrder s) (now preparationDurationS : UInt64) :
    preparation (startOf now preparationDurationS) s = requested now preparationDurationS s ↔
      StartsRight now preparationDurationS s := by
  have hcount : ∀ before : OneRecord D → Bool, countFirst before (cached s) ≤ (cached s).length :=
    fun before => countFirst_le _
  have hfirst := comeFirst_isBefore h (startOf now preparationDurationS)
  have hold := comeFirst_not_ofLast h now preparationDurationS
  rw [preparation_eq h, requested_eq h, drop_eq_drop_iff (by omega) (hcount _), StartsRight]
  by_cases hempty : cached s = []
  · simp [hempty, countFirst]
  have hpos : 0 < (cached s).length := List.length_pos_iff.2 hempty
  have hhead : (cached s).head? = some (cached s)[0] := by rw [List.head?_eq_getElem?, List.getElem?_eq_getElem hpos]
  have hlt : (cached s).length - 1 < (cached s).length := by omega
  have hlast : (cached s).getLast? = some ((cached s)[(cached s).length - 1]) := by
    rw [List.getLast?_eq_getElem?, List.getElem?_eq_getElem hlt]
  have hold0 := before_getElem_iff hold hpos
  have hlastold := before_getElem_iff hold hlt
  have hfirst0 := before_getElem_iff hfirst hpos
  have hclock : preparationDurationS.toNat * 1000000000 ≤ now.toNat →
      countFirst (isBefore (startOf now preparationDurationS)) (cached s) =
        countFirst (fun r => !ofLast now preparationDurationS r) (cached s) :=
    fun hclock => by rw [isBefore_startOf hclock]
  simp only [Option.mem_def, hhead, hlast, Option.some.injEq, forall_eq']
  generalize countFirst (fun r => !ofLast now preparationDurationS r) (cached s) = old at *
  generalize countFirst (isBefore (startOf now preparationDurationS)) (cached s) = first at *
  simp only [ofLast, Bool.not_eq_true', decide_eq_false_iff_not, not_le] at hold0 hlastold
  simp only [isBefore, decide_eq_true_eq] at hfirst0
  split_ifs with hlong
  · have hsame := hclock hlong
    omega
  · rw [← UInt64.not_lt, hfirst0]
    omega

/-! ### The caches after a start -/

theorem writeCaches_caches (start : UInt64) (s : RecordAction D F) :
    (writeCaches env start s).lastCache = [] ∧ (writeCaches env start s).curCache = [] := by
  unfold writeCaches
  split_ifs with hempty
  · exact ⟨List.length_eq_zero_iff.1 (by omega), List.length_eq_zero_iff.1 (by omega)⟩
  · exact ⟨rfl, rfl⟩

theorem passed_writeCaches (start : UInt64) (s : RecordAction D F) :
    passed (writeCaches env start s).log = passed s.log ++ preparation start s := by
  unfold writeCaches
  split_ifs with hempty
  · have hnil : cached s = [] := List.length_eq_zero_iff.1 (by rw [length_cached]; exact hempty)
    rw [preparation_eq_drop, hnil, List.drop_nil, List.append_nil]
  · exact passed_foldl_addRecordImpl env _ s

/-- The reading of the clock behind the opening of the folder. -/
def startNow (s : RecordAction D F) : UInt64 := env.curTimestampNs (openNewFolderToRecord env (flagged s)).2.calls

/-- A start that tells a folder has opened it, and then written the caches. -/
theorem startTask_of_some {preparationDurationS recordDurationS : UInt64} {s s' : RecordAction D F} {folder : String}
    {taskEnd : TaskEnd} (h : startTask env preparationDurationS recordDurationS s = (taskEnd, some folder, s')) :
    s.state = .start ∧ s.recordingFlag = false ∧ (openNewFolderToRecord env (flagged s)).1 = true ∧
      taskEnd = .returned ∧ folder = (openNewFolderToRecord env (flagged s)).2.realBagPath ∧
      s' = startAt env (startNow env s) preparationDurationS recordDurationS
        (called (openNewFolderToRecord env (flagged s)).2) := by
  unfold startTask at h
  split_ifs at h with hidle
  · unfold startNow
    cases hfolder : openNewFolderToRecord env (flagged s) with
    | mk ret opened =>
      rw [hfolder] at h
      cases ret with
      | true =>
        cases h
        exact ⟨hidle.1, hidle.2, rfl, rfl, rfl, rfl⟩
      | false => cases h
  · cases h

/-- **The preparation of a start.**  For any caches in order: a start that succeeds writes the records of the last
seconds, each once and in the order of the caches, and clears the caches, exactly when it is right about them. -/
theorem start_writes_requested_iff {preparationDurationS recordDurationS : UInt64} {s s' : RecordAction D F}
    {folder : String} {taskEnd : TaskEnd} (horder : InOrder s)
    (h : startTask env preparationDurationS recordDurationS s = (taskEnd, some folder, s')) :
    (passed s'.log = passed s.log ++ requested (startNow env s) preparationDurationS s ∧
        s'.lastCache = [] ∧ s'.curCache = []) ↔ StartsRight (startNow env s) preparationDurationS s := by
  obtain ⟨-, -, -, -, -, rfl⟩ := startTask_of_some env h
  have hframe := openNewFolderToRecord_frame env (flagged s)
  have hprep : ∀ start stop, preparation start { called (openNewFolderToRecord env (flagged s)).2 with
      stopRecordTimestamp := stop } = preparation start s := by
    intro start stop
    exact preparation_congr hframe.lastCache hframe.curCache start
  have hpassed : passed (openNewFolderToRecord env (flagged s)).2.log = passed s.log :=
    passed_openNewFolderToRecord env (flagged s)
  unfold startAt
  rw [and_iff_left (writeCaches_caches env _ _), passed_writeCaches, hprep]
  dsimp only [called]
  rw [hpassed, List.append_cancel_left_eq]
  exact preparation_eq_requested_iff horder _ _

/-- A signal mode that is idle, with one record at a time in its caches. -/
def idle (times : List UInt64) : RecordAction ℕ (ℕ × ℕ) where
  options := { mode := .signal }
  state := .start
  maxBagSize := 1048576
  estimatedOverhead := (3, 2)
  curCache := times.map fun t =>
    { topicIndex := 0, logTimestamp := t, pubTimestamp := 0, pubSequence := 0, buffer := 0 }

/-- The caches hold a record of the time zero.  Five seconds later one second is asked for, and the record is
written. -/
theorem not_start_writes_requested :
    let env := quietEnv (fun _ => 5000000000) fun _ _ => false
    InOrder (idle [0]) ∧ (startTask env 1 0 (idle [0])).2.1.isSome ∧
      passed (startTask env 1 0 (idle [0])).2.2.log ≠ requested (startNow env (idle [0])) 1 (idle [0]) := by
  refine ⟨List.pairwise_singleton _ _, ?_, ?_⟩ <;> decide

/-- Of two records the newer one is within the second that is asked for. -/
theorem start_writes_newer :
    let s := idle [0, 4500000000]
    passed (startTask (quietEnv (fun _ => 5000000000) fun _ _ => false) 1 0 s).2.2.log = [] ++ s.curCache.drop 1 := by
  intro s
  have horder : InOrder s := by
    unfold InOrder
    decide
  have hright : StartsRight 5000000000 1 s := by
    rintro oldest - newest hn
    obtain rfl := Option.some.inj hn
    rw [if_pos (by decide)]
    decide
  exact ((start_writes_requested_iff (quietEnv (fun _ => 5000000000) fun _ _ => false) horder rfl).2 hright).1

/-! ### A start that fails -/

/-- The folder of the current second is not there and can be created. -/
def FolderOpens (s : RecordAction D F) : Prop :=
  env.pathExists (s.calls + 1) (newFolder env s) = false ∧ env.createDirectories (s.calls + 2) (newFolder env s) = true

/-- The first file of the folder opens. -/
def McapOpens (s : RecordAction D F) : Prop :=
  env.openMcap (s.calls + 4) ⟨newFolder env s, mcapFileName env (env.curTimestampNs (s.calls + 3))⟩ = true

/-- The executor drops the task, or runs it in a state in which the folder cannot be opened. -/
def Fails : Option (RecordAction D F) → Prop
  | none => True
  | some found => found.state = .start ∧ found.recordingFlag = false ∧ ¬FolderOpens env found

/-- The first thing done to the files is that a folder is created, of which the caller is told, and a file of it
opened. -/
def RecordsToNewFolder (found after : RecordAction D F) (filefolder : Option String) : Prop :=
  after.recordingFlag = true ∧ ∃ path timestamp,
    found.log ++ [.created path.folder, .opened path timestamp true] <+: after.log ∧ filefolder = some path.folder

/-- **A failed start changes nothing**: when it fails, it returns false, the flag is down, the caches are kept and
the task throws nothing; and it returns true only when a new folder is recorded to. -/
def StartsOrFails (preparationDurationS recordDurationS : UInt64) (found : Option (RecordAction D F))
    (s : RecordAction D F) : Prop :=
  let result := startSignalRecord env preparationDurationS recordDurationS found s
  (Fails env found →
    (∃ filefolder, result.1 = .returned false filefolder) ∧ result.2.recordingFlag = false ∧
      cached result.2 = cached (found.getD s) ∧
      ∀ s' ∈ found, (startTask env preparationDurationS recordDurationS s').1 = .returned) ∧
  ∀ filefolder, result.1 = .returned true filefolder →
    ∃ s' ∈ found, RecordsToNewFolder s' result.2 filefolder

theorem openNewFolderToRecord_of_opens {s : RecordAction D F} (h : FolderOpens env s) :
    openNewFolderToRecord env s = (true, startFolder env (newFolder env s) s) := by
  simp [openNewFolderToRecord, h.1, h.2]

theorem openNewFolderToRecord_of_not_opens {s : RecordAction D F} (h : ¬FolderOpens env s) :
    (openNewFolderToRecord env s).1 = false := by
  unfold openNewFolderToRecord
  split_ifs with hexists hcreate
  · rfl
  · exact absurd ⟨Bool.eq_false_iff.2 hexists, hcreate⟩ h
  · rfl

/-- The opening of the first file is the first thing that is done to the files of a new folder. -/
theorem startFolder_log (folder : String) (s : RecordAction D F) :
    s.log ++ [Event.created folder, Event.opened ⟨folder, mcapFileName env (env.curTimestampNs (s.calls + 3))⟩
      (env.curTimestampNs (s.calls + 3))
      (env.openMcap (s.calls + 4) ⟨folder, mcapFileName env (env.curTimestampNs (s.calls + 3))⟩)] <+:
      (startFolder env folder s).log := by
  have h := openNewMcapToRecord_log env (env.curTimestampNs (s.calls + 3)) (enterFolder folder s)
  rwa [enterFolder, List.append_assoc, List.singleton_append] at h

theorem writeCaches_grows (start : UInt64) (s : RecordAction D F) :
    (writeCaches env start s).recordingFlag = s.recordingFlag ∧ s.log <+: (writeCaches env start s).log := by
  unfold writeCaches
  split_ifs
  · exact ⟨rfl, List.prefix_refl _⟩
  · have hframe := foldl_addRecordImpl_frame env (preparation start s) s
    exact ⟨hframe.recordingFlag, hframe.log⟩

/-- The task of a start whose folder opens. -/
theorem startTask_of_opens {s : RecordAction D F} (hstate : s.state = .start) (hidle : s.recordingFlag = false)
    (hopens : FolderOpens env s) (preparationDurationS recordDurationS : UInt64) :
    startTask env preparationDurationS recordDurationS s =
      (.returned, some (newFolder env s),
        startAt env (startNow env s) preparationDurationS recordDurationS
          (called (startFolder env (newFolder env s) (flagged s)))) := by
  have hfolder : openNewFolderToRecord env (flagged s) = (true, startFolder env (newFolder env s) (flagged s)) :=
    openNewFolderToRecord_of_opens env hopens
  unfold startNow startTask
  rw [if_pos ⟨hstate, hidle⟩, hfolder]
  dsimp only
  rw [startFolder_realBagPath]

/-- The task of a start whose folder does not open. -/
theorem startTask_of_not_opens {s : RecordAction D F} (hstate : s.state = .start) (hidle : s.recordingFlag = false)
    (hopens : ¬FolderOpens env s) (preparationDurationS recordDurationS : UInt64) :
    (startTask env preparationDurationS recordDurationS s).1 = .threw := by
  have hfolder : (openNewFolderToRecord env (flagged s)).1 = false := openNewFolderToRecord_of_not_opens env hopens
  unfold startTask
  rw [if_pos ⟨hstate, hidle⟩]
  cases hopen : openNewFolderToRecord env (flagged s) with
  | mk ret opened =>
    rw [hopen] at hfolder
    cases hfolder
    rfl

/-- The log behind a start whose folder opens. -/
theorem startAt_log (now preparationDurationS recordDurationS : UInt64) (s : RecordAction D F) :
    (startAt env now preparationDurationS recordDurationS s).recordingFlag = s.recordingFlag ∧
      s.log <+: (startAt env now preparationDurationS recordDurationS s).log :=
  writeCaches_grows env _ _

theorem second_eq_of_begins {A : Type} {l m : List A} {a b c d : A} (hab : l ++ [a, b] <+: m)
    (hcd : l ++ [c, d] <+: m) : b = d := by
  have h := List.prefix_of_prefix_length_le hab hcd (by simp)
  rw [List.prefix_append_right_inj] at h
  simp only [List.cons_prefix_cons, List.prefix_nil, and_true] at h
  exact h.2

/-- The folder of the second is there from the first start on. -/
def sameSecond : Env ℕ (ℕ × ℕ) := quietEnv (fun _ => 5000000000) fun calls _ => 2 ≤ calls

/-- What a start leaves that was stopped at once. -/
def stopped : RecordAction ℕ (ℕ × ℕ) := stopTask (startTask sameSecond 0 0 (idle [])).2.2

end AimRT.RecordPlayback.RecordAction
