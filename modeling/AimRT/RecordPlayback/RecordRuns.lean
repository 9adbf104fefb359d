import AimRT.RecordPlayback.CachedLastMsg
import AimRT.RecordPlayback.RecordChanges
import AimRT.RecordPlayback.SignalRecord
import Mathlib.Data.Multiset.AddSub

/-!
# Runs of a record action

From `Initialize` and `Start` on: publishers call `AddRecord`, the executor takes the tasks in any order, and signals
start and stop the recording.  Whatever happens, the files start with copies of the last messages, what they hold
besides is what was passed on, and every record that was accepted has been passed on, waits for the executor, is
cached or has been dropped from the caches, once.
-/

namespace AimRT.RecordPlayback

open RecordAction

variable {D F : Type} {env : Env D F}

/-! ### The action as it is configured -/

/-- The topics are numbered by their places. -/
def Numbered (topics : List (TopicMeta F)) : Prop := ∀ (id : ℕ) (t : TopicMeta F), topics[id]? = some t → t.id = id

theorem numberTopics_numbered {rest topics result : List (TopicMeta F)} (h : numberTopics topics rest = .ok result)
    (hnumbered : Numbered topics) : Numbered result := by
  induction rest generalizing topics with
  | nil =>
    cases h
    exact hnumbered
  | cons t rest ih =>
    rw [numberTopics] at h
    split_ifs at h
    refine ih h fun id t' ht' => ?_
    rw [List.getElem?_append] at ht'
    split_ifs at ht' with hlt
    · exact hnumbered id t' ht'
    · rw [List.getElem?_singleton] at ht'
      split_ifs at ht' with hzero
      cases ht'
      change topics.length = id
      omega

theorem Numbered.ids {topics : List (TopicMeta F)} (h : Numbered topics) :
    topics.map TopicMeta.id = List.range topics.length := by
  refine List.ext_getElem? fun i => ?_
  rw [List.getElem?_map]
  by_cases hi : i < topics.length
  · rw [List.getElem?_eq_getElem hi, List.getElem?_range hi, Option.map_some,
      h i _ (List.getElem?_eq_getElem hi)]
  · rw [List.getElem?_eq_none (not_lt.1 hi), List.getElem?_eq_none (by simpa using hi), Option.map_none]

theorem Numbered.inMcap_iff {topics : List (TopicMeta F)} (h : Numbered topics) (id : ℕ) :
    inMcap topics id = true ↔ id ∈ (topics.filter mcapSupports).map TopicMeta.id := by
  rw [inMcap, List.mem_map]
  constructor
  · intro hid
    cases ht : topics[id]? with
    | none =>
      rw [ht] at hid
      cases hid
    | some t =>
      rw [ht] at hid
      exact ⟨t, List.mem_filter.2 ⟨List.mem_of_getElem? ht, hid⟩, h id t ht⟩
  · rintro ⟨t, ht, rfl⟩
    obtain ⟨hmem, hsupports⟩ := List.mem_filter.1 ht
    obtain ⟨id, hid⟩ := List.mem_iff_getElem?.1 hmem
    rw [h id t hid, hid]
    exact hsupports

/-- A walk over topics that are there leaves none out. -/
theorem map_fst_filterMap {topics : List (TopicMeta F)} {ids : List ℕ} (h : ∀ id ∈ ids, id < topics.length) :
    (ids.filterMap fun id => topics[id]?.map fun t => (id, t.topicName)).map Prod.fst = ids := by
  induction ids with
  | nil => rfl
  | cons id ids ih =>
    have hid := h id List.mem_cons_self
    rw [List.filterMap_cons, List.getElem?_eq_getElem hid, Option.map_some]
    rw [List.map_cons, ih fun id' hid' => h id' (List.mem_cons_of_mem _ hid')]

/-- An unordered map is walked in some order. -/
def WalksAll (env : Env D F) : Prop := ∀ ids, (env.walk ids).Perm ids

theorem mcapInfoMap_configured (hwalk : WalksAll env) (options : Options F) {topics : List (TopicMeta F)}
    (h : Numbered topics) : ((configured env options topics : RecordAction D F).mcapInfoMap.map Prod.fst) =
      env.walk ((topics.filter mcapSupports).map TopicMeta.id) := by
  refine map_fst_filterMap fun id hid => ?_
  have hmem := (hwalk _).mem_iff.1 hid
  have hsub : id ∈ topics.map TopicMeta.id := (List.filter_sublist.map _).subset hmem
  rw [h.ids] at hsub
  exact List.mem_range.1 hsub

/-- The action as `Initialize` configures it has opened nothing and keeps nothing. -/
theorem keeping_configured (hwalk : WalksAll env) (options : Options F) {topics : List (TopicMeta F)}
    (h : Numbered topics)
    (hmcap : WritesChannels env (configured env options topics : RecordAction D F).mcapInfoMap.length) :
    Keeping env (configured env options topics) where
  wired := by
    have hkeys := mcapInfoMap_configured hwalk options h
    refine ⟨?_, fun id => ?_, fun id hid => ?_, fun id => ?_, fun path hpath => ?_⟩
    · rw [hkeys, (hwalk _).nodup_iff]
      refine List.Nodup.sublist (List.filter_sublist.map _) ?_
      rw [h.ids]
      exact List.nodup_range
    · rw [hkeys, (hwalk _).mem_iff]
      exact (h.inMcap_iff id).symm
    · change ((topics[id]?.map (runtimeInfoOf env)).getD {}).channelId = 0
      cases topics[id]? <;> rfl
    · change ((topics[id]?.map (runtimeInfoOf env)).getD {}).cacheLastMsg =
        (topics[id]?.map TopicMeta.cacheLastMsg).getD true
      cases topics[id]? <;> rfl
    · cases hpath
  lastMsg := by
    intro id _ timestamp
    change ((topics[id]?.map (runtimeInfoOf env)).getD {}).lastMsg.map _ = none
    cases topics[id]? <;> rfl
  writer := by
    intro path hpath
    cases hpath
  records := rfl
  allStart := by
    intro file hfile
    cases hfile
  mcap := hmcap

namespace RecordAction

/-! ### Where a record goes -/

/-- The records that an action has passed on or caches, each as often as it does so. -/
def known (s : RecordAction D F) : Multiset (OneRecord D) := ↑(passed s.log) + ↑(cached s)

/-- A task passes its record on or caches it, and drops the last cache at most. -/
theorem known_takeRecord (env : Env D F) (r : OneRecord D) (s : RecordAction D F) :
    ∃ dropped : Multiset (OneRecord D), known (takeRecord env r s) + dropped = known s + {r} := by
  unfold takeRecord cacheRecord
  split_ifs
  · have hframe := addRecordImpl_frame env r s
    refine ⟨0, ?_⟩
    rw [known, known, passed_addRecordImpl, cached, cached, hframe.lastCache, hframe.curCache, ← Multiset.coe_add,
      Multiset.coe_singleton]
    abel
  · refine ⟨s.lastCache, ?_⟩
    simp only [known, cached, ← Multiset.coe_add, Multiset.coe_singleton]
    rw [Multiset.coe_nil]
    abel
  · refine ⟨0, ?_⟩
    simp only [known, cached, ← Multiset.coe_add, Multiset.coe_singleton]
    abel

theorem known_stopOverdue (r : OneRecord D) (s : RecordAction D F) : known (stopOverdue r s) = known s := by
  unfold stopOverdue
  split_ifs <;> rfl

/-- A start passes on records that are cached, and drops the others. -/
theorem known_writeCaches (env : Env D F) (start : UInt64) (s : RecordAction D F) :
    ∃ dropped : Multiset (OneRecord D), known (writeCaches env start s) + dropped = known s := by
  obtain ⟨hlast, hcur⟩ := writeCaches_caches env start s
  refine ⟨(cached s).take (Lib.BinarySearch.search (fun idx => getCacheTimestamp s idx < start) 0
    (s.lastCache.length + s.curCache.length - 1)), ?_⟩
  rw [known, known, passed_writeCaches, cached, hlast, hcur, preparation_eq_drop, ← Multiset.coe_add]
  conv_rhs => rw [← List.take_append_drop (Lib.BinarySearch.search (fun idx => getCacheTimestamp s idx < start) 0
    (s.lastCache.length + s.curCache.length - 1)) (cached s), ← Multiset.coe_add]
  rw [List.append_nil, Multiset.coe_nil]
  abel

theorem known_startTask (preparationDurationS recordDurationS : UInt64) (s : RecordAction D F) :
    ∃ dropped : Multiset (OneRecord D),
      known (startTask env preparationDurationS recordDurationS s).2.2 + dropped = known s := by
  unfold startTask
  split_ifs
  · have hframe := openNewFolderToRecord_frame env (flagged s)
    have hpassed := passed_openNewFolderToRecord env (flagged s)
    cases hopen : openNewFolderToRecord env (flagged s) with
    | mk ret opened =>
      rw [hopen] at hframe hpassed
      have hknown : known opened = known s := by
        rw [known, known, hpassed, cached, cached, hframe.lastCache, hframe.curCache]
        rfl
      cases ret with
      | true =>
        obtain ⟨dropped, hdropped⟩ := known_writeCaches env
          (env.curTimestampNs opened.calls - preparationDurationS * 1000000000) { called opened with
            stopRecordTimestamp := if recordDurationS = 0 then 0
              else env.curTimestampNs opened.calls + recordDurationS * 1000000000 }
        exact ⟨dropped, hdropped.trans hknown⟩
      | false => exact ⟨0, by rw [add_zero, hknown]⟩
  · exact ⟨0, add_zero _⟩

/-! ### Openings that succeed -/

/-- All files open, and in the signal mode all folders. -/
structure Opens (env : Env D F) (mode : Mode) : Prop where
  mcap : ∀ calls path, env.openMcap calls path = true
  folder : mode = .signal → ∀ calls folder, env.pathExists calls folder = false ∧
    env.createDirectories calls folder = true

/-- What was passed on was passed on while a file was open, and one is open. -/
def Open (s : RecordAction D F) : Prop := s.writer.isSome = true ∧ passedOpen s.log = passed s.log

/-- A file is open where one is needed. -/
def Ready (s : RecordAction D F) : Prop :=
  passedOpen s.log = passed s.log ∧ (s.options.mode = .imd ∨ s.recordingFlag = true → s.writer.isSome = true)

theorem Open.ready {s : RecordAction D F} (h : Open s) : Ready s := ⟨h.2, fun _ => h.1⟩

/-- Without a recording the signal mode needs no file. -/
theorem Ready.of_not_recording {s s' : RecordAction D F} (h : Ready s) (hmode : s'.options.mode = .signal)
    (hflag : s'.recordingFlag = false) (hlog : s'.log = s.log) : Ready s' := by
  refine ⟨hlog ▸ h.1, ?_⟩
  rintro (himd | hrecording)
  · rw [hmode] at himd
    cases himd
  · rw [hflag] at hrecording
    cases hrecording

theorem open_writeRecord {s : RecordAction D F} (h : Open s) (copy : Bool) (r : OneRecord D) :
    Open (writeRecord env copy r s) := by
  have hkept := writeRecord_kept env copy r s
  refine ⟨by rw [hkept.writer, h.1], ?_⟩
  rw [passedOpen_writeRecord, passed_writeRecord, h.1, h.2]
  cases copy <;> rfl

theorem open_writeLastMsg {s : RecordAction D F} (h : Open s) (timestamp : UInt64) (id : ℕ) :
    Open (writeLastMsg env timestamp s id) := by
  unfold writeLastMsg
  split
  next m _ _ =>
    have hkeep : Open (keepLastMsg id { m with logTimestamp := timestamp } s) := h
    exact open_writeRecord hkeep true _
  next => exact h

theorem open_writeLastMsgs {s : RecordAction D F} (h : Open s) (timestamp : UInt64) :
    Open (writeLastMsgs env timestamp s) := by
  unfold writeLastMsgs
  induction s.topicOrder generalizing s with
  | nil => exact h
  | cons id ids ih => exact ih (open_writeLastMsg h timestamp id)

theorem open_openNewMcapToRecord (hopens : ∀ calls path, env.openMcap calls path = true) {s : RecordAction D F}
    (h : passedOpen s.log = passed s.log) (timestamp : UInt64) : Open (openNewMcapToRecord env timestamp s) := by
  have hopened : Open (openedMcap env timestamp s) := by
    refine ⟨rfl, ?_⟩
    simpa [openedMcap, called, logged, passedOpen] using h
  rw [openNewMcapToRecord, if_pos (hopens _ _), startMcap_eq]
  refine open_writeLastMsgs ?_ timestamp
  obtain e | ⟨file, rest, -, -, e⟩ := removeOldFile_cases (openedMcap env timestamp s)
  · rwa [e]
  · rw [e]
    refine ⟨rfl, ?_⟩
    simpa [passedOpen] using hopened.2

theorem open_startFolder (hopens : ∀ calls path, env.openMcap calls path = true) {s : RecordAction D F}
    (h : passedOpen s.log = passed s.log) (folder : String) : Open (startFolder env folder s) := by
  refine open_openNewMcapToRecord hopens ?_ _
  simpa [enterFolder, passedOpen] using h

theorem open_openNewFolderToRecord (hopens : ∀ calls path, env.openMcap calls path = true) {s : RecordAction D F}
    (h : Open s) : Open (openNewFolderToRecord env s).2 := by
  unfold openNewFolderToRecord
  split_ifs
  · exact h
  · exact open_startFolder hopens h.2 _
  · exact h

theorem open_addRecordImpl (hopens : ∀ calls path, env.openMcap calls path = true) {s : RecordAction D F}
    (h : Open s) (r : OneRecord D) : Open (addRecordImpl env r s) := by
  unfold addRecordImpl
  refine open_writeRecord ?_ false r
  split_ifs
  · have hreset : Open (resetSize env s) := h
    unfold rotate
    split_ifs
    · exact open_openNewFolderToRecord hopens hreset
    · exact open_openNewMcapToRecord hopens hreset.2 _
  · exact h

theorem open_foldl_addRecordImpl (hopens : ∀ calls path, env.openMcap calls path = true) {s : RecordAction D F}
    (h : Open s) (rs : List (OneRecord D)) : Open (rs.foldl (fun s r => addRecordImpl env r s) s) := by
  induction rs generalizing s with
  | nil => exact h
  | cons r rs ih => exact ih (open_addRecordImpl hopens h r)

theorem open_writeCaches (hopens : ∀ calls path, env.openMcap calls path = true) {s : RecordAction D F} (h : Open s)
    (start : UInt64) : Open (writeCaches env start s) := by
  unfold writeCaches
  split_ifs
  · exact h
  · exact open_foldl_addRecordImpl hopens h _

theorem ready_addRecord {s : RecordAction D F} (h : Ready s) (r : OneRecord D) : Ready (addRecord r s) := by
  unfold addRecord
  split_ifs
  · refine ⟨?_, h.2⟩
    simpa [logged, passedOpen, passed] using h.1
  · exact h

theorem ready_recordTask (hopens : ∀ calls path, env.openMcap calls path = true) {s : RecordAction D F} (h : Ready s)
    (r : OneRecord D) : Ready (recordTask env r s) := by
  unfold recordTask
  split_ifs
  · split
    next hmode => exact (open_addRecordImpl hopens ⟨h.2 (.inl hmode), h.1⟩ r).ready
    next hmode =>
      have hstop : Ready (stopOverdue r s) := by
        unfold stopOverdue
        split_ifs
        · exact h.of_not_recording hmode rfl rfl
        · exact h
      unfold takeRecord cacheRecord
      split_ifs with hflag
      · exact (open_addRecordImpl hopens ⟨hstop.2 (.inr hflag), hstop.1⟩ r).ready
      · exact hstop
      · exact hstop
  · exact h

theorem ready_startTask {s : RecordAction D F} (hopens : Opens env s.options.mode) (hmode : s.options.mode = .signal)
    (h : Ready s) (preparationDurationS recordDurationS : UInt64) :
    Ready (startTask env preparationDurationS recordDurationS s).2.2 := by
  by_cases hidle : s.state = .start ∧ s.recordingFlag = false
  · have hfolder : FolderOpens env s := ⟨(hopens.folder hmode _ _).1, (hopens.folder hmode _ _).2⟩
    rw [startTask_of_opens env hidle.1 hidle.2 hfolder]
    have hflagged : passedOpen (flagged s).log = passed (flagged s).log := h.1
    have hopen : Open (startFolder env (newFolder env s) (flagged s)) := open_startFolder hopens.mcap hflagged _
    have hready : Open { called (startFolder env (newFolder env s) (flagged s)) with
        stopRecordTimestamp := if recordDurationS = 0 then 0
          else startNow env s + recordDurationS * 1000000000 } := hopen
    exact (open_writeCaches hopens.mcap hready _).ready
  · rw [startTask, if_neg hidle]
    exact h

theorem ready_stopTask {s : RecordAction D F} (hmode : s.options.mode = .signal) (h : Ready s) :
    Ready (stopTask s) := by
  unfold stopTask
  split_ifs
  · exact h.of_not_recording hmode rfl rfl
  · exact h

end RecordAction

/-! ### Runs -/

/-- The action with the tasks that the executor has not taken yet. -/
structure Recorder (D F : Type) where
  action : RecordAction D F
  queue : List (OneRecord D) := []

namespace Recorder

/-- A publisher calls `AddRecord`, the executor runs the task of a record, whichever it takes, or a signal comes. -/
inductive Op (D : Type) where
  | publish (r : OneRecord D)
  | execute (i : ℕ)
  | start (preparationDurationS recordDurationS : UInt64)
  | stop
  deriving DecidableEq, Repr

/-- The signals are refused in the immediate mode. -/
def step (env : Env D F) (y : Recorder D F) : Op D → Recorder D F
  | .publish r =>
    { action := addRecord r y.action
      queue := if accepts y.action r then y.queue ++ [r] else y.queue }
  | .execute i =>
    match y.queue[i]? with
    | none => y
    | some r => { action := recordTask env r y.action, queue := y.queue.eraseIdx i }
  | .start preparationDurationS recordDurationS =>
    if y.action.options.mode = .signal then
      { y with action := (startTask env preparationDurationS recordDurationS y.action).2.2 }
    else y
  | .stop => if y.action.options.mode = .signal then { y with action := stopTask y.action } else y

def run (env : Env D F) (y : Recorder D F) (ops : List (Op D)) : Recorder D F := ops.foldl (step env) y

/-- A step is a row of changes of the action. -/
theorem changes_step (env : Env D F) (y : Recorder D F) (op : Op D) : Changes env y.action (step env y op).action := by
  cases op with
  | publish r => exact changes_addRecord env r y.action
  | execute i =>
    cases hr : y.queue[i]? with
    | none =>
      simp only [step, hr]
      exact Changes.refl _
    | some r =>
      simp only [step, hr]
      exact changes_recordTask env r y.action
  | start preparationDurationS recordDurationS =>
    unfold step
    split_ifs
    · exact changes_startTask env preparationDurationS recordDurationS y.action
    · exact Changes.refl _
  | stop =>
    unfold step
    split_ifs
    · exact changes_stopTask env y.action
    · exact Changes.refl _

/-- The messages of records that `mcap` has a format for. -/
def ownMessages (env : Env D F) (s : RecordAction D F) (rs : List (OneRecord D)) : List (Message D) :=
  (rs.filter fun r => inMcap s.topics r.topicIndex).map (ownMessage env s.mcapInfoMap)

/-- What holds in every state of a run. -/
structure Inv (env : Env D F) (s₀ : RecordAction D F) (y : Recorder D F) : Prop where
  keeping : Keeping env y.action
  fixed : Fixed s₀ y.action
  accounted : ∃ dropped : Multiset (OneRecord D),
    known y.action + (y.queue : Multiset (OneRecord D)) + dropped = acceptedOf y.action.log ∧
      (y.action.options.mode = .imd → dropped = 0 ∧ cached y.action = [])
  ready : Opens env y.action.options.mode → Ready y.action

theorem acceptedOf_addRecord (r : OneRecord D) (s : RecordAction D F) :
    acceptedOf (addRecord r s).log = acceptedOf s.log ++ (if accepts s r then [r] else []) := by
  unfold addRecord
  split_ifs <;> simp [logged, acceptedOf]

theorem known_addRecord (r : OneRecord D) (s : RecordAction D F) : known (addRecord r s) = known s := by
  unfold addRecord
  split_ifs
  · simp [known, cached, logged, passed]
  · rfl

theorem Inv.publish {s₀ : RecordAction D F} {y : Recorder D F} (h : Inv env s₀ y) (r : OneRecord D) :
    Inv env s₀ (step env y (.publish r)) where
  keeping := h.keeping.addRecord r
  fixed := h.fixed.trans (changes_addRecord env r y.action).fixed
  accounted := by
    obtain ⟨dropped, hsum, himd⟩ := h.accounted
    refine ⟨dropped, ?_, ?_⟩
    · change known (addRecord r y.action) + _ + _ = (acceptedOf (addRecord r y.action).log : Multiset _)
      rw [known_addRecord, acceptedOf_addRecord, ← Multiset.coe_add, ← hsum, step]
      split_ifs
      · rw [← Multiset.coe_add]
        abel
      · rw [Multiset.coe_nil, add_zero]
    · obtain ⟨runtime, log, e⟩ := addRecord_eq r y.action
      simp only [step, e]
      exact himd
  ready := by
    intro hopens
    have hfixed := (changes_addRecord env r y.action).fixed
    change Opens env (addRecord r y.action).options.mode at hopens
    rw [hfixed.options] at hopens
    exact ready_addRecord (h.ready hopens) r

/-- A task of the executor passes its record on or caches it. -/
theorem known_recordTask (env : Env D F) {s : RecordAction D F} (hstate : s.state = .start) (r : OneRecord D) :
    ∃ dropped : Multiset (OneRecord D), known (recordTask env r s) + dropped = known s + {r} ∧
      (s.options.mode = .imd → dropped = 0 ∧ cached (recordTask env r s) = cached s) := by
  unfold recordTask
  rw [if_pos hstate]
  split
  · have hframe := addRecordImpl_frame env r s
    have hcached : cached (addRecordImpl env r s) = cached s := by
      rw [cached, cached, hframe.lastCache, hframe.curCache]
    refine ⟨0, ?_, fun _ => ⟨rfl, hcached⟩⟩
    rw [known, known, hcached, passed_addRecordImpl, ← Multiset.coe_add, Multiset.coe_singleton]
    abel
  next hmode =>
    obtain ⟨dropped, hdropped⟩ := known_takeRecord env r (stopOverdue r s)
    rw [known_stopOverdue] at hdropped
    refine ⟨dropped, hdropped, fun himd => ?_⟩
    rw [hmode] at himd
    cases himd

theorem acceptedOf_takeRecord (env : Env D F) (r : OneRecord D) (s : RecordAction D F) :
    acceptedOf (takeRecord env r s).log = acceptedOf s.log := by
  unfold takeRecord cacheRecord
  split_ifs
  · exact (addRecordImpl_frame env r s).accepted
  · rfl
  · rfl

theorem acceptedOf_recordTask (env : Env D F) (r : OneRecord D) (s : RecordAction D F) :
    acceptedOf (recordTask env r s).log = acceptedOf s.log := by
  unfold recordTask
  split_ifs
  · split
    · exact (addRecordImpl_frame env r s).accepted
    · have hstop : acceptedOf (stopOverdue r s).log = acceptedOf s.log := by
        unfold stopOverdue
        split_ifs <;> rfl
      rw [acceptedOf_takeRecord, hstop]
  · rfl

theorem acceptedOf_writeCaches (env : Env D F) (start : UInt64) (s : RecordAction D F) :
    acceptedOf (writeCaches env start s).log = acceptedOf s.log := by
  unfold writeCaches
  split_ifs
  · rfl
  · exact (foldl_addRecordImpl_frame env _ s).accepted

theorem acceptedOf_startTask (env : Env D F) (preparationDurationS recordDurationS : UInt64) (s : RecordAction D F) :
    acceptedOf (startTask env preparationDurationS recordDurationS s).2.2.log = acceptedOf s.log := by
  unfold startTask
  split_ifs
  · have hframe := openNewFolderToRecord_frame env (flagged s)
    cases hopen : openNewFolderToRecord env (flagged s) with
    | mk ret opened =>
      rw [hopen] at hframe
      cases ret with
      | true =>
        change acceptedOf (startAt env _ _ _ (called opened)).log = _
        exact (acceptedOf_writeCaches env _ _).trans hframe.accepted
      | false => exact hframe.accepted
  · rfl

theorem acceptedOf_stopTask (s : RecordAction D F) : acceptedOf (stopTask s).log = acceptedOf s.log := by
  unfold stopTask
  split_ifs <;> rfl

theorem coe_eraseIdx_add {A : Type} {l : List A} {i : ℕ} {a : A} (h : l[i]? = some a) :
    (↑(l.eraseIdx i) : Multiset A) + {a} = ↑l := by
  obtain ⟨hi, rfl⟩ := List.getElem?_eq_some_iff.1 h
  rw [add_comm, ← Multiset.coe_singleton, Multiset.coe_add, Multiset.coe_eq_coe]
  exact List.getElem_cons_eraseIdx_perm hi

theorem Inv.execute {s₀ : RecordAction D F} (hstart : s₀.state = .start) {y : Recorder D F} (h : Inv env s₀ y) (i : ℕ) :
    Inv env s₀ (step env y (.execute i)) := by
  cases hr : y.queue[i]? with
  | none => simpa only [step, hr] using h
  | some r =>
    have hfixed := (changes_recordTask env r y.action).fixed
    obtain ⟨dropped, hsum, himd⟩ := h.accounted
    obtain ⟨dropped', hsum', himd'⟩ := known_recordTask env (h.fixed.state.trans hstart) r
    simp only [step, hr]
    refine ⟨h.keeping.recordTask r, h.fixed.trans hfixed, ⟨dropped + dropped', ?_, fun hmode => ?_⟩, fun hopens => ?_⟩
    · dsimp only
      rw [acceptedOf_recordTask, ← hsum, ← coe_eraseIdx_add hr]
      calc known (recordTask env r y.action) + ↑(y.queue.eraseIdx i) + (dropped + dropped')
          = known (recordTask env r y.action) + dropped' + ↑(y.queue.eraseIdx i) + dropped := by abel
        _ = known y.action + (↑(y.queue.eraseIdx i) + {r}) + dropped := by rw [hsum']; abel
    · dsimp only at hmode ⊢
      rw [hfixed.options] at hmode
      rw [(himd hmode).1, (himd' hmode).1, (himd' hmode).2, (himd hmode).2]
      exact ⟨add_zero _, rfl⟩
    · dsimp only at hopens
      rw [hfixed.options] at hopens
      exact ready_recordTask hopens.mcap (h.ready hopens) r

/-- A signal of the signal mode. -/
theorem Inv.signal {s₀ : RecordAction D F} {y : Recorder D F} (h : Inv env s₀ y) {s : RecordAction D F}
    (hmode : y.action.options.mode = .signal) (hkeeping : Keeping env s) (hfixed : Fixed y.action s)
    (hknown : ∃ dropped : Multiset (OneRecord D), known s + dropped = known y.action)
    (haccepted : acceptedOf s.log = acceptedOf y.action.log)
    (hready : Opens env y.action.options.mode → Ready y.action → Ready s) : Inv env s₀ { y with action := s } where
  keeping := hkeeping
  fixed := h.fixed.trans hfixed
  accounted := by
    obtain ⟨dropped, hsum, -⟩ := h.accounted
    obtain ⟨dropped', hsum'⟩ := hknown
    refine ⟨dropped + dropped', ?_, fun himd => ?_⟩
    · dsimp only
      rw [haccepted, ← hsum, ← hsum']
      abel
    · dsimp only at himd
      rw [hfixed.options, hmode] at himd
      cases himd
  ready := by
    intro hopens
    dsimp only at hopens
    rw [hfixed.options] at hopens
    exact hready hopens (h.ready hopens)

theorem known_stopTask (s : RecordAction D F) : known (stopTask s) = known s := by
  unfold stopTask
  split_ifs <;> rfl

theorem Inv.step {s₀ : RecordAction D F} (hstart : s₀.state = .start) {y : Recorder D F} (h : Inv env s₀ y)
    (op : Op D) : Inv env s₀ (step env y op) := by
  cases op with
  | publish r => exact h.publish r
  | execute i => exact h.execute hstart i
  | start preparationDurationS recordDurationS =>
    unfold Recorder.step
    split_ifs with hmode
    · exact h.signal hmode (h.keeping.startTask _ _) (changes_startTask env _ _ _).fixed (known_startTask _ _ _)
        (acceptedOf_startTask env _ _ _) fun hopens hready => ready_startTask hopens hmode hready _ _
    · exact h
  | stop =>
    unfold Recorder.step
    split_ifs with hmode
    · exact h.signal hmode h.keeping.stopTask (changes_stopTask env _).fixed ⟨0, by rw [add_zero, known_stopTask]⟩
        (acceptedOf_stopTask _) fun _ hready => ready_stopTask hmode hready
    · exact h

theorem Inv.run {s₀ : RecordAction D F} (hstart : s₀.state = .start) {y : Recorder D F} (h : Inv env s₀ y)
    (ops : List (Op D)) : Inv env s₀ (run env y ops) := by
  induction ops generalizing y with
  | nil => exact h
  | cons op ops ih => exact ih (h.step hstart op)

/-! ### The first state -/

/-- The action that is initialized is the configured one, and in the immediate mode a folder was opened. -/
theorem of_initializeAction {options : Options F} {s₀ : RecordAction D F}
    (h : initializeAction env options = .ok s₀) : ∃ (topicMetaList topics : List (TopicMeta F)),
      options.topicMetaList.mapM (checkTopicMeta env) = .ok topicMetaList ∧
      numberTopics [] topicMetaList = .ok topics ∧
      (s₀ = configured env { options with topicMetaList := topicMetaList } topics ∧ options.mode = .signal ∨
        s₀ = (openNewFolderToRecord env (configured env { options with topicMetaList := topicMetaList } topics)).2 ∧
          (openNewFolderToRecord env (configured env { options with topicMetaList := topicMetaList } topics)).1 =
            true) := by
  unfold initializeAction at h
  cases hcheck : options.topicMetaList.mapM (checkTopicMeta env) with
  | error e =>
    rw [hcheck] at h
    cases h
  | ok topicMetaList =>
    rw [hcheck] at h
    cases hnumber : numberTopics [] topicMetaList with
    | error e =>
      simp only [hnumber, bind, Except.bind] at h
      cases h
    | ok topics =>
      simp only [hnumber, bind, Except.bind] at h
      refine ⟨topicMetaList, topics, rfl, hnumber, ?_⟩
      cases hmode : options.mode with
      | signal =>
        simp only [hmode] at h
        cases h
        exact .inl ⟨rfl, rfl⟩
      | imd =>
        simp only [hmode] at h
        split_ifs at h with hfolder
        cases h
        exact .inr ⟨rfl, hfolder⟩

theorem numbered_nil : Numbered ([] : List (TopicMeta F)) := fun id t ht => by simp at ht

/-- The first state of a run. -/
def opened (s₀ : RecordAction D F) : Recorder D F := { action := start s₀ }

theorem inv_opened (hwalk : WalksAll env) {options : Options F} {s₀ : RecordAction D F}
    (h : initializeAction env options = .ok s₀) (hmcap : WritesChannels env s₀.mcapInfoMap.length) :
    Inv env (start s₀) (opened s₀) ∧ s₀.topicOrder.Perm (List.range s₀.topics.length) := by
  obtain ⟨topicMetaList, topics, -, hnumber, hs₀⟩ := of_initializeAction h
  have hnumbered : Numbered topics := numberTopics_numbered hnumber numbered_nil
  generalize hoptions : ({ options with topicMetaList := topicMetaList } : Options F) = options' at hs₀
  have hperm : (env.walk (topics.map TopicMeta.id)).Perm (List.range topics.length) := by
    rw [← hnumbered.ids]
    exact hwalk _
  obtain ⟨rfl, hmode⟩ | ⟨rfl, hfolder⟩ := hs₀
  · have hkeeping := keeping_configured hwalk options' hnumbered hmcap
    refine ⟨⟨hkeeping.same ⟨rfl, rfl, rfl, rfl, rfl, rfl, .inl rfl⟩, Fixed.refl _, ⟨0, rfl, fun _ => ⟨rfl, rfl⟩⟩,
      fun hopens => ⟨rfl, ?_⟩⟩, hperm⟩
    rintro (himd | hflag)
    · change options'.mode = .imd at himd
      rw [← hoptions, hmode] at himd
      cases himd
    · cases hflag
  · have hframe := openNewFolderToRecord_frame env (configured env options' topics : RecordAction D F)
    rw [hframe.mcapInfoMap] at hmcap
    have hkeeping := (keeping_configured hwalk options' hnumbered hmcap).openNewFolderToRecord
    have hpassed := passed_openNewFolderToRecord env (configured env options' topics : RecordAction D F)
    have hcached : cached (openNewFolderToRecord env (configured env options' topics : RecordAction D F)).2 = [] := by
      rw [cached, hframe.lastCache, hframe.curCache]
      rfl
    refine ⟨⟨hkeeping.same ⟨rfl, rfl, rfl, rfl, rfl, rfl, .inl rfl⟩, Fixed.refl _, ⟨0, ?_, fun _ => ⟨rfl, hcached⟩⟩,
      fun hopens => ?_⟩, ?_⟩
    · have hknown : known (openNewFolderToRecord env (configured env options' topics : RecordAction D F)).2 = 0 := by
        rw [known, hpassed, hcached]
        rfl
      change known (openNewFolderToRecord env _).2 + _ + _ =
        (↑(acceptedOf (openNewFolderToRecord env _).2.log) : Multiset _)
      rw [hknown, hframe.accepted]
      rfl
    · have hopen : Open (openNewFolderToRecord env (configured env options' topics : RecordAction D F)).2 := by
        unfold openNewFolderToRecord at hfolder ⊢
        split_ifs at hfolder ⊢
        exact open_startFolder hopens.mcap rfl _
      exact Open.ready hopen
    · rw [hframe.topicOrder, hframe.topics]
      exact hperm

/-! ### What the files hold -/

/-- What the files of a run from an initialized action on hold. -/
structure FilesHold (env : Env D F) (s₀ : RecordAction D F) (y : Recorder D F) : Prop where
  /-- Each topic has its place in the order of the copies. -/
  order : s₀.topicOrder.Perm (List.range s₀.topics.length)
  /-- Each file starts with the copies of the last messages accepted before it was opened. -/
  copies : ∀ file ∈ (history y.action.log).files,
    StartsWithCopies env s₀.mcapInfoMap (wanted s₀) s₀.topicOrder file
  /-- What is no copy is the message of a record that was passed on while a file was open, once. -/
  records : recordsOf (history y.action.log).files = ownMessages env s₀ (passedOpen y.action.log)
  /-- That is so of all records that were passed on when all files and folders open. -/
  passed : Opens env s₀.options.mode → passedOpen y.action.log = passed y.action.log
  /-- A record that was accepted is passed on, cached or waiting, or it was dropped from the caches. -/
  accounted : ∃ dropped : Multiset (OneRecord D),
    known y.action + (y.queue : Multiset (OneRecord D)) + dropped = acceptedOf y.action.log ∧
      (s₀.options.mode = .imd → dropped = 0 ∧ cached y.action = [])
  /-- The executor passes on a record that it takes in the immediate mode or during a recording. -/
  taken : ∀ i r, y.queue[i]? = some r →
    s₀.options.mode = .imd ∨ y.action.recordingFlag = true ∧ overdue y.action r = false →
      RecordPlayback.passed (step env y (.execute i)).action.log = RecordPlayback.passed y.action.log ++ [r]

theorem passed_recordTask {s : RecordAction D F} (hstate : s.state = .start) {r : OneRecord D}
    (h : s.options.mode = .imd ∨ s.recordingFlag = true ∧ overdue s r = false) :
    RecordPlayback.passed (recordTask env r s).log = RecordPlayback.passed s.log ++ [r] := by
  unfold recordTask
  rw [if_pos hstate]
  split
  · exact passed_addRecordImpl env r s
  next hmode =>
    rcases h with himd | ⟨hflag, hdue⟩
    · rw [hmode] at himd
      cases himd
    · simp only [stopOverdue, hdue, takeRecord, hflag, if_true, Bool.false_eq_true, if_false]
      exact passed_addRecordImpl env r s

/-- **The cached last messages.**  From every configuration on that is initialized, in every state of every run: each
file that was opened starts with one copy of the last message accepted of each topic that caches it and that `mcap` has
a format for, if there is one, and what the files hold besides are the records that were passed on, each once and with
its own data. -/
theorem filesHold_run (hwalk : WalksAll env) (options : Options F) {s₀ : RecordAction D F}
    (h : initializeAction env options = .ok s₀) (hmcap : WritesChannels env s₀.mcapInfoMap.length)
    (ops : List (Op D)) : FilesHold env s₀ (run env (opened s₀) ops) := by
  obtain ⟨hinv, horder⟩ := inv_opened hwalk h hmcap
  have hrun := hinv.run rfl ops
  have hmode : (run env (opened s₀) ops).action.options.mode = s₀.options.mode := by rw [hrun.fixed.options]; rfl
  have htopics : (run env (opened s₀) ops).action.topics = s₀.topics := hrun.fixed.topics
  have hinfos : (run env (opened s₀) ops).action.mcapInfoMap = s₀.mcapInfoMap := hrun.fixed.mcapInfoMap
  have hwanted : wanted (run env (opened s₀) ops).action = wanted s₀ := by
    funext id
    rw [wanted, wanted, htopics]
  refine ⟨horder, ?_, ?_, ?_, ?_, ?_⟩
  · have hcopies := hrun.keeping.allStart
    rwa [AllStart, hinfos, hwanted, hrun.fixed.topicOrder] at hcopies
  · have hrecords := hrun.keeping.records
    rwa [htopics, hinfos] at hrecords
  · intro hopens
    rw [← hmode] at hopens
    exact (hrun.ready hopens).1
  · obtain ⟨dropped, hsum, himd⟩ := hrun.accounted
    exact ⟨dropped, hsum, fun hmode' => himd (hmode.trans hmode')⟩
  · intro i r hr htaken
    rw [← hmode] at htaken
    simp only [step, hr]
    exact passed_recordTask hrun.fixed.state htaken

/-- The immediate mode with one topic that caches its last message. -/
def oneTopic (serializationType : String) : Options (ℕ × ℕ) where
  topicMetaList := [{ id := 0, topicName := "image", msgType := "pb:Image", serializationType := serializationType,
                      recordEnabled := true, cacheLastMsg := true, sampleFreq := (0, 1) }]

/-- A record of the topic. -/
def oneRecord : OneRecord ℕ where
  topicIndex := 0
  logTimestamp := 6000000000
  pubTimestamp := 0
  pubSequence := 0
  buffer := 8

/-- `Initialize` takes a topic that is serialized as `json`, and a record of it is accepted and passed on, but the
file holds no message. -/
theorem json_not_written : ∃ s₀,
    initializeAction (quietEnv (fun _ => 5000000000) fun _ _ => false) (oneTopic "json") = .ok s₀ ∧
      let y := run (quietEnv (fun _ => 5000000000) fun _ _ => false) (opened s₀) [.publish oneRecord, .execute 0]
      acceptedOf y.action.log = [oneRecord] ∧ y.queue = [] ∧
        (history y.action.log).files.map McapFile.messages = [[]] := by
  refine ⟨_, rfl, ?_, ?_, ?_⟩
  · decide
  · decide
  · decide

theorem walksAll_quietEnv (clock : ℕ → UInt64) (pathExists : ℕ → String → Bool) :
    WalksAll (quietEnv clock pathExists) :=
  fun _ => List.Perm.refl _

theorem writesChannels_quietEnv (clock : ℕ → UInt64) (pathExists : ℕ → String → Bool) :
    WritesChannels (quietEnv clock pathExists) 1 where
  write := by
    intro calls msg
    have hone : (0 < msg.channelId ∧ msg.channelId.toNat ≤ 1) ↔ msg.channelId = 1 := by
      rw [UInt16.lt_iff_toNat_lt, ← UInt16.toNat_inj]
      simp only [UInt16.toNat_zero, UInt16.toNat_one]
      omega
    simpa [quietEnv] using hone
  ne_zero := by
    intro j hj
    obtain rfl : j = 0 := by omega
    change (1 : UInt16) ≠ 0
    decide

/-- The same run for a topic that is serialized as `pb`. -/
theorem filesHold_pb : ∃ s₀,
    initializeAction (quietEnv (fun _ => 5000000000) fun _ _ => false) (oneTopic "pb") = .ok s₀ ∧
      FilesHold (quietEnv (fun _ => 5000000000) fun _ _ => false) s₀
        (run (quietEnv (fun _ => 5000000000) fun _ _ => false) (opened s₀) [.publish oneRecord, .execute 0]) :=
  ⟨_, rfl, filesHold_run (walksAll_quietEnv _ _) (oneTopic "pb") rfl (writesChannels_quietEnv _ _) _⟩

end Recorder

end AimRT.RecordPlayback
