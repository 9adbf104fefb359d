import AimRT.RecordPlayback.RecordWrites
import Mathlib.Logic.Relation

/-!
# One change at a time

Whatever a publisher, a task or a signal does is a row of a few kinds of changes: a record is written, a last message is
kept, a file is opened or not, one is removed, a folder takes the place of the old one, a record is accepted, the file
is closed, and counts, flags and caches change.  A property that each of these keeps holds after all of them
(`Changes.keeps`), with no look at the functions.
-/

namespace AimRT.RecordPlayback.RecordAction

variable {D F : Type}

/-- Nothing changes but counts, flags and caches. -/
structure Quiet (s s' : RecordAction D F) : Prop where
  options : s'.options = s.options
  state : s'.state = s.state
  topics : s'.topics = s.topics
  mcapInfoMap : s'.mcapInfoMap = s.mcapInfoMap
  topicOrder : s'.topicOrder = s.topicOrder
  topicRuntimeMap : s'.topicRuntimeMap = s.topicRuntimeMap
  realBagPath : s'.realBagPath = s.realBagPath
  files : s'.files = s.files
  writer : s'.writer = s.writer
  log : s'.log = s.log

/-- A file that does not open. -/
def failedMcap (env : Env D F) (timestamp : UInt64) (s : RecordAction D F) : RecordAction D F :=
  called (logged (.opened (mcapPath env s timestamp) timestamp false)
    { s with writer := none, curMcapFilePath := none })

/-- The first file is removed. -/
def removedFile (file : FileMeta) (rest : List FileMeta) (s : RecordAction D F) : RecordAction D F :=
  { s with
    files := rest
    calls := s.calls + 1
    log := s.log ++ [.removed ⟨s.realBagPath, file.path⟩ s.files] }

/-- One change. -/
inductive Change (env : Env D F) : RecordAction D F → RecordAction D F → Prop
  | written (copy : Bool) (r : OneRecord D) (s) : Change env s (writeRecord env copy r s)
  | kept (id : ℕ) (m : OneRecord D) (s) : Change env s (keepLastMsg id m s)
  | opened (timestamp : UInt64) (s) : Change env s (openedMcap env timestamp s)
  | failed (timestamp : UInt64) (s) : Change env s (failedMcap env timestamp s)
  | removed {file : FileMeta} {rest : List FileMeta} {s : RecordAction D F} (hfiles : s.files = file :: rest)
      (hrest : rest ≠ []) : Change env s (removedFile file rest s)
  | entered (folder : String) (s) : Change env s (closeRecord (enterFolder folder s))
  | accepted (r : OneRecord D) (s) : Change env s (addRecord r s)
  | closed (s) : Change env s (closeRecord s)
  | quiet {s s' : RecordAction D F} (h : Quiet s s') : Change env s s'

/-- Any number of changes. -/
def Changes (env : Env D F) : RecordAction D F → RecordAction D F → Prop := Relation.ReflTransGen (Change env)

variable {env : Env D F}

theorem Changes.refl (s : RecordAction D F) : Changes env s s := Relation.ReflTransGen.refl

theorem Change.changes {s s' : RecordAction D F} (h : Change env s s') : Changes env s s' :=
  Relation.ReflTransGen.single h

theorem Changes.trans {s t u : RecordAction D F} (h : Changes env s t) (h' : Changes env t u) : Changes env s u :=
  Relation.ReflTransGen.trans h h'

/-- **What every change keeps** is kept. -/
theorem Changes.keeps {P : RecordAction D F → Prop} (hstep : ∀ {s s'}, P s → Change env s s' → P s')
    {s s' : RecordAction D F} (h : Changes env s s') (hs : P s) : P s' := by
  induction h with
  | refl => exact hs
  | tail _ hchange ih => exact hstep ih hchange

theorem Changes.foldl {A : Type} {f : RecordAction D F → A → RecordAction D F} (hf : ∀ s a, Changes env s (f s a))
    (as : List A) (s : RecordAction D F) : Changes env s (as.foldl f s) := by
  induction as generalizing s with
  | nil => exact Changes.refl s
  | cons a as ih => exact (hf s a).trans (ih (f s a))

theorem changes_quiet {s s' : RecordAction D F} (h : Quiet s s') : Changes env s s' := (Change.quiet h).changes

/-! ### The functions -/

variable (env)

theorem changes_writeLastMsgs (timestamp : UInt64) (s : RecordAction D F) :
    Changes env s (writeLastMsgs env timestamp s) := by
  refine Changes.foldl (fun s id => ?_) s.topicOrder s
  unfold writeLastMsg
  split
  next m _ _ =>
    exact (Change.kept id { m with logTimestamp := timestamp } s).changes.trans (Change.written true _ _).changes
  next => exact Changes.refl s

theorem changes_openNewMcapToRecord (timestamp : UInt64) (s : RecordAction D F) :
    Changes env s (openNewMcapToRecord env timestamp s) := by
  unfold openNewMcapToRecord
  split_ifs
  · rw [startMcap_eq]
    refine (Change.opened timestamp s).changes.trans (Changes.trans ?_ (changes_writeLastMsgs env timestamp _))
    obtain e | ⟨file, rest, hfiles, hrest, e⟩ := removeOldFile_cases (openedMcap env timestamp s)
    · rw [e]
      exact Changes.refl _
    · rw [e]
      exact (Change.removed hfiles hrest).changes
  · exact (Change.failed timestamp s).changes

theorem changes_openNewFolderToRecord (s : RecordAction D F) : Changes env s (openNewFolderToRecord env s).2 := by
  unfold openNewFolderToRecord
  split_ifs
  · exact changes_quiet ⟨rfl, rfl, rfl, rfl, rfl, rfl, rfl, rfl, rfl, rfl⟩
  · -- the file that is open is closed by the opening of the first one of the folder
    have hclosed : startFolder env (newFolder env s) s = openNewMcapToRecord env (env.curTimestampNs (s.calls + 3))
        (closeRecord (enterFolder (newFolder env s) s)) := rfl
    rw [hclosed]
    exact (Change.entered (newFolder env s) s).changes.trans (changes_openNewMcapToRecord env _ _)
  · exact changes_quiet ⟨rfl, rfl, rfl, rfl, rfl, rfl, rfl, rfl, rfl, rfl⟩

theorem changes_addRecordImpl (r : OneRecord D) (s : RecordAction D F) : Changes env s (addRecordImpl env r s) := by
  unfold addRecordImpl
  refine Changes.trans ?_ (Change.written false r _).changes
  have hreset : Changes env s (resetSize env s) := changes_quiet ⟨rfl, rfl, rfl, rfl, rfl, rfl, rfl, rfl, rfl, rfl⟩
  split_ifs
  · unfold rotate
    split_ifs
    · exact hreset.trans (changes_openNewFolderToRecord env _)
    · exact hreset.trans (changes_openNewMcapToRecord env _ _)
  · exact Changes.refl s

theorem changes_addRecord (r : OneRecord D) (s : RecordAction D F) : Changes env s (addRecord r s) :=
  (Change.accepted r s).changes

theorem changes_closeRecording (s : RecordAction D F) :
    Changes env s (closeRecord { s with recordingFlag := false }) := by
  have hflag : Changes env s { s with recordingFlag := false } :=
    changes_quiet ⟨rfl, rfl, rfl, rfl, rfl, rfl, rfl, rfl, rfl, rfl⟩
  exact hflag.trans (Change.closed _).changes

theorem changes_takeRecord (r : OneRecord D) (s : RecordAction D F) : Changes env s (takeRecord env r s) := by
  unfold takeRecord cacheRecord
  split_ifs
  · exact changes_addRecordImpl env r s
  · exact changes_quiet ⟨rfl, rfl, rfl, rfl, rfl, rfl, rfl, rfl, rfl, rfl⟩
  · exact changes_quiet ⟨rfl, rfl, rfl, rfl, rfl, rfl, rfl, rfl, rfl, rfl⟩

theorem changes_recordTask (r : OneRecord D) (s : RecordAction D F) : Changes env s (recordTask env r s) := by
  unfold recordTask
  split_ifs
  · split
    · exact changes_addRecordImpl env r s
    · refine Changes.trans ?_ (changes_takeRecord env r _)
      unfold stopOverdue
      split_ifs
      · exact changes_closeRecording env s
      · exact Changes.refl s
  · exact Changes.refl s

theorem changes_writeCaches (start : UInt64) (s : RecordAction D F) : Changes env s (writeCaches env start s) := by
  unfold writeCaches
  split_ifs
  · exact Changes.refl s
  · have hwritten : Changes env s ((preparation start s).foldl (fun s r => addRecordImpl env r s) s) :=
      Changes.foldl (fun s r => changes_addRecordImpl env r s) (preparation start s) s
    exact hwritten.trans (changes_quiet ⟨rfl, rfl, rfl, rfl, rfl, rfl, rfl, rfl, rfl, rfl⟩)

theorem changes_startTask (preparationDurationS recordDurationS : UInt64) (s : RecordAction D F) :
    Changes env s (startTask env preparationDurationS recordDurationS s).2.2 := by
  unfold startTask
  split_ifs
  · have hflagged : Changes env s (flagged s) := changes_quiet ⟨rfl, rfl, rfl, rfl, rfl, rfl, rfl, rfl, rfl, rfl⟩
    have hfolder := hflagged.trans (changes_openNewFolderToRecord env (flagged s))
    cases hopen : openNewFolderToRecord env (flagged s) with
    | mk ret opened =>
      rw [hopen] at hfolder
      cases ret with
      | true =>
        have hready : Changes env opened { called opened with
            stopRecordTimestamp := if recordDurationS = 0 then 0
              else env.curTimestampNs opened.calls + recordDurationS * 1000000000 } :=
          changes_quiet ⟨rfl, rfl, rfl, rfl, rfl, rfl, rfl, rfl, rfl, rfl⟩
        exact (hfolder.trans hready).trans (changes_writeCaches env _ _)
      | false => exact hfolder
  · exact Changes.refl s

theorem changes_stopTask (s : RecordAction D F) : Changes env s (stopTask s) := by
  unfold stopTask
  split_ifs
  · exact changes_closeRecording env s
  · exact Changes.refl s

/-! ### What is fixed -/

/-- What is fixed from the configuration on. -/
structure Fixed (s s' : RecordAction D F) : Prop where
  options : s'.options = s.options
  state : s'.state = s.state
  topics : s'.topics = s.topics
  mcapInfoMap : s'.mcapInfoMap = s.mcapInfoMap
  topicOrder : s'.topicOrder = s.topicOrder

theorem Fixed.refl (s : RecordAction D F) : Fixed s s := ⟨rfl, rfl, rfl, rfl, rfl⟩

theorem Fixed.trans {s t u : RecordAction D F} (h : Fixed s t) (h' : Fixed t u) : Fixed s u where
  options := h'.options.trans h.options
  state := h'.state.trans h.state
  topics := h'.topics.trans h.topics
  mcapInfoMap := h'.mcapInfoMap.trans h.mcapInfoMap
  topicOrder := h'.topicOrder.trans h.topicOrder

variable {env}

theorem Change.fixed {s s' : RecordAction D F} (h : Change env s s') : Fixed s s' := by
  cases h with
  | written copy r s =>
    have hframe := writeRecord_frame env copy r s
    exact ⟨hframe.options, hframe.state, hframe.topics, hframe.mcapInfoMap, hframe.topicOrder⟩
  | kept id m s => exact ⟨rfl, rfl, rfl, rfl, rfl⟩
  | opened timestamp s => exact ⟨rfl, rfl, rfl, rfl, rfl⟩
  | failed timestamp s => exact ⟨rfl, rfl, rfl, rfl, rfl⟩
  | removed hfiles hrest => exact ⟨rfl, rfl, rfl, rfl, rfl⟩
  | entered folder s => exact ⟨rfl, rfl, rfl, rfl, rfl⟩
  | accepted r s =>
    obtain ⟨runtime, log, e⟩ := addRecord_eq r s
    rw [e]
    exact ⟨rfl, rfl, rfl, rfl, rfl⟩
  | closed s => exact ⟨rfl, rfl, rfl, rfl, rfl⟩
  | quiet h => exact ⟨h.options, h.state, h.topics, h.mcapInfoMap, h.topicOrder⟩

theorem Changes.fixed {s s' : RecordAction D F} (h : Changes env s s') : Fixed s s' :=
  h.keeps (fun hs hchange => hs.trans hchange.fixed) (Fixed.refl s)

end AimRT.RecordPlayback.RecordAction
