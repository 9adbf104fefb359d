import AimRT.RecordPlayback.RecordAction

/-!
# What writing changes

A record that is written, a file that is opened and a folder that is opened change the files and what is kept of
the topics.  They leave alone what the signals and the caches are about (`Frame`), and the log of what was done
to the files only grows.
-/

namespace AimRT.RecordPlayback

/-- The records that tasks have passed to `AddRecordImpl`: each of them is written once, with whatever status. -/
def passed {D : Type} (log : List (Event D)) : List (OneRecord D) :=
  log.filterMap fun
    | .write _ false r _ _ => some r
    | _ => none

/-- The records that `AddRecord` has accepted. -/
def acceptedOf {D : Type} (log : List (Event D)) : List (OneRecord D) :=
  log.filterMap fun
    | .accepted r => some r
    | _ => none

section

variable {D : Type} (log : List (Event D)) (path : Path) (writer : Option Path) (r : OneRecord D) (msg : Message D)
  (ok copy : Bool)

@[simp] theorem passed_append_created (folder : String) : passed (log ++ [Event.created folder]) = passed log := by
  simp [passed]

@[simp] theorem passed_append_opened (timestamp : UInt64) :
    passed (log ++ [Event.opened path timestamp ok]) = passed log := by
  simp [passed]

@[simp] theorem passed_append_removed (listed : List FileMeta) :
    passed (log ++ [Event.removed path listed]) = passed log := by
  simp [passed]

@[simp] theorem passed_append_write :
    passed (log ++ [Event.write writer copy r msg ok]) = passed log ++ (if copy then [] else [r]) := by
  cases copy <;> simp [passed]

end

namespace RecordAction

variable {D F : Type} (env : Env D F)

/-- What no writing changes, and the log that grows, but for records that are accepted. -/
structure Frame (s s' : RecordAction D F) : Prop where
  options : s'.options = s.options
  state : s'.state = s.state
  maxBagSize : s'.maxBagSize = s.maxBagSize
  topics : s'.topics = s.topics
  mcapInfoMap : s'.mcapInfoMap = s.mcapInfoMap
  topicOrder : s'.topicOrder = s.topicOrder
  recordingFlag : s'.recordingFlag = s.recordingFlag
  stopRecordTimestamp : s'.stopRecordTimestamp = s.stopRecordTimestamp
  lastCache : s'.lastCache = s.lastCache
  curCache : s'.curCache = s.curCache
  log : s.log <+: s'.log
  accepted : acceptedOf s'.log = acceptedOf s.log

theorem Frame.refl (s : RecordAction D F) : Frame s s :=
  ⟨rfl, rfl, rfl, rfl, rfl, rfl, rfl, rfl, rfl, rfl, List.prefix_refl _, rfl⟩

theorem Frame.trans {s t u : RecordAction D F} (h : Frame s t) (h' : Frame t u) : Frame s u where
  options := h'.options.trans h.options
  state := h'.state.trans h.state
  maxBagSize := h'.maxBagSize.trans h.maxBagSize
  topics := h'.topics.trans h.topics
  mcapInfoMap := h'.mcapInfoMap.trans h.mcapInfoMap
  topicOrder := h'.topicOrder.trans h.topicOrder
  recordingFlag := h'.recordingFlag.trans h.recordingFlag
  stopRecordTimestamp := h'.stopRecordTimestamp.trans h.stopRecordTimestamp
  lastCache := h'.lastCache.trans h.lastCache
  curCache := h'.curCache.trans h.curCache
  log := h.log.trans h'.log
  accepted := h'.accepted.trans h.accepted

theorem Frame.foldl {A : Type} {f : RecordAction D F → A → RecordAction D F} (hf : ∀ s a, Frame s (f s a))
    (as : List A) (s : RecordAction D F) : Frame s (as.foldl f s) := by
  induction as generalizing s with
  | nil => exact Frame.refl s
  | cons a as ih => exact (hf s a).trans (ih (f s a))

/-! ### Writing -/

/-- What a write leaves behind: the event, and counts. -/
theorem writeRecord_eq (copy : Bool) (r : OneRecord D) (s : RecordAction D F) :
    ∃ size count, writeRecord env copy r s = { s with
      curDataSize := size
      curExecCount := count
      calls := s.calls + 1
      log := s.log ++ [Event.write s.writer copy r (messageOf s r) (writeStatus env s r)] } := by
  unfold writeRecord flushToDisk called logged
  dsimp only
  split_ifs <;> exact ⟨_, _, rfl⟩

theorem writeRecord_frame (copy : Bool) (r : OneRecord D) (s : RecordAction D F) :
    Frame s (writeRecord env copy r s) := by
  obtain ⟨size, count, e⟩ := writeRecord_eq env copy r s
  rw [e]
  exact ⟨rfl, rfl, rfl, rfl, rfl, rfl, rfl, rfl, rfl, rfl, List.prefix_append _ _, by simp [acceptedOf]⟩

theorem keepLastMsg_frame (id : ℕ) (m : OneRecord D) (s : RecordAction D F) : Frame s (keepLastMsg id m s) :=
  ⟨rfl, rfl, rfl, rfl, rfl, rfl, rfl, rfl, rfl, rfl, List.prefix_refl _, rfl⟩

theorem writeLastMsg_frame (timestamp : UInt64) (s : RecordAction D F) (id : ℕ) :
    Frame s (writeLastMsg env timestamp s id) := by
  unfold writeLastMsg
  split
  next m _ _ =>
    exact (keepLastMsg_frame id _ s).trans (writeRecord_frame env true { m with logTimestamp := timestamp } _)
  next => exact Frame.refl s

theorem writeLastMsgs_frame (timestamp : UInt64) (s : RecordAction D F) :
    Frame s (writeLastMsgs env timestamp s) :=
  Frame.foldl (writeLastMsg_frame env timestamp) s.topicOrder s

theorem passed_writeRecord (copy : Bool) (r : OneRecord D) (s : RecordAction D F) :
    passed (writeRecord env copy r s).log = passed s.log ++ (if copy then [] else [r]) := by
  obtain ⟨size, count, e⟩ := writeRecord_eq env copy r s
  rw [e]
  exact passed_append_write ..

theorem passed_writeLastMsg (timestamp : UInt64) (s : RecordAction D F) (id : ℕ) :
    passed (writeLastMsg env timestamp s id).log = passed s.log := by
  unfold writeLastMsg
  split
  · rw [passed_writeRecord]
    exact List.append_nil _
  · rfl

theorem passed_writeLastMsgs (timestamp : UInt64) (s : RecordAction D F) :
    passed (writeLastMsgs env timestamp s).log = passed s.log := by
  unfold writeLastMsgs
  induction s.topicOrder generalizing s with
  | nil => rfl
  | cons id ids ih => rw [List.foldl_cons, ih, passed_writeLastMsg]

/-- What a write keeps besides: the file that is written to, and the list of files. -/
structure Kept (s s' : RecordAction D F) : Prop where
  realBagPath : s'.realBagPath = s.realBagPath
  files : s'.files = s.files
  writer : s'.writer = s.writer

theorem writeRecord_kept (copy : Bool) (r : OneRecord D) (s : RecordAction D F) :
    Kept s (writeRecord env copy r s) := by
  obtain ⟨size, count, e⟩ := writeRecord_eq env copy r s
  rw [e]
  exact ⟨rfl, rfl, rfl⟩

theorem writeLastMsg_kept (timestamp : UInt64) (s : RecordAction D F) (id : ℕ) :
    Kept s (writeLastMsg env timestamp s id) := by
  unfold writeLastMsg
  split
  next m _ _ =>
    have h := writeRecord_kept env true { m with logTimestamp := timestamp }
      (keepLastMsg id { m with logTimestamp := timestamp } s)
    exact ⟨h.realBagPath, h.files, h.writer⟩
  next => exact ⟨rfl, rfl, rfl⟩

theorem writeLastMsgs_kept (timestamp : UInt64) (s : RecordAction D F) : Kept s (writeLastMsgs env timestamp s) := by
  unfold writeLastMsgs
  induction s.topicOrder generalizing s with
  | nil => exact ⟨rfl, rfl, rfl⟩
  | cons id ids ih =>
    have hone := writeLastMsg_kept env timestamp s id
    have hrest := ih (writeLastMsg env timestamp s id)
    exact ⟨hrest.realBagPath.trans hone.realBagPath, hrest.files.trans hone.files, hrest.writer.trans hone.writer⟩

/-! ### Files -/

/-- What the rule on the number of files leaves behind: at least one file is left. -/
theorem removeOldFile_cases (s : RecordAction D F) :
    removeOldFile s = s ∨ ∃ file rest, s.files = file :: rest ∧ rest ≠ [] ∧ removeOldFile s = { s with
      files := rest
      calls := s.calls + 1
      log := s.log ++ [Event.removed ⟨s.realBagPath, file.path⟩ s.files] } := by
  unfold removeOldFile
  split
  next => exact .inl rfl
  next file rest hfiles =>
    split_ifs with hmany
    · refine .inr ⟨file, rest, hfiles, ?_, by rw [hfiles]; rfl⟩
      rintro rfl
      obtain ⟨hpos, hlt⟩ := hmany
      rw [UInt32.lt_iff_toNat_lt] at hpos
      rw [hfiles, List.length_singleton] at hlt
      simp only [UInt32.toNat_zero] at hpos
      omega
    · exact .inl rfl

/-- The removal of a file leaves what is open. -/
theorem removeOldFile_open (s : RecordAction D F) :
    (removeOldFile s).writer = s.writer ∧ (removeOldFile s).realBagPath = s.realBagPath := by
  obtain e | ⟨file, rest, -, -, e⟩ := removeOldFile_cases s
  · rw [e]
    exact ⟨rfl, rfl⟩
  · rw [e]
    exact ⟨rfl, rfl⟩

theorem removeOldFile_frame (s : RecordAction D F) : Frame s (removeOldFile s) := by
  obtain e | ⟨file, rest, -, -, e⟩ := removeOldFile_cases s
  · rw [e]
    exact Frame.refl s
  · rw [e]
    exact ⟨rfl, rfl, rfl, rfl, rfl, rfl, rfl, rfl, rfl, rfl, List.prefix_append _ _, by simp [acceptedOf]⟩

/-- The file that was opened, before the rule on the number of files. -/
def openedMcap (timestamp : UInt64) (s : RecordAction D F) : RecordAction D F :=
  called (logged (.opened (mcapPath env s timestamp) timestamp true)
    { s with
      writer := some (mcapPath env s timestamp)
      curMcapFilePath := some (mcapPath env s timestamp)
      topicRuntimeMap := addChannels env s.mcapInfoMap s.topicRuntimeMap
      files := s.files ++ [⟨mcapFileName env timestamp, timestamp⟩] })

theorem startMcap_eq (timestamp : UInt64) (s : RecordAction D F) :
    startMcap env timestamp s = removeOldFile (openedMcap env timestamp s) := rfl

theorem openedMcap_frame (timestamp : UInt64) (s : RecordAction D F) : Frame s (openedMcap env timestamp s) :=
  ⟨rfl, rfl, rfl, rfl, rfl, rfl, rfl, rfl, rfl, rfl, List.prefix_append _ _, by
    simp [acceptedOf, openedMcap, called, logged]⟩

/-- The opening is the first thing that `OpenNewMcapToRecord` does. -/
theorem openNewMcapToRecord_log (timestamp : UInt64) (s : RecordAction D F) :
    s.log ++ [Event.opened (mcapPath env s timestamp) timestamp (env.openMcap s.calls (mcapPath env s timestamp))] <+:
      (openNewMcapToRecord env timestamp s).log := by
  unfold openNewMcapToRecord
  split_ifs with hopen
  · rw [hopen, startMcap_eq]
    exact (removeOldFile_frame (openedMcap env timestamp s)).log.trans (writeLastMsgs_frame env timestamp _).log
  · rw [Bool.eq_false_iff.2 hopen]
    exact List.prefix_refl _

theorem openNewMcapToRecord_frame (timestamp : UInt64) (s : RecordAction D F) :
    Frame s (openNewMcapToRecord env timestamp s) := by
  unfold openNewMcapToRecord
  split_ifs
  · rw [startMcap_eq]
    exact ((openedMcap_frame env timestamp s).trans (removeOldFile_frame _)).trans (writeLastMsgs_frame env timestamp _)
  · exact ⟨rfl, rfl, rfl, rfl, rfl, rfl, rfl, rfl, rfl, rfl, List.prefix_append _ _, by
      simp [acceptedOf, called, logged]⟩

theorem openNewMcapToRecord_realBagPath (timestamp : UInt64) (s : RecordAction D F) :
    (openNewMcapToRecord env timestamp s).realBagPath = s.realBagPath := by
  unfold openNewMcapToRecord
  split_ifs
  · rw [(writeLastMsgs_kept env timestamp _).realBagPath, startMcap_eq, (removeOldFile_open _).2]
    rfl
  · rfl

theorem passed_removeOldFile (s : RecordAction D F) : passed (removeOldFile s).log = passed s.log := by
  obtain e | ⟨file, rest, -, -, e⟩ := removeOldFile_cases s
  · rw [e]
  · rw [e]
    exact passed_append_removed ..

theorem passed_openNewMcapToRecord (timestamp : UInt64) (s : RecordAction D F) :
    passed (openNewMcapToRecord env timestamp s).log = passed s.log := by
  unfold openNewMcapToRecord
  split_ifs
  · rw [passed_writeLastMsgs, startMcap_eq, passed_removeOldFile]
    exact passed_append_opened ..
  · exact passed_append_opened ..

/-! ### Folders -/

theorem enterFolder_frame (folder : String) (s : RecordAction D F) : Frame s (enterFolder folder s) :=
  ⟨rfl, rfl, rfl, rfl, rfl, rfl, rfl, rfl, rfl, rfl, List.prefix_append _ _, by simp [acceptedOf, enterFolder]⟩

theorem startFolder_frame (folder : String) (s : RecordAction D F) : Frame s (startFolder env folder s) :=
  (enterFolder_frame folder s).trans (openNewMcapToRecord_frame env _ _)

theorem startFolder_realBagPath (folder : String) (s : RecordAction D F) :
    (startFolder env folder s).realBagPath = folder :=
  openNewMcapToRecord_realBagPath env _ _

theorem openNewFolderToRecord_frame (s : RecordAction D F) : Frame s (openNewFolderToRecord env s).2 := by
  unfold openNewFolderToRecord
  split_ifs
  · exact ⟨rfl, rfl, rfl, rfl, rfl, rfl, rfl, rfl, rfl, rfl, List.prefix_refl _, rfl⟩
  · exact startFolder_frame env _ s
  · exact ⟨rfl, rfl, rfl, rfl, rfl, rfl, rfl, rfl, rfl, rfl, List.prefix_refl _, rfl⟩

theorem passed_openNewFolderToRecord (s : RecordAction D F) :
    passed (openNewFolderToRecord env s).2.log = passed s.log := by
  unfold openNewFolderToRecord
  split_ifs
  · rfl
  · exact (passed_openNewMcapToRecord env _ _).trans (passed_append_created s.log _)
  · rfl

theorem resetSize_frame (s : RecordAction D F) : Frame s (resetSize env s) :=
  ⟨rfl, rfl, rfl, rfl, rfl, rfl, rfl, rfl, rfl, rfl, List.prefix_refl _, rfl⟩

theorem rotate_frame (r : OneRecord D) (s : RecordAction D F) : Frame s (rotate env r s) := by
  unfold rotate
  split_ifs
  · exact (resetSize_frame env s).trans (openNewFolderToRecord_frame env _)
  · exact (resetSize_frame env s).trans (openNewMcapToRecord_frame env _ _)

theorem passed_rotate (r : OneRecord D) (s : RecordAction D F) : passed (rotate env r s).log = passed s.log := by
  unfold rotate
  split_ifs
  · rw [passed_openNewFolderToRecord]
    rfl
  · rw [passed_openNewMcapToRecord]
    rfl

/-! ### Records -/

theorem addRecordImpl_frame (r : OneRecord D) (s : RecordAction D F) : Frame s (addRecordImpl env r s) := by
  unfold addRecordImpl
  split_ifs
  · exact (rotate_frame env r s).trans (writeRecord_frame env false r _)
  · exact writeRecord_frame env false r s

theorem passed_addRecordImpl (r : OneRecord D) (s : RecordAction D F) :
    passed (addRecordImpl env r s).log = passed s.log ++ [r] := by
  unfold addRecordImpl
  rw [passed_writeRecord, if_neg Bool.false_ne_true]
  split_ifs
  · rw [passed_rotate]
  · rfl

/-- A list of records is passed on in its order. -/
theorem passed_foldl_addRecordImpl (rs : List (OneRecord D)) (s : RecordAction D F) :
    passed (rs.foldl (fun s r => addRecordImpl env r s) s).log = passed s.log ++ rs := by
  induction rs generalizing s with
  | nil => simp
  | cons r rs ih => rw [List.foldl_cons, ih, passed_addRecordImpl, List.append_assoc, List.singleton_append]

theorem foldl_addRecordImpl_frame (rs : List (OneRecord D)) (s : RecordAction D F) :
    Frame s (rs.foldl (fun s r => addRecordImpl env r s) s) :=
  Frame.foldl (fun s r => addRecordImpl_frame env r s) rs s

end RecordAction

end AimRT.RecordPlayback
