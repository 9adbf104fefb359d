import AimRT.RecordPlayback.RecordHistory

/-!
# The cached last messages

A file starts with a copy of the last message of each topic that caches it, with the time of the opening.  The copy is
made of the message that the map of the topics keeps, and keeps on keeping: `AddRecordImpl` takes it as an rvalue but
moves nothing out of it.  So a topic that is silent has its copy in every file, and the only thing that a rotation
changes of the message is its time (`Recorded.lastMsg`).

What is not a copy is a record that a task has passed on, with its own data.  A topic that `mcap` has no format for
gets no channel, and then nothing of it is written; `Initialize` says so in a warning.
-/

namespace AimRT.RecordPlayback

/-- The copies that a file starts with, for the topics that are wanted. -/
def copiesOf {D F : Type} (env : Env D F) (infos : List (ℕ × String)) (wanted : ℕ → Bool)
    (accepted : List (OneRecord D)) (timestamp : UInt64) (order : List ℕ) : List (Message D) :=
  order.filterMap fun id =>
    if wanted id then (latest accepted id).map fun m => ownMessage env infos (stamp timestamp m) else none

/-- A file that was opened: the copies first, and then what is no copy. -/
def StartsWithCopies {D F : Type} (env : Env D F) (infos : List (ℕ × String)) (wanted : ℕ → Bool) (order : List ℕ)
    (file : McapFile D) : Prop :=
  ∃ rest : List (Message D), file.messages =
    (copiesOf env infos wanted file.accepted file.startTimestamp order).map (true, ·) ++ rest.map (false, ·)

namespace RecordAction

variable {D F : Type} {env : Env D F}

/-- The topics whose copies are written. -/
def wanted (s : RecordAction D F) (id : ℕ) : Bool := cachesLastMsg s.topics id && inMcap s.topics id

theorem wanted_congr {s s' : RecordAction D F} (h : s'.topics = s.topics) : wanted s' = wanted s := by
  funext id
  rw [wanted, wanted, h]

/-- The map keeps the last message accepted of each topic that caches it, but for its time; the writer has the file
that was opened last; and what is not a copy is what was passed on. -/
structure Recorded (env : Env D F) (s : RecordAction D F) : Prop where
  wired : Wired env s
  lastMsg : ∀ id, cachesLastMsg s.topics id = true → ∀ timestamp,
    (s.topicRuntimeMap id).lastMsg.map (stamp timestamp) =
      (latest (history s.log).accepted id).map (stamp timestamp)
  writer : ∀ path, s.writer = some path → ∃ file files, (history s.log).files = file :: files ∧ file.path = path
  records : recordsOf (history s.log).files =
    ((passedOpen s.log).filter fun r => inMcap s.topics r.topicIndex).map (ownMessage env s.mcapInfoMap)

/-- All files that were opened start with their copies. -/
def AllStart (env : Env D F) (s : RecordAction D F) : Prop :=
  ∀ file ∈ (history s.log).files, StartsWithCopies env s.mcapInfoMap (wanted s) s.topicOrder file

/-! ### Steps that write nothing -/

/-- Nothing happened to the files and the topics, but that a file may be closed. -/
structure Same (s s' : RecordAction D F) : Prop where
  history : history s'.log = history s.log
  passedOpen : passedOpen s'.log = passedOpen s.log
  topics : s'.topics = s.topics
  mcapInfoMap : s'.mcapInfoMap = s.mcapInfoMap
  topicOrder : s'.topicOrder = s.topicOrder
  runtime : s'.topicRuntimeMap = s.topicRuntimeMap
  writer : s'.writer = s.writer ∨ s'.writer = none

theorem Same.writer_eq {s s' : RecordAction D F} (h : Same s s') {path : Path} (hpath : s'.writer = some path) :
    s.writer = some path := by
  rcases h.writer with e | e
  · rw [← e, hpath]
  · rw [e] at hpath
    cases hpath

theorem Recorded.same {s s' : RecordAction D F} (h : Recorded env s) (hs : Same s s') : Recorded env s' where
  wired := by
    refine h.wired.of_runtime hs.mcapInfoMap hs.topics (fun path hpath => ⟨path, hs.writer_eq hpath⟩) fun id => ?_
    rw [hs.runtime]
    exact ⟨rfl, rfl⟩
  lastMsg := by
    rw [hs.topics, hs.runtime, hs.history]
    exact h.lastMsg
  writer := by
    intro path hpath
    rw [hs.history]
    exact h.writer path (hs.writer_eq hpath)
  records := by
    rw [hs.history, hs.passedOpen, hs.topics, hs.mcapInfoMap]
    exact h.records

theorem AllStart.same {s s' : RecordAction D F} (h : AllStart env s) (hs : Same s s') : AllStart env s' := by
  rw [AllStart, hs.history, hs.mcapInfoMap, wanted_congr hs.topics, hs.topicOrder]
  exact h

/-! ### A write -/

theorem passedOpen_writeRecord (env : Env D F) (copy : Bool) (r : OneRecord D) (s : RecordAction D F) :
    passedOpen (writeRecord env copy r s).log =
      passedOpen s.log ++ if s.writer.isSome && !copy then [r] else [] := by
  obtain ⟨size, count, e⟩ := writeRecord_eq env copy r s
  rw [e, passedOpen_append]
  cases s.writer <;> cases copy <;> rfl

/-- A write puts the message of the record behind those of the open file, or does nothing. -/
theorem history_writeRecord {s : RecordAction D F} (h : Recorded env s)
    (hmcap : WritesChannels env s.mcapInfoMap.length) (copy : Bool) (r : OneRecord D) :
    (∃ path file files, s.writer = some path ∧ inMcap s.topics r.topicIndex = true ∧
      (history s.log).files = file :: files ∧ file.path = path ∧
      history (writeRecord env copy r s).log =
        { history s.log with
          files := { file with
            messages := file.messages ++ [(copy, ownMessage env s.mcapInfoMap r)] } :: files }) ∨
    ((s.writer = none ∨ inMcap s.topics r.topicIndex = false) ∧
      history (writeRecord env copy r s).log = history s.log) := by
  obtain ⟨size, count, e⟩ := writeRecord_eq env copy r s
  rw [e, history_append_singleton]
  cases hwriter : s.writer with
  | none => exact .inr ⟨.inl rfl, rfl⟩
  | some path =>
    rw [h.wired.writeStatus hmcap hwriter, h.wired.messageOf hwriter]
    cases hid : inMcap s.topics r.topicIndex with
    | false => exact .inr ⟨.inr rfl, rfl⟩
    | true =>
      obtain ⟨file, files, hfiles, hpath⟩ := h.writer path hwriter
      refine .inl ⟨path, file, files, rfl, rfl, hfiles, hpath, ?_⟩
      rw [History.step, hfiles, McapFile.write, if_pos hpath]

theorem records_append_copy (file : McapFile D) (msg : Message D) :
    McapFile.records { file with messages := file.messages ++ [(true, msg)] } = file.records := by
  simp [McapFile.records]

theorem records_append_record (file : McapFile D) (msg : Message D) :
    McapFile.records { file with messages := file.messages ++ [(false, msg)] } = file.records ++ [msg] := by
  simp [McapFile.records]

theorem Recorded.writeRecord {s : RecordAction D F} (h : Recorded env s)
    (hmcap : WritesChannels env s.mcapInfoMap.length) (copy : Bool) (r : OneRecord D) :
    Recorded env (writeRecord env copy r s) := by
  have hhistory := history_writeRecord h hmcap copy r
  have hpassed := passedOpen_writeRecord env copy r s
  obtain ⟨size, count, e⟩ := writeRecord_eq env copy r s
  have hframe := writeRecord_frame env copy r s
  have hkept := writeRecord_kept env copy r s
  have hruntime : (RecordAction.writeRecord env copy r s).topicRuntimeMap = s.topicRuntimeMap := by rw [e]
  have haccepted : (history (RecordAction.writeRecord env copy r s).log).accepted = (history s.log).accepted := by
    obtain ⟨path, file, files, -, -, -, -, hhistory⟩ | ⟨-, hhistory⟩ := hhistory
    · rw [hhistory]
    · rw [hhistory]
  refine ⟨?_, ?_, ?_, ?_⟩
  · refine h.wired.of_runtime hframe.mcapInfoMap hframe.topics (fun path hpath => ⟨path, ?_⟩) fun id => ?_
    · rw [← hkept.writer, hpath]
    · rw [hruntime]
      exact ⟨rfl, rfl⟩
  · rw [hframe.topics, hruntime, haccepted]
    exact h.lastMsg
  · intro path hpath
    rw [hkept.writer] at hpath
    obtain ⟨path', file, files, -, -, hfiles, -, hhistory⟩ | ⟨-, hhistory⟩ := hhistory
    · obtain ⟨file', files', hfiles', hpath'⟩ := h.writer path hpath
      rw [hfiles, List.cons.injEq] at hfiles'
      rw [hhistory]
      exact ⟨_, _, rfl, by rw [← hpath', ← hfiles'.1]⟩
    · rw [hhistory]
      exact h.writer path hpath
  · rw [hpassed, hframe.topics, hframe.mcapInfoMap, List.filter_append, List.map_append, ← h.records]
    obtain ⟨path, file, files, hwriter, hid, hfiles, -, hhistory⟩ | ⟨hnot, hhistory⟩ := hhistory
    · rw [hhistory, hfiles, recordsOf_cons, recordsOf_cons, hwriter]
      cases copy with
      | true => simp [records_append_copy]
      | false => simp [records_append_record, hid]
    · rw [hhistory]
      rcases hnot with hnot | hnot
      · simp [hnot]
      · cases hopen : s.writer.isSome && !copy <;> simp [hnot]

/-- A record that is no copy goes behind what a file holds. -/
theorem AllStart.writeRecord {s : RecordAction D F} (h : AllStart env s) (hrec : Recorded env s)
    (hmcap : WritesChannels env s.mcapInfoMap.length) (r : OneRecord D) :
    AllStart env (RecordAction.writeRecord env false r s) := by
  have hframe := writeRecord_frame env false r s
  rw [AllStart, hframe.mcapInfoMap, wanted_congr hframe.topics, hframe.topicOrder]
  obtain ⟨path, file, files, -, -, hfiles, -, hhistory⟩ | ⟨-, hhistory⟩ := history_writeRecord hrec hmcap false r
  · rw [hhistory]
    intro file' hfile'
    rcases List.mem_cons.1 hfile' with rfl | hfile'
    · obtain ⟨rest, hrest⟩ := h file (by rw [hfiles]; exact List.mem_cons_self)
      refine ⟨rest ++ [ownMessage env s.mcapInfoMap r], ?_⟩
      rw [hrest, List.map_append, List.append_assoc]
      rfl
    · exact h file' (by rw [hfiles]; exact List.mem_cons_of_mem _ hfile')
  · rw [hhistory]
    exact h

/-! ### The loop over the last messages -/

/-- The message that is kept changes its time only. -/
theorem Recorded.keepLastMsg {s : RecordAction D F} (h : Recorded env s) {id : ℕ} {m : OneRecord D}
    (hm : (s.topicRuntimeMap id).lastMsg = some m) (timestamp : UInt64) :
    Recorded env (keepLastMsg id (stamp timestamp m) s) where
  wired := by
    refine h.wired.of_runtime rfl rfl (fun path hpath => ⟨path, hpath⟩) fun id' => ?_
    by_cases hid : id' = id
    · subst hid
      simp [RecordAction.keepLastMsg]
    · simp [RecordAction.keepLastMsg, Function.update_of_ne hid]
  lastMsg := by
    intro id' hcaches timestamp'
    have hlast := h.lastMsg id' hcaches timestamp'
    by_cases hid : id' = id
    · subst hid
      rw [hm] at hlast
      simpa [RecordAction.keepLastMsg, stamp] using hlast
    · simpa [RecordAction.keepLastMsg, Function.update_of_ne hid] using hlast
  writer := h.writer
  records := h.records

/-- One topic of the loop: its copy is put behind what the open file holds. -/
theorem writeLastMsg_spec {s : RecordAction D F} (h : Recorded env s)
    (hmcap : WritesChannels env s.mcapInfoMap.length) {path : Path} (hwriter : s.writer = some path)
    {file : McapFile D} {files : List (McapFile D)} (hfiles : (history s.log).files = file :: files)
    (timestamp : UInt64) (id : ℕ) :
    Recorded env (writeLastMsg env timestamp s id) ∧
      history (writeLastMsg env timestamp s id).log =
        { history s.log with
          files := { file with messages := file.messages ++
            (copiesOf env s.mcapInfoMap (wanted s) (history s.log).accepted timestamp [id]).map (true, ·) } :: files } := by
  have hsame : { file with messages := file.messages ++ ([] : List (Message D)).map (true, ·) } = file := by simp
  have hhistory : history s.log = { history s.log with files := file :: files } := by rw [← hfiles]
  unfold writeLastMsg
  cases hcaches : (s.topicRuntimeMap id).cacheLastMsg with
  | false =>
    have hwanted : wanted s id = false := by rw [wanted, ← h.wired.caches, hcaches, Bool.false_and]
    have hcopies : copiesOf env s.mcapInfoMap (wanted s) (history s.log).accepted timestamp [id] = [] := by
      simp [copiesOf, hwanted]
    rw [hcopies, hsame]
    exact ⟨h, hhistory⟩
  | true =>
    have hcached : cachesLastMsg s.topics id = true := by rw [← h.wired.caches, hcaches]
    have hlast := h.lastMsg id hcached timestamp
    cases hm : (s.topicRuntimeMap id).lastMsg with
    | none =>
      rw [hm] at hlast
      have hnone : latest (history s.log).accepted id = none := Option.map_eq_none_iff.1 hlast.symm
      have hcopies : copiesOf env s.mcapInfoMap (wanted s) (history s.log).accepted timestamp [id] = [] := by
        simp [copiesOf, hnone]
      rw [hcopies, hsame]
      exact ⟨h, hhistory⟩
    | some m =>
      rw [hm, Option.map_some] at hlast
      obtain ⟨m', hm', hstamp⟩ := Option.map_eq_some_iff.1 hlast.symm
      have htopic : (stamp timestamp m).topicIndex = id := by
        rw [← hstamp]
        change m'.topicIndex = id
        exact topicIndex_of_latest hm'
      have hkeep := h.keepLastMsg hm timestamp
      change Recorded env (writeRecord env true (stamp timestamp m) (RecordAction.keepLastMsg id (stamp timestamp m) s)) ∧
        history (writeRecord env true (stamp timestamp m) (RecordAction.keepLastMsg id (stamp timestamp m) s)).log = _
      refine ⟨hkeep.writeRecord hmcap true _, ?_⟩
      obtain ⟨path', file', files', -, hid, hfiles', -, e⟩ | ⟨hnot, e⟩ :=
        history_writeRecord hkeep hmcap true (stamp timestamp m)
      · change (history s.log).files = file' :: files' at hfiles'
        rw [hfiles, List.cons.injEq] at hfiles'
        obtain ⟨rfl, rfl⟩ := hfiles'
        change inMcap s.topics _ = true at hid
        rw [htopic] at hid
        have hcopies : copiesOf env s.mcapInfoMap (wanted s) (history s.log).accepted timestamp [id] =
            [ownMessage env s.mcapInfoMap (stamp timestamp m)] := by
          simp [copiesOf, wanted, hcached, hid, hm', hstamp]
        rw [e, hcopies]
        rfl
      · change s.writer = none ∨ inMcap s.topics _ = false at hnot
        rw [hwriter, htopic] at hnot
        have hid := hnot.resolve_left (by simp)
        have hcopies : copiesOf env s.mcapInfoMap (wanted s) (history s.log).accepted timestamp [id] = [] := by
          simp [copiesOf, wanted, hid]
        rw [e, hcopies, hsame]
        exact hhistory

theorem copiesOf_cons (infos : List (ℕ × String)) (wanted : ℕ → Bool) (accepted : List (OneRecord D))
    (timestamp : UInt64) (id : ℕ) (ids : List ℕ) :
    copiesOf env infos wanted accepted timestamp (id :: ids) =
      copiesOf env infos wanted accepted timestamp [id] ++ copiesOf env infos wanted accepted timestamp ids := by
  simp only [copiesOf, List.filterMap_cons, List.filterMap_nil]
  split <;> rfl

theorem foldl_writeLastMsg_spec {s : RecordAction D F} (h : Recorded env s)
    (hmcap : WritesChannels env s.mcapInfoMap.length) {path : Path} (hwriter : s.writer = some path)
    {file : McapFile D} {files : List (McapFile D)} (hfiles : (history s.log).files = file :: files)
    (timestamp : UInt64) (ids : List ℕ) :
    Recorded env (ids.foldl (writeLastMsg env timestamp) s) ∧
      history (ids.foldl (writeLastMsg env timestamp) s).log =
        { history s.log with
          files := { file with messages := file.messages ++
            (copiesOf env s.mcapInfoMap (wanted s) (history s.log).accepted timestamp ids).map (true, ·) } :: files } := by
  induction ids generalizing s file with
  | nil =>
    refine ⟨h, ?_⟩
    simp [copiesOf, ← hfiles]
  | cons id ids ih =>
    obtain ⟨hone, hhistory⟩ := writeLastMsg_spec h hmcap hwriter hfiles timestamp id
    have hframe := writeLastMsg_frame env timestamp s id
    have hkept := writeLastMsg_kept env timestamp s id
    have hwanted : wanted (writeLastMsg env timestamp s id) = wanted s := wanted_congr hframe.topics
    obtain ⟨hrest, hhistory'⟩ := ih hone (by rw [hframe.mcapInfoMap]; exact hmcap) (by rw [hkept.writer, hwriter])
      (by rw [hhistory])
    refine ⟨hrest, ?_⟩
    rw [List.foldl_cons, hhistory', hframe.mcapInfoMap, hwanted, hhistory, copiesOf_cons _ _ _ _ id ids]
    simp

/-! ### Openings -/

theorem Recorded.openedMcap {s : RecordAction D F} (h : Recorded env s) (timestamp : UInt64) :
    Recorded env (openedMcap env timestamp s) ∧ history (openedMcap env timestamp s).log =
      { history s.log with
        files := ⟨mcapPath env s timestamp, timestamp, (history s.log).accepted, []⟩ :: (history s.log).files } := by
  have hhistory : history (RecordAction.openedMcap env timestamp s).log =
      { history s.log with
        files := ⟨mcapPath env s timestamp, timestamp, (history s.log).accepted, []⟩ :: (history s.log).files } :=
    history_append_singleton _ _
  refine ⟨⟨h.wired.openedMcap timestamp, ?_, ?_, ?_⟩, hhistory⟩
  · intro id hcaches timestamp'
    rw [hhistory]
    change (addChannels env s.mcapInfoMap s.topicRuntimeMap id).lastMsg.map _ = _
    rw [addChannels_runtime h.wired]
    exact h.lastMsg id hcaches timestamp'
  · intro path hpath
    rw [hhistory]
    exact ⟨_, _, rfl, Option.some.inj hpath⟩
  · have hpassed : passedOpen (RecordAction.openedMcap env timestamp s).log = passedOpen s.log := by
      change passedOpen (s.log ++ [Event.opened _ _ true]) = _
      rw [passedOpen_append]
      exact List.append_nil _
    rw [hhistory, hpassed, recordsOf_cons, h.records]
    exact List.append_nil _

theorem same_removeOldFile (s : RecordAction D F) : Same s (removeOldFile s) := by
  obtain e | ⟨file, rest, -, -, e⟩ := removeOldFile_cases s
  · rw [e]
    exact ⟨rfl, rfl, rfl, rfl, rfl, rfl, .inl rfl⟩
  · rw [e]
    refine ⟨history_append_singleton _ _, ?_, rfl, rfl, rfl, rfl, .inl rfl⟩
    rw [passedOpen_append]
    exact List.append_nil _

/-- What holds between two tasks. -/
structure Keeping (env : Env D F) (s : RecordAction D F) : Prop extends Recorded env s where
  allStart : AllStart env s
  mcap : WritesChannels env s.mcapInfoMap.length

theorem Keeping.same {s s' : RecordAction D F} (h : Keeping env s) (hs : Same s s') : Keeping env s' :=
  ⟨h.toRecorded.same hs, h.allStart.same hs, by rw [hs.mcapInfoMap]; exact h.mcap⟩

theorem Keeping.writeRecord {s : RecordAction D F} (h : Keeping env s) (r : OneRecord D) :
    Keeping env (writeRecord env false r s) :=
  ⟨h.toRecorded.writeRecord h.mcap false r, h.allStart.writeRecord h.toRecorded h.mcap r, by
    rw [(writeRecord_frame env false r s).mcapInfoMap]; exact h.mcap⟩

/-- **A file that is opened starts with its copies.** -/
theorem Keeping.openNewMcapToRecord {s : RecordAction D F} (h : Keeping env s) (timestamp : UInt64) :
    Keeping env (openNewMcapToRecord env timestamp s) := by
  have hmcap : (RecordAction.openNewMcapToRecord env timestamp s).mcapInfoMap = s.mcapInfoMap :=
    (openNewMcapToRecord_frame env timestamp s).mcapInfoMap
  unfold RecordAction.openNewMcapToRecord at hmcap ⊢
  split_ifs at hmcap ⊢
  · obtain ⟨hopened, hhistory⟩ := h.toRecorded.openedMcap timestamp
    have hs := same_removeOldFile (openedMcap env timestamp s)
    have hframe := openedMcap_frame env timestamp s
    have hwanted : wanted (removeOldFile (openedMcap env timestamp s)) = wanted s :=
      wanted_congr (hs.topics.trans hframe.topics)
    have hinfos : (removeOldFile (openedMcap env timestamp s)).mcapInfoMap = s.mcapInfoMap :=
      hs.mcapInfoMap.trans hframe.mcapInfoMap
    have hwriter : (removeOldFile (openedMcap env timestamp s)).writer = some (mcapPath env s timestamp) :=
      (removeOldFile_open _).1
    obtain ⟨hrec, hcopies⟩ := foldl_writeLastMsg_spec (hopened.same hs) (by rw [hinfos]; exact h.mcap) hwriter
      (by rw [hs.history, hhistory]) timestamp (removeOldFile (openedMcap env timestamp s)).topicOrder
    refine ⟨hrec, ?_, by rw [hmcap]; exact h.mcap⟩
    have hloop := writeLastMsgs_frame env timestamp (removeOldFile (openedMcap env timestamp s))
    have hwanted' : wanted (writeLastMsgs env timestamp (removeOldFile (openedMcap env timestamp s))) = wanted s :=
      (wanted_congr hloop.topics).trans hwanted
    rw [startMcap_eq, AllStart, hwanted', hloop.mcapInfoMap, hloop.topicOrder, hinfos, hs.topicOrder, hframe.topicOrder]
    intro file hfile
    rw [writeLastMsgs, hcopies, hs.history, hhistory, hinfos, hwanted, hs.topicOrder, hframe.topicOrder] at hfile
    rcases List.mem_cons.1 hfile with rfl | hfile
    · exact ⟨[], by simp⟩
    · exact h.allStart file hfile
  · refine h.same ⟨history_append_singleton _ _, ?_, rfl, rfl, rfl, rfl, .inr rfl⟩
    change passedOpen (s.log ++ [Event.opened _ _ false]) = _
    rw [passedOpen_append]
    exact List.append_nil _

theorem Keeping.startFolder {s : RecordAction D F} (h : Keeping env s) (folder : String) :
    Keeping env (startFolder env folder s) := by
  have hpassed : passedOpen (s.log ++ [Event.created folder]) = passedOpen s.log := by
    rw [passedOpen_append]
    exact List.append_nil _
  have henter : Keeping env (enterFolder folder s) :=
    h.same ⟨history_append_singleton s.log (.created folder), hpassed, rfl, rfl, rfl, rfl, .inl rfl⟩
  exact henter.openNewMcapToRecord _

theorem Keeping.openNewFolderToRecord {s : RecordAction D F} (h : Keeping env s) :
    Keeping env (openNewFolderToRecord env s).2 := by
  unfold RecordAction.openNewFolderToRecord
  split_ifs
  · exact h.same ⟨rfl, rfl, rfl, rfl, rfl, rfl, .inl rfl⟩
  · exact h.startFolder _
  · exact h.same ⟨rfl, rfl, rfl, rfl, rfl, rfl, .inl rfl⟩

theorem Keeping.addRecordImpl {s : RecordAction D F} (h : Keeping env s) (r : OneRecord D) :
    Keeping env (addRecordImpl env r s) := by
  unfold RecordAction.addRecordImpl
  refine Keeping.writeRecord ?_ r
  split_ifs
  · have hreset : Keeping env (resetSize env s) := h.same ⟨rfl, rfl, rfl, rfl, rfl, rfl, .inl rfl⟩
    unfold rotate
    split_ifs
    · exact hreset.openNewFolderToRecord
    · exact hreset.openNewMcapToRecord _
  · exact h

theorem Keeping.foldl_addRecordImpl {s : RecordAction D F} (h : Keeping env s) (rs : List (OneRecord D)) :
    Keeping env (rs.foldl (fun s r => RecordAction.addRecordImpl env r s) s) := by
  induction rs generalizing s with
  | nil => exact h
  | cons r rs ih => exact ih (h.addRecordImpl r)

/-! ### Tasks -/

/-- The map keeps a record that is accepted. -/
theorem Keeping.addRecord {s : RecordAction D F} (h : Keeping env s) (r : OneRecord D) :
    Keeping env (addRecord r s) := by
  unfold RecordAction.addRecord
  split_ifs
  · have hhistory : history (s.log ++ [Event.accepted r]) =
        { history s.log with accepted := (history s.log).accepted ++ [r] } := history_append_singleton _ _
    have hpassed : passedOpen (s.log ++ [Event.accepted r]) = passedOpen s.log := by
      rw [passedOpen_append]
      exact List.append_nil _
    refine { wired := ?_, lastMsg := ?_, writer := ?_, records := ?_, allStart := ?_, mcap := h.mcap }
    · refine h.wired.of_runtime rfl rfl (fun path hpath => ⟨path, hpath⟩) fun id => ?_
      by_cases hid : id = r.topicIndex
      · subst hid
        simp [logged]
      · simp [logged, Function.update_of_ne hid]
    · intro id hcaches timestamp
      change _ = (latest (history (s.log ++ [Event.accepted r])).accepted id).map _
      rw [hhistory]
      by_cases hid : id = r.topicIndex
      · subst hid
        have hcached : (s.topicRuntimeMap r.topicIndex).cacheLastMsg = true := by
          rw [h.wired.caches]
          exact hcaches
        simp [logged, hcached, latest_append_self]
      · simp only [logged, Function.update_of_ne hid, latest_append_of_ne _ hid]
        exact h.lastMsg id hcaches timestamp
    · intro path hpath
      change ∃ file files, (history (s.log ++ [Event.accepted r])).files = file :: files ∧ _
      rw [hhistory]
      exact h.writer path hpath
    · change recordsOf (history (s.log ++ [Event.accepted r])).files =
        ((passedOpen (s.log ++ [Event.accepted r])).filter _).map _
      rw [hhistory, hpassed]
      exact h.records
    · change ∀ file ∈ (history (s.log ++ [Event.accepted r])).files, _
      rw [hhistory]
      exact h.allStart
  · exact h

theorem Keeping.takeRecord {s : RecordAction D F} (h : Keeping env s) (r : OneRecord D) :
    Keeping env (takeRecord env r s) := by
  unfold RecordAction.takeRecord cacheRecord
  split_ifs
  · exact h.addRecordImpl r
  · exact h.same ⟨rfl, rfl, rfl, rfl, rfl, rfl, .inl rfl⟩
  · exact h.same ⟨rfl, rfl, rfl, rfl, rfl, rfl, .inl rfl⟩

theorem Keeping.stopOverdue {s : RecordAction D F} (h : Keeping env s) (r : OneRecord D) :
    Keeping env (stopOverdue r s) := by
  unfold RecordAction.stopOverdue
  split_ifs
  · exact h.same ⟨rfl, rfl, rfl, rfl, rfl, rfl, .inr rfl⟩
  · exact h

theorem Keeping.recordTask {s : RecordAction D F} (h : Keeping env s) (r : OneRecord D) :
    Keeping env (recordTask env r s) := by
  unfold RecordAction.recordTask
  split_ifs
  · split
    · exact h.addRecordImpl r
    · exact (h.stopOverdue r).takeRecord r
  · exact h

theorem Keeping.writeCaches {s : RecordAction D F} (h : Keeping env s) (start : UInt64) :
    Keeping env (writeCaches env start s) := by
  unfold RecordAction.writeCaches
  split_ifs
  · exact h
  · exact (h.foldl_addRecordImpl _).same ⟨rfl, rfl, rfl, rfl, rfl, rfl, .inl rfl⟩

theorem Keeping.startTask {s : RecordAction D F} (h : Keeping env s) (preparationDurationS recordDurationS : UInt64) :
    Keeping env (startTask env preparationDurationS recordDurationS s).2.2 := by
  unfold RecordAction.startTask
  split_ifs
  · have hflagged : Keeping env (flagged s) := h.same ⟨rfl, rfl, rfl, rfl, rfl, rfl, .inl rfl⟩
    have hfolder := hflagged.openNewFolderToRecord
    cases hopen : RecordAction.openNewFolderToRecord env (flagged s) with
    | mk ret opened =>
      rw [hopen] at hfolder
      cases ret with
      | true =>
        have hready : Keeping env { called opened with
            stopRecordTimestamp := if recordDurationS = 0 then 0
              else env.curTimestampNs opened.calls + recordDurationS * 1000000000 } :=
          hfolder.same ⟨rfl, rfl, rfl, rfl, rfl, rfl, .inl rfl⟩
        exact hready.writeCaches _
      | false => exact hfolder
  · exact h

theorem Keeping.stopTask {s : RecordAction D F} (h : Keeping env s) : Keeping env (stopTask s) := by
  unfold RecordAction.stopTask
  split_ifs
  · exact h.same ⟨rfl, rfl, rfl, rfl, rfl, rfl, .inr rfl⟩
  · exact h

end RecordAction

end AimRT.RecordPlayback
