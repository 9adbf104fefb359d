import AimRT.RecordPlayback.BagPlayback

/-!
# The topics of what is played back

The recorder numbers its topics and knows each by its name and its type; a channel of a file has the name of its topic
alone.  The player finds the topic of a channel by this name, and of several topics with one name it takes the last one.

What a message was recorded for is not in the bag.  It is put into the buffers: the player does not look at them, so
that a run with other buffers is the same run (`foldl_step_mapData`).
-/

namespace AimRT.RecordPlayback

/-! ### Other buffers -/

section

variable {D E : Type} (f : D → E)

def Message.mapData (m : Message D) : Message E where
  channelId := m.channelId
  sequence := m.sequence
  logTime := m.logTime
  publishTime := m.publishTime
  data := f m.data

def BagFile.mapData (file : BagFile D) : BagFile E where
  fileMeta := file.fileMeta
  isFile := file.isFile
  opens := file.opens
  channels := file.channels
  messages := file.messages.map (Message.mapData f)
  nodup := file.nodup

def PlaybackRecord.mapData (r : PlaybackRecord D) : PlaybackRecord E where
  topicIndex := r.topicIndex
  dt := r.dt
  buffer := f r.buffer

def PlaybackAction.mapData (s : PlaybackAction D) : PlaybackAction E where
  options := s.options
  state := s.state
  topics := s.topics
  files := s.files.map (BagFile.mapData f)
  topicNameToTopicIdMap := s.topicNameToTopicIdMap
  channelIdToTopicIdMap := s.channelIdToTopicIdMap
  msgReader := s.msgReader.map (List.map (Message.mapData f))
  curMcapFileIndex := s.curMcapFileIndex
  startTimestamp := s.startTimestamp
  startPlaybackTimestamp := s.startPlaybackTimestamp
  stopPlaybackTimestamp := s.stopPlaybackTimestamp
  playbackState := s.playbackState
  undefined := s.undefined

def Task.mapData (task : Task D) : Task E where
  run := task.run
  tp := task.tp
  record := task.record.mapData f
  last := task.last

def Player.mapData (y : Player D) : Player E where
  action := y.action.mapData f
  entering := y.entering
  reading := y.reading
  tasks := y.tasks.map (Task.mapData f)
  fired := y.fired.map (Task.mapData f)
  runs := y.runs
  stopped := y.stopped

end

namespace PlaybackAction

variable {D E : Type} (f : D → E)

theorem startPlaybackOf_mapData (files : List (BagFile D)) (skipDurationS : UInt64) :
    startPlaybackOf (files.map (BagFile.mapData f)) skipDurationS = startPlaybackOf files skipDurationS := by
  rw [startPlaybackOf, List.head?_map, Option.map_map]
  rfl

theorem readMessages_mapData (s : PlaybackAction D) (file : BagFile D) :
    readMessages (s.mapData f) (file.mapData f) = (readMessages s file).map (Message.mapData f) := by
  unfold readMessages
  rw [BagFile.mapData, List.filter_map]
  rfl

theorem openedFile_mapData (s : PlaybackAction D) (file : BagFile D) :
    openedFile (s.mapData f) (file.mapData f) = (openedFile s file).mapData f := by
  rw [openedFile, readMessages_mapData]
  rfl

theorem seek_mapData (s : PlaybackAction D) : seek (s.mapData f) = ((seek s).1, (seek s).2.mapData f) := by
  have hopen : openNewMcaptoPlayBack (s.mapData f) =
      ((openNewMcaptoPlayBack s).1, (openNewMcaptoPlayBack s).2.mapData f) := by
    have hfile : (s.mapData f).files[(s.mapData f).curMcapFileIndex]? =
        (s.files[s.curMcapFileIndex]?).map (BagFile.mapData f) := List.getElem?_map
    unfold openNewMcaptoPlayBack
    rw [hfile]
    cases s.files[s.curMcapFileIndex]? with
    | none => rfl
    | some file =>
      have hplayable : playable (s.mapData f) (file.mapData f) = playable s file := rfl
      simp only [Option.map_some, hplayable, openedFile_mapData]
      split_ifs <;> rfl
  unfold seek
  have hreader : (s.mapData f).msgReader = s.msgReader.map (List.map (Message.mapData f)) := rfl
  rw [hreader]
  cases s.msgReader with
  | none => exact hopen
  | some messages =>
    cases messages with
    | nil => exact hopen
    | cons m rest => rfl

/-! ### One turn of the loop -/

variable {s : PlaybackAction D} {records : List (PlaybackRecord D)} {curStartTimestamp : UInt64}

theorem readRecords_of_false (h : (seek s).1 = false) :
    readRecords s records curStartTimestamp = (records, (seek s).2) := by
  unfold readRecords
  split <;> simp_all

theorem readRecords_of_cons (h : (seek s).1 = true) {m : Message D} {rest : List (Message D)}
    (hreader : (seek s).2.msgReader = some (m :: rest)) :
    readRecords s records curStartTimestamp =
      if isBehind (seek s).2 m then (records, { advance rest (seek s).2 with playbackState := .getStopSignal })
      else if curStartTimestamp = 0 then
        readRecords (advance rest (seek s).2) (records ++ [recordOf (seek s).2 m]) m.logTime
      else if 1000000000 ≤ m.logTime - curStartTimestamp ∨ 1000 ≤ records.length + 1 then
        (records ++ [recordOf (seek s).2 m], advance rest (seek s).2)
      else readRecords (advance rest (seek s).2) (records ++ [recordOf (seek s).2 m]) curStartTimestamp := by
  conv_lhs => unfold readRecords
  split <;> simp_all

theorem readRecords_of_end (h : (seek s).1 = true) (hreader : ∀ m rest, (seek s).2.msgReader ≠ some (m :: rest)) :
    readRecords s records curStartTimestamp = (records, { (seek s).2 with undefined := true }) := by
  unfold readRecords
  split <;> simp_all

/-- A batch is the same batch with other buffers. -/
theorem readRecords_mapData (s : PlaybackAction D) (records : List (PlaybackRecord D)) (curStartTimestamp : UInt64) :
    readRecords (s.mapData f) (records.map (PlaybackRecord.mapData f)) curStartTimestamp =
      ((readRecords s records curStartTimestamp).1.map (PlaybackRecord.mapData f),
        (readRecords s records curStartTimestamp).2.mapData f) := by
  have hgoes {s : PlaybackAction D} {result} (h : (seek s).1 = result) : (seek (s.mapData f)).1 = result := by
    rw [seek_mapData, h]
  have hreader {s : PlaybackAction D} {m rest} (h : (seek s).2.msgReader = some (m :: rest)) :
      (seek (s.mapData f)).2.msgReader = some (m.mapData f :: rest.map (Message.mapData f)) := by
    rw [seek_mapData]
    exact congrArg (Option.map (List.map (Message.mapData f))) h
  have hbehind (s : PlaybackAction D) (m : Message D) :
      isBehind (seek (s.mapData f)).2 (m.mapData f) = isBehind (seek s).2 m := by
    rw [seek_mapData]
    rfl
  have hnext (s : PlaybackAction D) (rest : List (Message D)) :
      advance (rest.map (Message.mapData f)) (seek (s.mapData f)).2 = (advance rest (seek s).2).mapData f := by
    rw [seek_mapData]
    rfl
  have hrecords (s : PlaybackAction D) (records : List (PlaybackRecord D)) (m : Message D) :
      records.map (PlaybackRecord.mapData f) ++ [recordOf (seek (s.mapData f)).2 (m.mapData f)] =
        (records ++ [recordOf (seek s).2 m]).map (PlaybackRecord.mapData f) := by
    rw [seek_mapData, List.map_append]
    rfl
  fun_induction readRecords s records curStartTimestamp
  case case1 s records _ hfalse =>
    rw [readRecords_of_false (hgoes hfalse), seek_mapData]
  case case2 s records _ m rest hmsg htrue hlate =>
    rw [readRecords_of_cons (hgoes htrue) (hreader hmsg), hbehind, if_pos hlate, hnext]
    rfl
  case case3 s records m rest hmsg htrue hlate ih =>
    rw [readRecords_of_cons (hgoes htrue) (hreader hmsg), hbehind, if_neg hlate, if_pos rfl, hnext, hrecords]
    exact ih
  case case4 s records _ m rest hmsg htrue hlate hfirst hfull =>
    rw [readRecords_of_cons (hgoes htrue) (hreader hmsg), hbehind, if_neg hlate, if_neg hfirst, List.length_map,
      if_pos (by exact hfull), hnext, hrecords]
  case case5 s records _ m rest hmsg htrue hlate hfirst hfull ih =>
    rw [readRecords_of_cons (hgoes htrue) (hreader hmsg), hbehind, if_neg hlate, if_neg hfirst, List.length_map,
      if_neg (by exact hfull), hnext, hrecords]
    exact ih
  case case6 s records _ htrue hnone =>
    rw [readRecords_of_end (hgoes htrue), seek_mapData]
    · rfl
    · intro m rest hmsg
      rw [seek_mapData] at hmsg
      obtain ⟨messages, hmessages, hcons⟩ := Option.map_eq_some_iff.1 hmsg
      obtain ⟨m', rest', rfl, -, -⟩ := List.map_eq_cons_iff.1 hcons
      exact hnone m' rest' hmessages

theorem addPlaybackTasks_mapData (s : PlaybackAction D) :
    addPlaybackTasks (s.mapData f) =
      ((addPlaybackTasks s).1.map (PlaybackRecord.mapData f), (addPlaybackTasks s).2.mapData f) := by
  have hread := readRecords_mapData f s [] 0
  rw [List.map_nil] at hread
  unfold addPlaybackTasks
  rw [hread, List.isEmpty_map]
  split_ifs <;> rfl

end PlaybackAction

namespace Player

open PlaybackAction

variable {D E : Type} (f : D → E)

theorem tasksOf_mapData (run : ℕ) (startTimestamp : UInt64) (records : List (PlaybackRecord D)) :
    tasksOf run startTimestamp (records.map (PlaybackRecord.mapData f)) =
      (tasksOf run startTimestamp records).map (Task.mapData f) := by
  induction records with
  | nil => rfl
  | cons record records ih =>
    cases records with
    | nil => rfl
    | cons record' records => exact congrArg _ ih

theorem release_mapData (y : Player D) : release (y.mapData f) = (release y).mapData f := by
  have hholders : holders (y.mapData f) = holders y := by
    unfold holders
    rw [Player.mapData, List.countP_map]
    rfl
  unfold release
  rw [hholders]
  split_ifs <;> rfl

theorem begin_mapData (skipDurationS playDurationS now : UInt64) (y : Player D) :
    begin skipDurationS playDurationS now (y.mapData f) = (begin skipDurationS playDurationS now y).mapData f := by
  have himpl : startPlaybackImpl skipDurationS playDurationS now (y.action.mapData f) =
      (startPlaybackImpl skipDurationS playDurationS now y.action).mapData f := by
    unfold startPlaybackImpl
    simp only [PlaybackAction.mapData, startPlaybackOf_mapData]
  have haction : (y.mapData f).action = y.action.mapData f := rfl
  rw [begin, haction, himpl]
  rfl

theorem readBatch_mapData (y : Player D) : readBatch (y.mapData f) = (readBatch y).mapData f := by
  unfold readBatch
  have hadd : addPlaybackTasks (y.mapData f).action = _ := addPlaybackTasks_mapData f y.action
  rw [hadd, tasksOf_mapData]
  simp [Player.mapData, PlaybackAction.mapData]

theorem step_mapData (y : Player D) (op : Op) : step (y.mapData f) op = (step y op).mapData f := by
  cases op with
  | start now =>
    have hstart : startAction now (y.mapData f) = (startAction now y).mapData f := by
      refine Eq.trans ?_ (apply_ite (Player.mapData f) _ _ _).symm
      rw [← begin_mapData]
      rfl
    refine Eq.trans ?_ (apply_ite (Player.mapData f) _ _ _).symm
    rw [← hstart]
    rfl
  | signal skipDurationS playDurationS now =>
    refine Eq.trans ?_ (apply_ite (Player.mapData f) _ _ _).symm
    rw [← begin_mapData]
    rfl
  | stop =>
    refine Eq.trans ?_ (apply_ite (Player.mapData f) _ _ _).symm
    rfl
  | enter =>
    have hentering : (y.mapData f).entering = y.entering := rfl
    simp only [step, hentering]
    cases y.entering with
    | zero => rfl
    | succ n =>
      refine Eq.trans ?_ (apply_ite (Player.mapData f) _ _ _).symm
      rw [← release_mapData]
      rfl
  | read =>
    have hreading : (y.mapData f).reading = y.reading := rfl
    simp only [step, hreading]
    cases y.reading with
    | zero => rfl
    | succ n =>
      change release (readBatch (Player.mapData f { y with reading := n })) = _
      rw [readBatch_mapData, release_mapData]
  | fire i =>
    have htask : (y.mapData f).tasks[i]? = (y.tasks[i]?).map (Task.mapData f) := List.getElem?_map
    simp only [step, htask]
    cases y.tasks[i]? with
    | none => rfl
    | some task => simp [Player.mapData, Task.mapData, List.eraseIdx_map]

theorem foldl_step_mapData (y : Player D) (ops : List Op) :
    ops.foldl step (y.mapData f) = (ops.foldl step y).mapData f := by
  induction ops generalizing y with
  | nil => rfl
  | cons op ops ih => rw [List.foldl_cons, step_mapData, ih, List.foldl_cons]

end Player

/-! ### What is published -/

namespace PlaybackAction

variable {D : Type} (Q : ℕ → D → Prop)

/-- The messages that are read have a relation between their topics and their buffers. -/
structure Publishes (s : PlaybackAction D) : Prop where
  files : ∀ file ∈ s.files, ∀ m ∈ file.messages, ∀ id, topicOfChannel s file m.channelId = some id → Q id m.data
  reader : ∀ m ∈ s.msgReader.getD [], Q (s.channelIdToTopicIdMap m.channelId) m.data

variable {Q} {s : PlaybackAction D}

/-- The map from the channels to the topics is right for the file that is open, whatever it has from other files. -/
theorem Publishes.seek (h : Publishes Q s) : Publishes Q (seek s).2 := by
  have hsought := sought_seek s
  generalize PlaybackAction.seek s = result at hsought ⊢
  cases hsought with
  | inFront => exact h
  | noFile => exact ⟨h.files, nofun⟩
  | @accepted file _ hfile =>
    refine ⟨h.files, fun m hm => ?_⟩
    obtain ⟨hmem, -, -, htopic⟩ := mem_readMessages.1 hm
    obtain ⟨id, hid⟩ := Option.isSome_iff_exists.1 htopic
    have hmap : (openedFile s file).channelIdToTopicIdMap m.channelId = id := mapChannels_eq hid
    rw [hmap]
    exact h.files file (List.mem_of_getElem? hfile) m hmem id hid
  | refused => exact ⟨h.files, nofun⟩

theorem Publishes.read (h : Publishes Q s) {m : Message D} {rest : List (Message D)}
    (hreader : (PlaybackAction.seek s).2.msgReader = some (m :: rest)) :
    Publishes Q (advance rest (PlaybackAction.seek s).2) ∧
      Q (recordOf (PlaybackAction.seek s).2 m).topicIndex (recordOf (PlaybackAction.seek s).2 m).buffer := by
  have hread := h.seek.reader
  rw [hreader] at hread
  exact ⟨⟨h.seek.files, fun m' hm' => hread m' (List.mem_cons_of_mem _ hm')⟩, hread m List.mem_cons_self⟩

theorem Publishes.readRecords (h : Publishes Q s) {records : List (PlaybackRecord D)}
    (hrecords : ∀ r ∈ records, Q r.topicIndex r.buffer) (curStartTimestamp : UInt64) :
    Publishes Q (readRecords s records curStartTimestamp).2 ∧
      ∀ r ∈ (readRecords s records curStartTimestamp).1, Q r.topicIndex r.buffer := by
  have happend {records : List (PlaybackRecord D)} (hrecords : ∀ r ∈ records, Q r.topicIndex r.buffer)
      {r : PlaybackRecord D} (hr : Q r.topicIndex r.buffer) : ∀ r' ∈ records ++ [r], Q r'.topicIndex r'.buffer := by
    intro r' hr'
    rcases List.mem_append.1 hr' with hold | hnew
    · exact hrecords r' hold
    · rw [List.mem_singleton.1 hnew]
      exact hr
  fun_induction PlaybackAction.readRecords s records curStartTimestamp
  case case1 s records _ _ => exact ⟨h.seek, hrecords⟩
  case case2 s records _ m rest hreader _ _ =>
    obtain ⟨hnext, -⟩ := h.read hreader
    exact ⟨⟨hnext.files, hnext.reader⟩, hrecords⟩
  case case3 s records m rest hreader _ _ ih =>
    obtain ⟨hnext, hr⟩ := h.read hreader
    exact ih hnext (happend hrecords hr)
  case case4 s records _ m rest hreader _ _ _ _ =>
    obtain ⟨hnext, hr⟩ := h.read hreader
    exact ⟨hnext, happend hrecords hr⟩
  case case5 s records _ m rest hreader _ _ _ _ ih =>
    obtain ⟨hnext, hr⟩ := h.read hreader
    exact ih hnext (happend hrecords hr)
  case case6 s records _ _ _ => exact ⟨⟨h.seek.files, h.seek.reader⟩, hrecords⟩

theorem Publishes.addPlaybackTasks (h : Publishes Q s) :
    Publishes Q (addPlaybackTasks s).2 ∧ ∀ r ∈ (addPlaybackTasks s).1, Q r.topicIndex r.buffer := by
  have hnone : ∀ r ∈ ([] : List (PlaybackRecord D)), Q r.topicIndex r.buffer := nofun
  obtain ⟨hnext, hrecords⟩ := h.readRecords hnone 0
  unfold PlaybackAction.addPlaybackTasks
  split_ifs
  · exact ⟨⟨hnext.files, hnext.reader⟩, nofun⟩
  · exact ⟨hnext, hrecords⟩

end PlaybackAction

namespace Player

open PlaybackAction

variable {D : Type} (Q : ℕ → D → Prop)

/-- The tasks, too, have the relation. -/
structure Related (y : Player D) : Prop where
  action : Publishes Q y.action
  tasks : ∀ task ∈ y.fired ++ y.tasks, Q task.record.topicIndex task.record.buffer

variable {Q} {y : Player D}

theorem Related.of_same (h : Related Q y) {y' : Player D} (hfiles : y'.action.files = y.action.files)
    (hids : y'.action.topicNameToTopicIdMap = y.action.topicNameToTopicIdMap)
    (hmap : y'.action.channelIdToTopicIdMap = y.action.channelIdToTopicIdMap)
    (hreader : y'.action.msgReader = y.action.msgReader) (hfired : y'.fired = y.fired) (htasks : y'.tasks = y.tasks) :
    Related Q y' := by
  refine ⟨⟨?_, ?_⟩, ?_⟩
  · unfold topicOfChannel
    rw [hfiles, hids]
    exact h.action.files
  · rw [hmap, hreader]
    exact h.action.reader
  · rw [hfired, htasks]
    exact h.tasks

theorem Related.release (h : Related Q y) : Related Q (release y) := by
  unfold Player.release
  split_ifs
  · exact h.of_same rfl rfl rfl rfl rfl rfl
  · exact h

theorem Related.startAction (h : Related Q y) (now : UInt64) : Related Q (startAction now y) := by
  unfold Player.startAction
  dsimp only
  split_ifs
  · exact h.of_same rfl rfl rfl rfl rfl rfl
  · exact h.of_same rfl rfl rfl rfl rfl rfl

theorem Related.step (h : Related Q y) (op : Op) : Related Q (step y op) := by
  cases op with
  | start now =>
    simp only [Player.step]
    split_ifs
    · exact h.startAction now
    · exact h
  | signal skipDurationS playDurationS now =>
    simp only [Player.step]
    split_ifs
    · exact h.of_same rfl rfl rfl rfl rfl rfl
    · exact h
  | stop =>
    simp only [Player.step]
    split_ifs
    · exact h.of_same rfl rfl rfl rfl rfl rfl
    · exact h
  | enter =>
    simp only [Player.step]
    split
    · exact h
    · split_ifs
      · refine Related.release ?_
        exact h.of_same rfl rfl rfl rfl rfl rfl
      · exact h.of_same rfl rfl rfl rfl rfl rfl
  | read =>
    simp only [Player.step]
    split
    · exact h
    · obtain ⟨hnext, hrecords⟩ := h.action.addPlaybackTasks
      refine Related.release ⟨hnext, fun task htask => ?_⟩
      change task ∈ y.fired ++ (y.tasks ++ tasksOf _ _ (PlaybackAction.addPlaybackTasks y.action).1) at htask
      rw [← List.append_assoc, List.mem_append] at htask
      rcases htask with hold | hnew
      · exact h.tasks task hold
      · exact hrecords _ (mem_tasksOf hnew).2
  | fire i =>
    simp only [Player.step]
    split
    · exact h
    next task htask =>
      refine ⟨h.action, fun task' htask' => h.tasks task' ?_⟩
      simp only [List.append_assoc, List.singleton_append, List.mem_append, List.mem_cons] at htask' ⊢
      rcases htask' with hfired | rfl | hrest
      · exact .inl hfired
      · exact .inr (List.mem_of_getElem? htask)
      · exact .inr (List.mem_of_mem_eraseIdx hrest)

theorem Related.foldl (h : Related Q y) (ops : List Op) : Related Q (ops.foldl Player.step y) := by
  induction ops generalizing y with
  | nil => exact h
  | cons op ops ih => exact ih (h.step op)

end Player

/-! ### Recorded files -/

/-- The name of a topic of the recorder. -/
def topicNameOf {F : Type} (topics : List (TopicMeta F)) (id : ℕ) : String :=
  (topics[id]?.map TopicMeta.topicName).getD ""

/-- A file that was recorded: its channels with the topics for which they were added, each file having a numbering of
its own, and its messages with the topics they were recorded for. -/
structure RecordedFile (D : Type) {F : Type} (topics : List (TopicMeta F)) where
  fileMeta : FileMeta
  isFile : Bool
  opens : Bool
  channels : List (UInt16 × ℕ)
  messages : List (ℕ × Message D)
  nodup : (channels.map Prod.fst).Nodup
  known : ∀ channel ∈ channels, channel.2 < topics.length
  own : ∀ m ∈ messages, (m.2.channelId, m.1) ∈ channels

variable {D F : Type} {topics : List (TopicMeta F)}

/-- The file as it is in the bag, with the topics of its messages in front of the buffers. -/
def RecordedFile.marked (file : RecordedFile D topics) : BagFile (ℕ × D) where
  fileMeta := file.fileMeta
  isFile := file.isFile
  opens := file.opens
  channels := file.channels.map fun channel => (channel.1, topicNameOf topics channel.2)
  messages := file.messages.map fun m => m.2.mapData (Prod.mk m.1)
  nodup := by
    rw [List.map_map]
    exact file.nodup

def Bag.mapData {D E : Type} (f : D → E) (bag : Bag D) : Bag E where
  version := bag.version
  topics := bag.topics
  files := bag.files.map (BagFile.mapData f)

/-- The bag of a recorder with so many topics. -/
def markedBag (topics : List (TopicMeta F)) (files : List (RecordedFile D topics)) : Bag (ℕ × D) where
  version := kVersion
  topics := topics.map bagTopic
  files := files.map RecordedFile.marked

/-- Of the topics that are selected and have the name of a topic, that topic is the last one. -/
def LastOfName (topics : List (TopicMeta F)) (selected : List BagTopic) (id : ℕ) : Prop :=
  (selected.filter fun t => t.topicName = topicNameOf topics id).getLast? = topics[id]?.map bagTopic

namespace PlaybackAction

theorem initializePlayback_mapData {D E : Type} (f : D → E)
    (typeSupport : String → Option ((String → Bool) × String)) (options : PlaybackOptions) (bag : Bag D) :
    initializePlayback typeSupport options (bag.mapData f) =
      (initializePlayback typeSupport options bag).map (PlaybackAction.mapData f) := by
  have hfiles : (bag.mapData f).files.filter BagFile.isFile =
      (bag.files.filter BagFile.isFile).map (BagFile.mapData f) := List.filter_map
  have hindex : ∀ (files : List (BagFile D)) (startPlaybackTimestamp : UInt64),
      fileIndexOf (files.map (BagFile.mapData f)) startPlaybackTimestamp =
        fileIndexOf files startPlaybackTimestamp := by
    intro files startPlaybackTimestamp
    rw [fileIndexOf, ← List.map_tail, List.takeWhile_map, List.length_map]
    rfl
  have hversion : (bag.mapData f).version = bag.version := rfl
  have htopics : (bag.mapData f).topics = bag.topics := rfl
  have hempty : (bag.mapData f).files.isEmpty = bag.files.isEmpty := List.isEmpty_map
  have hconfigured (topics : List BagTopic) (files : List (BagFile D)) :
      configuredPlayback options topics (files.map (BagFile.mapData f)) =
        (configuredPlayback options topics files).mapData f := by
    unfold configuredPlayback
    simp only [startPlaybackOf_mapData, hindex]
    rfl
  unfold initializePlayback
  rw [hfiles, hversion, htopics, hempty, List.isEmpty_map, hconfigured]
  cases (selectTopics options.topicMetaList bag.topics).forM (checkBagTopic typeSupport) with
  | error e => split_ifs <;> rfl
  | ok _ => split_ifs <;> rfl

theorem topicIdsOf_eq_getLast? (topics : List BagTopic) (name : String) :
    topicIdsOf topics name = (topics.filter fun t => t.topicName = name).getLast?.map BagTopic.id := by
  induction topics using List.reverseRecOn with
  | nil => rfl
  | append_singleton topics t ih =>
    have happend : topicIdsOf (topics ++ [t]) = Function.update (topicIdsOf topics) t.topicName (some t.id) := by
      rw [topicIdsOf, List.foldl_append]
      rfl
    rw [happend, List.filter_append]
    by_cases hname : t.topicName = name
    · rw [← hname, Function.update_self]
      simp
    · rw [Function.update_of_ne (Ne.symm hname), ih]
      simp [hname]

theorem selectTopics_subset (selected : List (String × String)) (topics : List BagTopic) :
    selectTopics selected topics ⊆ topics := by
  intro t ht
  unfold selectTopics at ht
  dsimp only at ht
  split_ifs at ht
  · exact ht
  · obtain ⟨item, -, hfind⟩ := List.mem_filterMap.1 ht
    exact List.mem_of_find?_eq_some hfind

/-- The topic of a channel is the one it was added for if that is the last one of its name. -/
theorem topicOfChannel_marked (hnumbered : Numbered topics) {selected : List (String × String)}
    {s : PlaybackAction (ℕ × D)}
    (hs : s.topicNameToTopicIdMap = topicIdsOf (selectTopics selected (topics.map bagTopic)))
    (file : RecordedFile D topics) {m : Message (ℕ × D)} (hm : m ∈ file.marked.messages) {id : ℕ}
    (h : topicOfChannel s file.marked m.channelId = some id) :
    id = m.data.1 ↔ LastOfName topics (selectTopics selected (topics.map bagTopic)) m.data.1 := by
  obtain ⟨⟨k, m⟩, hmem, rfl⟩ := List.mem_map.1 hm
  have hown := file.own _ hmem
  have hlookup : file.marked.channels.lookup m.channelId = some (topicNameOf topics k) := by
    have hmarked : (m.channelId, topicNameOf topics k) ∈ file.marked.channels := List.mem_map.2 ⟨_, hown, rfl⟩
    exact Lib.Assoc.lookup_eq_some_of_mem file.marked.nodup hmarked
  change (file.marked.channels.lookup m.channelId).bind s.topicNameToTopicIdMap = some id at h
  rw [hlookup, Option.bind_some, hs, topicIdsOf_eq_getLast?] at h
  change id = k ↔ LastOfName topics _ k
  obtain ⟨t, ht, rfl⟩ := Option.map_eq_some_iff.1 h
  obtain ⟨u, hu⟩ : ∃ u, topics[k]? = some u := ⟨_, List.getElem?_eq_getElem (file.known _ hown)⟩
  rw [LastOfName, ht, hu, Option.map_some, Option.some.injEq]
  constructor
  · intro hid
    have hmem := List.mem_of_mem_filter (List.mem_of_getLast? ht)
    obtain ⟨u', hu', rfl⟩ := List.mem_map.1 (selectTopics_subset _ _ hmem)
    obtain ⟨j, hj⟩ := List.mem_iff_getElem?.1 hu'
    have hjk : j = k := (hnumbered j u' hj).symm.trans hid
    rw [hjk, hu, Option.some.injEq] at hj
    rw [hj]
  · intro heq
    rw [heq]
    exact hnumbered k u hu

end PlaybackAction

namespace Player

open PlaybackAction RecordAction Recorder

/-- **A message is published on the topic it was recorded for if and only if this is the last one of the selected topics
with its name.**  The messages are those of a bag whose buffers have the topics in front; but for that the run is the
one of the bag. -/
theorem published_iff {topicMetaList topics : List (TopicMeta F)} (hnumber : numberTopics [] topicMetaList = .ok topics)
    (files : List (RecordedFile D topics)) {typeSupport : String → Option ((String → Bool) × String)}
    {options : PlaybackOptions} {s : PlaybackAction (ℕ × D)}
    (hinit : initializePlayback typeSupport options (markedBag topics files) = .ok s) (ops : List Op) :
    initializePlayback typeSupport options ((markedBag topics files).mapData Prod.snd) = .ok (s.mapData Prod.snd) ∧
      ops.foldl step (loaded (s.mapData Prod.snd)) = (ops.foldl step (loaded s)).mapData Prod.snd ∧
      ∀ task ∈ (ops.foldl step (loaded s)).fired ++ (ops.foldl step (loaded s)).tasks,
        (task.record.topicIndex = task.record.buffer.1 ↔
          LastOfName topics (selectTopics options.topicMetaList (topics.map bagTopic)) task.record.buffer.1) := by
  refine ⟨by rw [initializePlayback_mapData, hinit]; rfl, foldl_step_mapData Prod.snd (loaded s) ops, ?_⟩
  have hs := of_initializePlayback hinit
  refine (Related.foldl (y := loaded s) (Q := fun id data => (id = data.1 ↔
    LastOfName topics (selectTopics options.topicMetaList (topics.map bagTopic)) data.1)) ?_ ops).tasks
  refine ⟨⟨fun file hfile m hm id hid => ?_, ?_⟩, nofun⟩
  · change file ∈ s.files at hfile
    rw [hs] at hfile
    obtain ⟨recorded, -, rfl⟩ := List.mem_map.1 (List.mem_of_mem_filter hfile)
    exact topicOfChannel_marked (numberTopics_numbered hnumber numbered_nil) (by rw [hs]; rfl) recorded hm hid
  · intro m hm
    change m ∈ s.msgReader.getD [] at hm
    rw [hs] at hm
    cases hm

/-- One name with two types. -/
def images : List (TopicMeta Unit) := ["pb:Image", "ros2:Image"].map fun msgType =>
  { id := 0, topicName := "image", msgType := msgType, serializationType := "pb", recordEnabled := true,
    cacheLastMsg := false, sampleFreq := () }

/-- The topics of the recorder. -/
def imageTopics : List (TopicMeta Unit) := images.zipIdx.map fun t => { t.1 with id := t.2 }

theorem numberTopics_images : numberTopics [] images = .ok imageTopics := rfl

/-- A file with one message, for one of the two topics. -/
def imageFile (id : Fin 2) : RecordedFile ℕ imageTopics where
  fileMeta := ⟨"aimrtbag_19700101_000005.mcap", 5000000000⟩
  isFile := true
  opens := true
  channels := [(1, 0), (2, 1)]
  messages := [(id,
    { channelId := id.val.toUInt16 + 1, sequence := 0, logTime := 6000000000, publishTime := 0, data := 8 })]
  nodup := by decide
  known := by decide
  own := by
    revert id
    decide

/-- The action of the immediate mode that plays it. -/
def imagePlayer (id : Fin 2) : PlaybackAction (ℕ × ℕ) :=
  configuredPlayback {} (markedBag imageTopics [imageFile id]).topics (markedBag imageTopics [imageFile id]).files

/-- The run publishes the message. -/
def imageRun : List Op := [.start 0, .enter, .enter, .read, .read, .fire 0]

theorem published_images :
    let y := imageRun.foldl step (loaded (imagePlayer 1))
    y.fired.length = 1 ∧ ∀ task ∈ y.fired ++ y.tasks, (task.record.topicIndex = task.record.buffer.1 ↔
      LastOfName imageTopics (selectTopics [] (imageTopics.map bagTopic)) task.record.buffer.1) := by
  have hinit : initializePlayback (fun _ => some (fun _ => true, "pb")) {} (markedBag imageTopics [imageFile 1]) =
      .ok (imagePlayer 1) := rfl
  exact ⟨by decide +kernel, (published_iff numberTopics_images [imageFile 1] hinit imageRun).2.2⟩

/-- The message for the first topic is published on the second one. -/
theorem first_image_published_for_second :
    let y := imageRun.foldl step (loaded (imagePlayer 0))
    (numberTopics [] images = .ok imageTopics ∧
      initializePlayback (fun _ => some (fun _ => true, "pb")) {} (markedBag imageTopics [imageFile 0]) =
        .ok (imagePlayer 0) ∧
      y.fired.map (fun task => (task.record.topicIndex, task.record.buffer)) = [(1, (0, 8))]) ∧
    ¬∀ task ∈ y.fired ++ y.tasks, task.record.topicIndex = task.record.buffer.1 := by
  intro y
  exact ⟨⟨rfl, rfl, by decide +kernel⟩, by decide +kernel⟩

end Player

/-! ### The files of a recorder -/

namespace RecordAction

variable {env : Env D F}

/-- The messages that the files hold are those of records of topics with channels. -/
def Owned (env : Env D F) (s : RecordAction D F) : Prop :=
  ∀ path, ∀ m ∈ held s.log path, ∃ r, inMcap s.topics r.topicIndex = true ∧ m = ownMessage env s.mcapInfoMap r

theorem mem_held_append {log : List (Event D)} {e : Event D} {path : Path} {m : Message D}
    (h : m ∈ held (log ++ [e]) path) :
    (∃ path, m ∈ held log path) ∨ ∃ path copy r, e = .write (some path) copy r m true := by
  have hupdate {path' : Path} {ms : List (Message D)} (hmem : m ∈ Function.update (held log) path' ms path) :
      (∃ path, m ∈ held log path) ∨ m ∈ ms := by
    rcases eq_or_ne path path' with rfl | hne
    · rw [Function.update_self] at hmem
      exact .inr hmem
    · rw [Function.update_of_ne hne] at hmem
      exact .inl ⟨path, hmem⟩
  rw [held_append_singleton] at h
  unfold holdStep at h
  split at h
  · split_ifs at h
    · cases h
    · exact .inl ⟨path, h⟩
  · exact (hupdate h).imp_right nofun
  next path' copy r msg =>
    rcases hupdate h with hold | hmem
    · exact .inl hold
    · rcases List.mem_append.1 hmem with hold | hnew
      · exact .inl ⟨path', hold⟩
      · rw [List.mem_singleton.1 hnew]
        exact .inr ⟨path', copy, r, rfl⟩
  · exact (hupdate h).imp_right nofun
  · exact .inl ⟨path, h⟩

/-- An event that is not a write leaves no new messages. -/
theorem Owned.of_event {s s' : RecordAction D F} (h : Owned env s) (hfixed : Fixed s s') {e : Event D}
    (hlog : s'.log = s.log ++ [e]) (hwrite : ∀ path copy r m, e ≠ .write (some path) copy r m true) : Owned env s' := by
  intro path m hm
  rw [hlog] at hm
  rw [hfixed.topics, hfixed.mcapInfoMap]
  obtain ⟨path', hm⟩ | ⟨path', copy, r, heq⟩ := mem_held_append hm
  · exact h path' m hm
  · exact absurd heq (hwrite path' copy r m)

theorem Owned.of_log {s s' : RecordAction D F} (h : Owned env s) (htopics : s'.topics = s.topics)
    (hinfos : s'.mcapInfoMap = s.mcapInfoMap) (hlog : s'.log = s.log) : Owned env s' := by
  unfold Owned
  rw [hlog, htopics, hinfos]
  exact h

theorem Owned.change {s s' : RecordAction D F} (h : Owned env s) (hstores : Stores env s) (hchange : Change env s s') :
    Owned env s' := by
  have hfixed := hchange.fixed
  cases hchange with
  | written copy r s =>
    obtain ⟨size, count, e⟩ := writeRecord_eq env copy r s
    intro path m hm
    rw [hfixed.topics, hfixed.mcapInfoMap]
    rw [e] at hm
    obtain ⟨path', hm⟩ | ⟨path', copy', r', heq⟩ := mem_held_append hm
    · exact h path' m hm
    · rw [Event.write.injEq] at heq
      obtain ⟨hwriter, -, rfl, hmsg, hok⟩ := heq
      rw [hstores.wired.writeStatus hstores.mcap hwriter] at hok
      exact ⟨r, hok, by rw [← hmsg, hstores.wired.messageOf hwriter]⟩
  | kept id m s => exact h.of_log rfl rfl rfl
  | opened timestamp s => exact h.of_event hfixed rfl nofun
  | failed timestamp s => exact h.of_event hfixed rfl nofun
  | removed hfiles hrest => exact h.of_event hfixed rfl nofun
  | entered folder s => exact h.of_event hfixed rfl nofun
  | accepted r s =>
    unfold addRecord at hfixed ⊢
    split_ifs at hfixed ⊢
    · exact h.of_event hfixed rfl nofun
    · exact h
  | closed s => exact h.of_log rfl rfl rfl
  | quiet hquiet => exact h.of_log hfixed.topics hfixed.mcapInfoMap hquiet.log

/-- The topic of a message is the one of a record that it is the message of. -/
theorem Owned.exists_topicOf {s : RecordAction D F} (h : Owned env s) :
    ∃ topicOf : Message D → ℕ, ∀ m path, m ∈ held s.log path → inMcap s.topics (topicOf m) = true ∧
      ∃ r : OneRecord D, r.topicIndex = topicOf m ∧ m = ownMessage env s.mcapInfoMap r := by
  have hexists (m : Message D) : ∃ id, ∀ path, m ∈ held s.log path → inMcap s.topics id = true ∧
      ∃ r : OneRecord D, r.topicIndex = id ∧ m = ownMessage env s.mcapInfoMap r := by
    by_cases hheld : ∃ path, m ∈ held s.log path
    · obtain ⟨path, hm⟩ := hheld
      obtain ⟨r, hr, heq⟩ := h path m hm
      exact ⟨r.topicIndex, fun _ _ => ⟨hr, r, rfl, heq⟩⟩
    · exact ⟨0, fun path hm => absurd ⟨path, hm⟩ hheld⟩
  choose topicOf htopicOf using hexists
  exact ⟨topicOf, htopicOf⟩

end RecordAction

namespace Recorder

open RecordAction

variable {env : Env D F}

theorem owned_run (hwalk : WalksAll env) {options : Options F} {s₀ : RecordAction D F}
    (h : initializeAction env options = .ok s₀) (hmcap : WritesChannels env s₀.mcapInfoMap.length) (ops : List (Op D)) :
    Owned env (run env (opened s₀) ops).action := by
  obtain ⟨options', topics, -, hchanges, hconfigured⟩ := changes_of_initializeAction hwalk h hmcap
  have hkeeps {s s' : RecordAction D F} (hs : Stores env s ∧ Owned env s) (hchange : Change env s s') :
      Stores env s' ∧ Owned env s' := ⟨hs.1.change hchange, hs.2.change hs.1 hchange⟩
  have howned : Owned env (configured env options' topics) := fun path m hm => nomatch hm
  obtain ⟨hstores, hinit⟩ := hchanges.keeps hkeeps ⟨hconfigured, howned⟩
  exact ((changes_run env (opened s₀) ops).keeps hkeeps ⟨Stores.start hstores, hinit.of_log rfl rfl rfl⟩).2

/-- The channels of the files with the topics for which they are added. -/
def topicChannels (env : Env D F) (infos : List (ℕ × String)) : List (UInt16 × ℕ) :=
  infos.zipIdx.map fun e => (env.addChannel e.2, e.1.1)

theorem channelsOf_eq {s : RecordAction D F} (h : Named s) :
    channelsOf env s.mcapInfoMap =
      (topicChannels env s.mcapInfoMap).map fun channel => (channel.1, topicNameOf s.topics channel.2) := by
  rw [channelsOf, topicChannels, List.map_map]
  refine List.map_congr_left fun e he => ?_
  obtain ⟨t, ht, hname⟩ := h e.1 (List.fst_mem_of_mem_zipIdx he)
  simp [topicNameOf, ht, hname]

theorem mem_topicChannels {s : RecordAction D F} (h : Wired env s) {id : ℕ} (hid : inMcap s.topics id = true) :
    (channelOf env s.mcapInfoMap id, id) ∈ topicChannels env s.mcapInfoMap := by
  obtain ⟨k, hk, hfind⟩ := h.findIdx? hid
  obtain ⟨hlt, hfound, -⟩ := List.findIdx?_eq_some_iff_getElem.1 hfind
  refine List.mem_map.2 ⟨(s.mcapInfoMap[k], k), List.mk_mem_zipIdx_iff_getElem?.2 (List.getElem?_eq_getElem hk), ?_⟩
  rw [channelOf, hfind, of_decide_eq_true hfound]
  rfl

theorem nodup_topicChannels {s : RecordAction D F} (hnamed : Named s)
    (h : DistinctChannels env s.mcapInfoMap.length) :
    ((topicChannels env s.mcapInfoMap).map Prod.fst).Nodup := by
  have hids := nodup_channelsOf h
  rwa [channelsOf_eq hnamed, List.map_map] at hids

theorem known_of_mem_topicChannels {s : RecordAction D F} (hnamed : Named s) {channel : UInt16 × ℕ}
    (h : channel ∈ topicChannels env s.mcapInfoMap) : channel.2 < s.topics.length := by
  obtain ⟨e, he, rfl⟩ := List.mem_map.1 h
  obtain ⟨t, ht, -⟩ := hnamed e.1 (List.fst_mem_of_mem_zipIdx he)
  exact (List.getElem?_eq_some_iff.1 ht).1

/-- **A bag of a recorder** is one of recorded files: each message is on a channel that was added for the topic of its
record. -/
theorem exists_recordedFiles (hwalk : WalksAll env) {options : Options F} {s₀ : RecordAction D F}
    (hrecord : initializeAction env options = .ok s₀) (hmcap : WritesChannels env s₀.mcapInfoMap.length)
    (ops : List (Op D)) {s : RecordAction D F} (hs : s = (run env (opened s₀) ops).action)
    (h : DistinctChannels env s.mcapInfoMap.length) {order : List (Message D) → List (Message D)}
    (horder : ∀ ms, (order ms).Perm ms) :
    ∃ files : List (RecordedFile D s.topics), (markedBag s.topics files).mapData Prod.snd = bagOf env order s h ∧
      ∀ file ∈ files, ∀ m ∈ file.messages,
        ∃ r : OneRecord D, r.topicIndex = m.1 ∧ m.2 = ownMessage env s.mcapInfoMap r := by
  obtain ⟨hstores, -, hnamed⟩ := stores_run hwalk hrecord hmcap ops
  have howned := owned_run hwalk hrecord hmcap ops
  rw [← hs] at hstores hnamed howned
  obtain ⟨topicOf, htopicOf⟩ := howned.exists_topicOf
  let recorded (listed : FileMeta) : RecordedFile D s.topics :=
    { fileMeta := listed
      isFile := true
      opens := true
      channels := topicChannels env s.mcapInfoMap
      messages := (order (held s.log ⟨s.realBagPath, listed.path⟩)).map fun m => (topicOf m, m)
      nodup := nodup_topicChannels hnamed h
      known := fun channel hchannel => known_of_mem_topicChannels hnamed hchannel
      own := by
        intro e he
        obtain ⟨m, hm, rfl⟩ := List.mem_map.1 he
        obtain ⟨hid, r, hr, heq⟩ := htopicOf m _ ((horder _).mem_iff.1 hm)
        have hchannel : m.channelId = channelOf env s.mcapInfoMap (topicOf m) := by
          rw [← hr]
          exact congrArg Message.channelId heq
        rw [hchannel]
        exact mem_topicChannels hstores.wired hid }
  have hfile (listed : FileMeta) : (recorded listed).marked.mapData Prod.snd = bagFile env order s h listed := by
    simp only [RecordedFile.marked, BagFile.mapData, bagFile, BagFile.mk.injEq, recorded, List.map_map, true_and]
    exact ⟨(channelsOf_eq hnamed).symm, List.map_id _⟩
  refine ⟨s.files.map recorded, ?_, ?_⟩
  · have hfiles : ((s.files.map recorded).map RecordedFile.marked).map (BagFile.mapData Prod.snd) =
        s.files.map (bagFile env order s h) := by
      rw [List.map_map, List.map_map]
      exact List.map_congr_left fun listed _ => hfile listed
    exact congrArg (Bag.mk kVersion (s.topics.map bagTopic)) hfiles
  · intro file hfile e he
    obtain ⟨listed, -, rfl⟩ := List.mem_map.1 hfile
    obtain ⟨m, hm, rfl⟩ := List.mem_map.1 he
    exact (htopicOf m _ ((horder _).mem_iff.1 hm)).2

end Recorder

end AimRT.RecordPlayback
