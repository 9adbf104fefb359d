import AimRT.RecordPlayback.RecordAction

/-!
# The playback action

`PlaybackAction` reads the messages of a bag and publishes each at its time.  The files are read one after the other,
through one reader; which file is the next one, and what the reader has open, are members that all runs share.  A run
is two chains of calls of `AddPlaybackTasks`: a call reads a batch of messages, leaves a task for each of them to the
executor, and the last of these tasks makes the next call.  A call that finds nothing to read ends its chain and sets
the state in which the other one ends, too.

A reader is taken for the list of messages that are in front of it.
-/

namespace AimRT.RecordPlayback

/-! ### Bags -/

/-- What `metadata.yaml` tells of a topic. -/
structure BagTopic where
  id : ℕ
  topicName : String
  msgType : String
  serializationType : String
  deriving DecidableEq, Repr

/-- A file of a bag: whether it is there, whether the reader opens it, its channels by their ids, and its messages in
the order in which the reader goes over them. -/
structure BagFile (D : Type) where
  fileMeta : FileMeta
  isFile : Bool
  opens : Bool
  channels : List (UInt16 × String)
  messages : List (Message D)
  nodup : (channels.map Prod.fst).Nodup

/-- `metadata.yaml`, with its files. -/
structure Bag (D : Type) where
  version : UInt32
  topics : List BagTopic
  files : List (BagFile D)

/-- `kVersion`. -/
def kVersion : UInt32 := 1

/-- `mcap::MaxTime`. -/
def maxTime : UInt64 := 18446744073709551615

/-! ### The action -/

inductive PlayBackState where
  | readyToPlay
  | playing
  | getStopSignal
  deriving DecidableEq, Repr

/-- `PlaybackAction::Options`; a topic that is selected is a name and a type. -/
structure PlaybackOptions where
  bagPath : String := ""
  mode : Mode := .imd
  skipDurationS : UInt64 := 0
  playDurationS : UInt64 := 0
  topicMetaList : List (String × String) := []
  deriving DecidableEq, Repr

/-- `PlaybackAction::OneRecord`. -/
structure PlaybackRecord (D : Type) where
  topicIndex : ℕ
  dt : UInt64
  buffer : D
  deriving DecidableEq, Repr

/-- The members of `PlaybackAction`. -/
structure PlaybackAction (D : Type) where
  options : PlaybackOptions
  state : State := .init
  /-- `metadata_.topics`. -/
  topics : List BagTopic
  /-- `metadata_.files`. -/
  files : List (BagFile D)
  topicNameToTopicIdMap : String → Option ℕ
  channelIdToTopicIdMap : UInt16 → ℕ := fun _ => 0
  /-- The messages in front of `msg_reader_itr_`, when there is one. -/
  msgReader : Option (List (Message D)) := none
  curMcapFileIndex : ℕ
  startTimestamp : UInt64 := 0
  startPlaybackTimestamp : UInt64
  stopPlaybackTimestamp : UInt64
  playbackState : PlayBackState := .readyToPlay
  /-- An iterator at the end was dereferenced. -/
  undefined : Bool := false

namespace PlaybackAction

variable {D : Type}

/-! ### Configuration -/

/-- The topics that are selected; one that is not in the bag is left out. -/
def selectTopics (selected : List (String × String)) (topics : List BagTopic) : List BagTopic :=
  let found := selected.filterMap fun item =>
    topics.find? fun t => item.1 = t.topicName && item.2 = t.msgType
  if selected = [] ∨ topics.length = found.length then topics else found

/-- What `Initialize` checks of a topic. -/
def checkBagTopic (typeSupport : String → Option ((String → Bool) × String)) (t : BagTopic) : Except String Unit :=
  match typeSupport t.msgType with
  | none => .error s!"Can not find type '{t.msgType}' in any type support pkg!"
  | some (supported, _) =>
    if supported t.serializationType then .ok ()
    else .error s!"Msg type '{t.msgType}' does not support serialization type '{t.serializationType}'."

/-- The start of the first file, and so many seconds. -/
def startPlaybackOf (files : List (BagFile D)) (skipDurationS : UInt64) : UInt64 :=
  (files.head?.map fun file => file.fileMeta.startTimestamp).getD 0 + skipDurationS * 1000000000

/-- The end of the window; zero is no end. -/
def stopPlaybackOf (startPlaybackTimestamp playDurationS : UInt64) : UInt64 :=
  if playDurationS = 0 then 0 else startPlaybackTimestamp + playDurationS * 1000000000

/-- The last file before the first one, from the second on, that starts behind the timestamp. -/
def fileIndexOf (files : List (BagFile D)) (startPlaybackTimestamp : UInt64) : ℕ :=
  (files.tail.takeWhile fun file => file.fileMeta.startTimestamp ≤ startPlaybackTimestamp).length

/-- `topic_name_to_topic_id_map_`: of two topics with one name the last one counts. -/
def topicIdsOf (topics : List BagTopic) : String → Option ℕ :=
  topics.foldl (fun m t => Function.update m t.topicName (some t.id)) fun _ => none

/-- The members behind the checks of `Initialize`. -/
def configuredPlayback (options : PlaybackOptions) (topics : List BagTopic) (files : List (BagFile D)) :
    PlaybackAction D :=
  let startPlaybackTimestamp := startPlaybackOf files options.skipDurationS
  { options := options
    topics := topics
    files := files
    topicNameToTopicIdMap := topicIdsOf topics
    curMcapFileIndex := fileIndexOf files startPlaybackTimestamp
    startPlaybackTimestamp := startPlaybackTimestamp
    stopPlaybackTimestamp := stopPlaybackOf startPlaybackTimestamp options.playDurationS }

/-- `Initialize`. -/
def initializePlayback (typeSupport : String → Option ((String → Bool) × String)) (options : PlaybackOptions)
    (bag : Bag D) : Except String (PlaybackAction D) :=
  if bag.version ≠ kVersion then
    .error s!"Version inconsistency, cur plugin version: {kVersion}, bag version: {bag.version}"
  else
    match (selectTopics options.topicMetaList bag.topics).forM (checkBagTopic typeSupport) with
    | .error e => .error e
    | .ok _ =>
      if bag.files.isEmpty then .error s!"Empty bag! bag path: {options.bagPath}"
      else if (bag.files.filter BagFile.isFile).isEmpty then
        .error "Can not find useful bag file in metadata.yaml."
      else
        .ok (configuredPlayback options (selectTopics options.topicMetaList bag.topics)
          (bag.files.filter BagFile.isFile))

/-! ### Reading -/

/-- `ClosePlayback`. -/
def closePlayback (s : PlaybackAction D) : PlaybackAction D := { s with msgReader := none }

/-- The topic of a channel, by its name. -/
def topicOfChannel (s : PlaybackAction D) (file : BagFile D) (channelId : UInt16) : Option ℕ :=
  (file.channels.lookup channelId).bind s.topicNameToTopicIdMap

/-- `endTime` of the options for the reader. -/
def endTime (s : PlaybackAction D) : UInt64 := if 0 < s.stopPlaybackTimestamp then s.stopPlaybackTimestamp else maxTime

/-- `readMessages`: the messages of the topics from the start on, and before the end. -/
def readMessages (s : PlaybackAction D) (file : BagFile D) : List (Message D) :=
  file.messages.filter fun m =>
    s.startPlaybackTimestamp ≤ m.logTime && m.logTime < endTime s && (topicOfChannel s file m.channelId).isSome

/-- A channel of a topic is mapped to it. -/
def mapChannel (s : PlaybackAction D) (m : UInt16 → ℕ) (channel : UInt16 × String) : UInt16 → ℕ :=
  match s.topicNameToTopicIdMap channel.2 with
  | none => m
  | some topicId => Function.update m channel.1 topicId

/-- The channels of a file are mapped to its topics. -/
def mapChannels (s : PlaybackAction D) (file : BagFile D) : UInt16 → ℕ :=
  file.channels.foldl (mapChannel s) s.channelIdToTopicIdMap

/-- Whether `OpenNewMcaptoPlayBack` accepts a file: it does not start behind the end, it opens, and it has channels. -/
def playable (s : PlaybackAction D) (file : BagFile D) : Bool :=
  !(s.stopPlaybackTimestamp != 0 && s.stopPlaybackTimestamp < file.fileMeta.startTimestamp) && file.opens &&
    !file.channels.isEmpty

/-- The reader is closed, and the file that is tried is behind. -/
def triedFile (s : PlaybackAction D) : PlaybackAction D :=
  { closePlayback s with curMcapFileIndex := s.curMcapFileIndex + 1 }

/-- The reader is in front of the messages of a file. -/
def openedFile (s : PlaybackAction D) (file : BagFile D) : PlaybackAction D :=
  { triedFile s with channelIdToTopicIdMap := mapChannels s file, msgReader := some (readMessages s file) }

/-- `OpenNewMcaptoPlayBack`: also a file that is refused is behind. -/
def openNewMcaptoPlayBack (s : PlaybackAction D) : Bool × PlaybackAction D :=
  match s.files[s.curMcapFileIndex]? with
  | none => (false, closePlayback s)
  | some file => if playable s file then (true, openedFile s file) else (false, triedFile s)

/-- A file is opened when the reader is at its end, or there is none. -/
def seek (s : PlaybackAction D) : Bool × PlaybackAction D :=
  match s.msgReader with
  | some (_ :: _) => (true, s)
  | _ => openNewMcaptoPlayBack s

/-- The files that were not tried yet. -/
def ahead (s : PlaybackAction D) : List (BagFile D) := s.files.drop s.curMcapFileIndex

theorem ahead_cons {s : PlaybackAction D} {file : BagFile D} (h : s.files[s.curMcapFileIndex]? = some file) :
    ahead s = file :: s.files.drop (s.curMcapFileIndex + 1) := by
  obtain ⟨hlt, rfl⟩ := List.getElem?_eq_some_iff.1 h
  exact List.drop_eq_getElem_cons hlt

/-- The messages in front of the reader. -/
def front (s : PlaybackAction D) : List (Message D) := s.msgReader.getD []

/-- What the search for a message can do. -/
inductive Sought (s : PlaybackAction D) : Bool × PlaybackAction D → Prop where
  | inFront {m : Message D} {rest : List (Message D)} (hreader : s.msgReader = some (m :: rest)) : Sought s (true, s)
  | noFile (hfront : front s = []) (hahead : ahead s = []) : Sought s (false, closePlayback s)
  | accepted {file : BagFile D} (hfront : front s = []) (hfile : s.files[s.curMcapFileIndex]? = some file)
      (hplayable : playable s file = true) : Sought s (true, openedFile s file)
  | refused {file : BagFile D} (hfront : front s = []) (hfile : s.files[s.curMcapFileIndex]? = some file)
      (hplayable : playable s file = false) : Sought s (false, triedFile s)

theorem sought_openNewMcaptoPlayBack {s : PlaybackAction D} (hfront : front s = []) :
    Sought s (openNewMcaptoPlayBack s) := by
  unfold openNewMcaptoPlayBack
  split
  next hfile => exact .noFile hfront (List.drop_eq_nil_of_le (List.getElem?_eq_none_iff.1 hfile))
  next file hfile =>
    split
    next hplayable => exact .accepted hfront hfile hplayable
    next hplayable => exact .refused hfront hfile (by simpa using hplayable)

theorem sought_seek (s : PlaybackAction D) : Sought s (seek s) := by
  unfold seek
  split
  next m rest hreader => exact .inFront hreader
  next hreader =>
    refine sought_openNewMcaptoPlayBack ?_
    unfold front
    cases hmessages : s.msgReader with
    | none => rfl
    | some messages =>
      cases messages with
      | nil => rfl
      | cons m rest => exact absurd hmessages (hreader m rest)

/-- The record of a message. -/
def recordOf (s : PlaybackAction D) (m : Message D) : PlaybackRecord D where
  topicIndex := s.channelIdToTopicIdMap m.channelId
  dt := m.logTime - s.startPlaybackTimestamp
  buffer := m.data

/-- The messages that may still be read. -/
def work (s : PlaybackAction D) : ℕ :=
  (s.msgReader.getD []).length + ((s.files.drop s.curMcapFileIndex).map fun file => file.messages.length).sum

theorem work_seek_le (s : PlaybackAction D) : work (seek s).2 ≤ work s := by
  have hsought := sought_seek s
  generalize seek s = result at hsought ⊢
  cases hsought with
  | inFront => exact le_refl _
  | noFile => exact Nat.add_le_add_right (Nat.zero_le _) _
  | @accepted file _ hfile =>
    have hahead : s.files.drop s.curMcapFileIndex = _ := ahead_cons hfile
    have hread : (readMessages s file).length ≤ file.messages.length := List.length_filter_le _ _
    simp only [work, openedFile, triedFile, closePlayback, hahead, List.map_cons, List.sum_cons, Option.getD_some]
    omega
  | @refused file _ hfile =>
    have hahead : s.files.drop s.curMcapFileIndex = _ := ahead_cons hfile
    simp only [work, triedFile, closePlayback, hahead, List.map_cons, List.sum_cons, Option.getD_none, List.length_nil]
    omega

/-- The reader goes on to the messages behind the one that was read. -/
def advance (rest : List (Message D)) (s : PlaybackAction D) : PlaybackAction D := { s with msgReader := some rest }

/-- A message is behind the end of the window. -/
def isBehind (s : PlaybackAction D) (m : Message D) : Bool :=
  0 < s.stopPlaybackTimestamp && s.stopPlaybackTimestamp < m.logTime

/-- The loop of `AddPlaybackTasks`, with the records it has read and `cur_start_timestamp`: up to a second of data, or
so many records. -/
def readRecords (s : PlaybackAction D) (records : List (PlaybackRecord D)) (curStartTimestamp : UInt64) :
    List (PlaybackRecord D) × PlaybackAction D :=
  match (seek s).1, hreader : (seek s).2.msgReader with
  | false, _ => (records, (seek s).2)
  | true, some (message :: rest) =>
    if isBehind (seek s).2 message then
      (records, { advance rest (seek s).2 with playbackState := .getStopSignal })
    else if curStartTimestamp = 0 then
      readRecords (advance rest (seek s).2) (records ++ [recordOf (seek s).2 message]) message.logTime
    else if 1000000000 ≤ message.logTime - curStartTimestamp ∨ 1000 ≤ records.length + 1 then
      (records ++ [recordOf (seek s).2 message], advance rest (seek s).2)
    else readRecords (advance rest (seek s).2) (records ++ [recordOf (seek s).2 message]) curStartTimestamp
  | true, _ => (records, { (seek s).2 with undefined := true })
termination_by work s
decreasing_by
  all_goals
    have hle := work_seek_le s
    simp only [work, advance, hreader, Option.getD_some, List.length_cons] at hle ⊢
    omega

/-- `AddPlaybackTasks` behind its first check: the records for which there are tasks to add; where there are none, the
run is to stop. -/
def addPlaybackTasks (s : PlaybackAction D) : List (PlaybackRecord D) × PlaybackAction D :=
  if (readRecords s [] 0).1.isEmpty then ([], { (readRecords s [] 0).2 with playbackState := .getStopSignal })
  else readRecords s [] 0

/-- `StartPlaybackImpl` up to the calls of `AddPlaybackTasks`, at a reading of the clock. -/
def startPlaybackImpl (skipDurationS playDurationS now : UInt64) (s : PlaybackAction D) : PlaybackAction D :=
  { s with
    playbackState := .playing
    startPlaybackTimestamp := startPlaybackOf s.files skipDurationS
    stopPlaybackTimestamp := stopPlaybackOf (startPlaybackOf s.files skipDurationS) playDurationS
    startTimestamp := now }

end PlaybackAction

end AimRT.RecordPlayback
