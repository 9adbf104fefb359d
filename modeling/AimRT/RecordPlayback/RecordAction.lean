import Mathlib.Logic.Function.Basic
import Mathlib.Tactic
import AimRT.Lib.BinarySearch

/-!
# The record action

`RecordAction` writes the messages of its topics to `mcap` files.  In the immediate mode a record is written
when the executor gets to it; in the signal mode records are kept in two caches until a signal starts the
recording, and the start writes what the caches hold of the last seconds.  A file is left for a new one when
its size is estimated to be too large, and a new day may get a folder of its own.

What is outside is a parameter: the clock, the file system, the `mcap` writer and the arithmetic on doubles.
Its answers depend on how many calls were made before, so anything may happen between two of them.
-/

namespace AimRT.RecordPlayback

/-! ### Records and files -/

/-- `RecordAction::OneRecord`, the buffer being of any type. -/
structure OneRecord (D : Type) where
  topicIndex : ℕ
  logTimestamp : UInt64
  pubTimestamp : UInt64
  pubSequence : UInt32
  buffer : D
  deriving DecidableEq, Repr

/-- `mcap::Message`. -/
structure Message (D : Type) where
  channelId : UInt16
  sequence : UInt32
  logTime : UInt64
  publishTime : UInt64
  data : D
  deriving DecidableEq, Repr

/-- The fields of `struct tm` that are used. -/
structure Tm where
  year : ℕ
  mon : ℕ
  mday : ℕ
  hour : ℕ
  min : ℕ
  sec : ℕ
  deriving DecidableEq, Repr

/-- A file of a bag folder. -/
structure Path where
  folder : String
  name : String
  deriving DecidableEq, Repr

/-- `MetaData::FileMeta`. -/
structure FileMeta where
  path : String
  startTimestamp : UInt64
  deriving DecidableEq, Repr

/-- `%0nd` of a number below `10 ^ n`. -/
def padded : ℕ → ℕ → String
  | 0, _ => ""
  | n + 1, k => padded n (k / 10) ++ toString (k % 10)

/-- `%04d%02d%02d_%02d%02d%02d` of a time. -/
def timeText (tm : Tm) : String :=
  padded 4 ((tm.year + 1900) % 10000) ++ padded 2 ((tm.mon + 1) % 100) ++ padded 2 (tm.mday % 100) ++ "_" ++
    padded 2 (tm.hour % 100) ++ padded 2 (tm.min % 100) ++ padded 2 (tm.sec % 100)

/-- What the action does: a record that `AddRecord` accepts, a folder that is created, an opening with its status,
what is written to which file, and a removal with the files that are listed then.  A copy of the last message of a
topic is told from a record. -/
inductive Event (D : Type) where
  | accepted (record : OneRecord D)
  | created (folder : String)
  | opened (path : Path) (startTimestamp : UInt64) (ok : Bool)
  | write (path : Option Path) (copy : Bool) (record : OneRecord D) (msg : Message D) (ok : Bool)
  | removed (path : Path) (listed : List FileMeta)
  deriving DecidableEq, Repr

/-! ### What is outside -/

/-- The clock, the file system, the writer of `mcap` and the doubles of type `F`.  A number that comes first
says how many calls were made before. -/
structure Env (D F : Type) where
  size : D → UInt64
  timeT2TmLocal : UInt64 → Tm
  curTimestampNs : ℕ → UInt64
  pathExists : ℕ → String → Bool
  createDirectories : ℕ → String → Bool
  /-- The size of a file, zero where there is none. -/
  fileSize : ℕ → Path → UInt64
  openMcap : ℕ → Path → Bool
  /-- The id of a channel that is added behind so many others. -/
  addChannel : ℕ → UInt16
  /-- The status of `write` with so many channels. -/
  writeMcap : ℕ → ℕ → Message D → Bool
  /-- `std::max(0.1, static_cast<double>(fileSize) / dataSize)`. -/
  overhead : UInt64 → UInt64 → F
  /-- `dataSize * overhead >= maxBagSize`. -/
  reaches : UInt64 → F → UInt64 → Bool
  /-- `freq > 0`. -/
  positive : F → Bool
  /-- `freq >= 0`. -/
  nonNegative : F → Bool
  /-- `static_cast<uint64_t>(1.0 / freq * 1000000000)`. -/
  interval : F → UInt64
  /-- `1.5`. -/
  initialOverhead : F
  /-- The type support of a message type: which serialization types it supports, and its default one. -/
  typeSupport : String → Option ((String → Bool) × String)
  /-- The order in which an unordered map with these keys is walked. -/
  walk : List ℕ → List ℕ

/-! ### The action -/

inductive Mode where
  | imd
  | signal
  deriving DecidableEq, Repr

inductive State where
  | preInit
  | init
  | start
  | shutdown
  deriving DecidableEq, Repr

/-- `TopicMeta`. -/
structure TopicMeta (F : Type) where
  id : ℕ
  topicName : String
  msgType : String
  serializationType : String
  recordEnabled : Bool
  cacheLastMsg : Bool
  sampleFreq : F

/-- `Options::StoragePolicy`. -/
structure StoragePolicy where
  maxBagSizeM : UInt32 := 2048
  maxBagNum : UInt32 := 0
  msgWriteInterval : UInt32 := 1000
  newFolderDaily : Bool := false
  deriving DecidableEq, Repr

/-- `RecordAction::Options`. -/
structure Options (F : Type) where
  mode : Mode := .imd
  storagePolicy : StoragePolicy := {}
  maxPreparationDurationS : UInt64 := 0
  recordEnabled : Bool := true
  topicMetaList : List (TopicMeta F) := []

/-- `RecordAction::TopicRuntimeInfo`. -/
structure TopicRuntimeInfo (D : Type) where
  channelId : UInt16 := 0
  lastTimestamp : UInt64 := 0
  sampleInterval : UInt64 := 0
  recordEnabled : Bool := true
  cacheLastMsg : Bool := true
  lastMsg : Option (OneRecord D) := none

/-- The members of `RecordAction`.  The maps by topic id come with the order in which they are walked. -/
structure RecordAction (D F : Type) where
  options : Options F
  state : State := .preInit
  maxBagSize : UInt64 := 0
  maxPreparationDurationNs : UInt64 := 0
  /-- `metadata_.topics`. -/
  topics : List (TopicMeta F) := []
  /-- `metadata_.files`. -/
  files : List FileMeta := []
  /-- The topics of `mcap_info_map_` with the names of their channels. -/
  mcapInfoMap : List (ℕ × String) := []
  topicRuntimeMap : ℕ → TopicRuntimeInfo D := fun _ => {}
  topicOrder : List ℕ := []
  realBagPath : String := ""
  curMcapFilePath : Option Path := none
  /-- The file that `writer_` has open. -/
  writer : Option Path := none
  curDataSize : UInt64 := 0
  estimatedOverhead : F
  curExecCount : UInt64 := 0
  recordingFlag : Bool := false
  stopRecordTimestamp : UInt64 := 0
  lastCache : List (OneRecord D) := []
  curCache : List (OneRecord D) := []
  /-- The calls to what is outside. -/
  calls : ℕ := 0
  log : List (Event D) := []

namespace RecordAction

variable {D F : Type} (env : Env D F)

/-- One more call to what is outside. -/
def called (s : RecordAction D F) : RecordAction D F := { s with calls := s.calls + 1 }

def logged (e : Event D) (s : RecordAction D F) : RecordAction D F := { s with log := s.log ++ [e] }

/-- `FlushToDisk`: what is written stays written, only the count starts again. -/
def flushToDisk (s : RecordAction D F) : RecordAction D F :=
  if s.writer.isSome then { s with curExecCount := 0 } else s

/-- `CloseRecord`. -/
def closeRecord (s : RecordAction D F) : RecordAction D F := { s with writer := none }

/-- The second of a timestamp. -/
def secOf (timestamp : UInt64) : UInt64 := timestamp / 1000000000

/-! ### Writing a record -/

/-- The message that `AddRecordImpl` makes of a record. -/
def messageOf (s : RecordAction D F) (r : OneRecord D) : Message D where
  channelId := (s.topicRuntimeMap r.topicIndex).channelId
  sequence := r.pubSequence
  logTime := r.logTimestamp
  publishTime := r.pubTimestamp
  data := r.buffer

/-- `writer_->write`, which needs an open file. -/
def writeStatus (s : RecordAction D F) (r : OneRecord D) : Bool :=
  s.writer.isSome && env.writeMcap s.calls s.mcapInfoMap.length (messageOf s r)

/-- `AddRecordImpl` behind the rotation: the record is written, and the chunk is closed once in a while.  The flag
`writing_cached_messages_` is an argument, as it is set just in the loop of `writeLastMsgs`. -/
def writeRecord (writingCachedMessages : Bool) (r : OneRecord D) (s : RecordAction D F) : RecordAction D F :=
  let written := called (logged (.write s.writer writingCachedMessages r (messageOf s r) (writeStatus env s r))
    { s with curDataSize := s.curDataSize + (30 + env.size r.buffer) })
  if writeStatus env s r then
    let counted := { written with curExecCount := written.curExecCount + 1 }
    if 0 < s.options.storagePolicy.msgWriteInterval ∧
        s.options.storagePolicy.msgWriteInterval.toUInt64 < counted.curExecCount then
      flushToDisk counted
    else counted
  else written

/-! ### Opening files and folders -/

/-- The file name that `OpenNewMcapToRecord` derives from a timestamp. -/
def mcapFileName (timestamp : UInt64) : String :=
  "aimrtbag_" ++ timeText (env.timeT2TmLocal (secOf timestamp)) ++ ".mcap"

/-- The name of the folder for the current second. -/
def bagBaseName (now : UInt64) : String :=
  "aimrtbag_" ++ timeText (env.timeT2TmLocal (secOf now))

/-- The channels of a file are added in the order of `mcap_info_map_`, and the topics get their ids. -/
def addChannels (infos : List (ℕ × String)) (runtime : ℕ → TopicRuntimeInfo D) : ℕ → TopicRuntimeInfo D :=
  infos.zipIdx.foldl
    (fun m e => Function.update m e.1.1 { m e.1.1 with channelId := env.addChannel e.2 }) runtime

/-- The rule on `max_bag_num`: the first listed file is removed when there are too many. -/
def removeOldFile (s : RecordAction D F) : RecordAction D F :=
  match s.files with
  | [] => s
  | file :: rest =>
    if 0 < s.options.storagePolicy.maxBagNum ∧ s.options.storagePolicy.maxBagNum.toNat < s.files.length then
      called (logged (.removed ⟨s.realBagPath, file.path⟩ s.files) { s with files := rest })
    else s

/-- The last message of a topic that is kept. -/
def keepLastMsg (id : ℕ) (m : OneRecord D) (s : RecordAction D F) : RecordAction D F :=
  { s with topicRuntimeMap := Function.update s.topicRuntimeMap id { s.topicRuntimeMap id with lastMsg := some m } }

/-- One topic of the loop that writes the last messages: the message gets the time of the opening, also in the map,
where it stays.  As `writing_cached_messages_` is set, `AddRecordImpl` does not look for a rotation. -/
def writeLastMsg (timestamp : UInt64) (s : RecordAction D F) (id : ℕ) : RecordAction D F :=
  match (s.topicRuntimeMap id).cacheLastMsg, (s.topicRuntimeMap id).lastMsg with
  | true, some m =>
    let copy := { m with logTimestamp := timestamp }
    writeRecord env true copy (keepLastMsg id copy s)
  | _, _ => s

def writeLastMsgs (timestamp : UInt64) (s : RecordAction D F) : RecordAction D F :=
  s.topicOrder.foldl (writeLastMsg env timestamp) s

/-- The file that a timestamp asks for. -/
def mcapPath (s : RecordAction D F) (timestamp : UInt64) : Path := ⟨s.realBagPath, mcapFileName env timestamp⟩

/-- A new file that is open: its channels, its place in the list of files, and the rule on their number. -/
def startMcap (timestamp : UInt64) (s : RecordAction D F) : RecordAction D F :=
  let path := mcapPath env s timestamp
  removeOldFile (called (logged (.opened path timestamp true)
    { s with
      writer := some path
      curMcapFilePath := some path
      topicRuntimeMap := addChannels env s.mcapInfoMap s.topicRuntimeMap
      files := s.files ++ [⟨path.name, timestamp⟩] }))

/-- `OpenNewMcapToRecord`. -/
def openNewMcapToRecord (timestamp : UInt64) (s : RecordAction D F) : RecordAction D F :=
  if env.openMcap s.calls (mcapPath env s timestamp) then
    writeLastMsgs env timestamp (startMcap env timestamp s)
  else
    called (logged (.opened (mcapPath env s timestamp) timestamp false)
      { s with writer := none, curMcapFilePath := none })

/-- A folder that was created takes the place of the old one. -/
def enterFolder (folder : String) (s : RecordAction D F) : RecordAction D F :=
  { s with
    realBagPath := folder
    files := []
    curExecCount := 0
    curDataSize := 0
    calls := s.calls + 4
    log := s.log ++ [.created folder] }

/-- The first file of a folder is opened at a second reading of the clock. -/
def startFolder (folder : String) (s : RecordAction D F) : RecordAction D F :=
  openNewMcapToRecord env (env.curTimestampNs (s.calls + 3)) (enterFolder folder s)

/-- The name that the clock gives to a folder. -/
def newFolder (s : RecordAction D F) : String := bagBaseName env (env.curTimestampNs s.calls)

/-- `OpenNewFolderToRecord`: false when the folder is there or cannot be created. -/
def openNewFolderToRecord (s : RecordAction D F) : Bool × RecordAction D F :=
  if env.pathExists (s.calls + 1) (newFolder env s) then (false, called (called s))
  else if env.createDirectories (s.calls + 2) (newFolder env s) then (true, startFolder env (newFolder env s) s)
  else (false, called (called (called s)))

/-- `IsNewFolderNeeded`. -/
def isNewFolderNeeded (timestamp : UInt64) (s : RecordAction D F) : Bool :=
  match s.options.storagePolicy.newFolderDaily, s.files.getLast? with
  | true, some file =>
    let lastTm := env.timeT2TmLocal (secOf file.startTimestamp)
    let currentTm := env.timeT2TmLocal (secOf timestamp)
    lastTm.mday != currentTm.mday || lastTm.mon != currentTm.mon || lastTm.year != currentTm.year
  | _, _ => false

/-- `GetFileSize`. -/
def getFileSize (s : RecordAction D F) : UInt64 :=
  match s.curMcapFilePath with
  | none => 0
  | some path => env.fileSize s.calls path

/-- The size starts again, and the overhead is estimated from the file that is left. -/
def resetSize (s : RecordAction D F) : RecordAction D F :=
  called { s with
    curDataSize := 0
    estimatedOverhead := env.overhead (getFileSize env s) s.curDataSize }

/-- The file is left for a new one; what `OpenNewFolderToRecord` returns is not looked at. -/
def rotate (r : OneRecord D) (s : RecordAction D F) : RecordAction D F :=
  if isNewFolderNeeded env r.logTimestamp (resetSize env s) then (openNewFolderToRecord env (resetSize env s)).2
  else openNewMcapToRecord env r.logTimestamp (resetSize env s)

/-- Whether `AddRecordImpl` looks for a new file. -/
def rotates (s : RecordAction D F) : Bool := env.reaches s.curDataSize s.estimatedOverhead s.maxBagSize

/-- `AddRecordImpl` of a task. -/
def addRecordImpl (r : OneRecord D) (s : RecordAction D F) : RecordAction D F :=
  writeRecord env false r (if rotates env s then rotate env r s else s)

/-! ### Configuration -/

/-- What `Initialize` checks of a configured topic; an empty serialization type becomes the default one. -/
def checkTopicMeta (topicMeta : TopicMeta F) : Except String (TopicMeta F) :=
  match env.typeSupport topicMeta.msgType with
  | none => .error s!"Can not find type '{topicMeta.msgType}' in any type support pkg!"
  | some (supported, default) =>
    if topicMeta.serializationType ≠ "" ∧ supported topicMeta.serializationType = false then
      .error s!"Msg type '{topicMeta.msgType}' does not support serialization type '{topicMeta.serializationType}'."
    else if env.nonNegative topicMeta.sampleFreq = false then .error "Sample freq must be greater or equal to 0"
    else if topicMeta.serializationType = "" then .ok { topicMeta with serializationType := default }
    else .ok topicMeta

/-- The loop that numbers the topics; no topic name comes twice with one message type. -/
def numberTopics : List (TopicMeta F) → List (TopicMeta F) → Except String (List (TopicMeta F))
  | topics, [] => .ok topics
  | topics, topicMeta :: rest =>
    if topics.any fun t => t.topicName = topicMeta.topicName && t.msgType = topicMeta.msgType then
      .error s!"Duplicate topic meta, topic name: {topicMeta.topicName}, msg type: {topicMeta.msgType}."
    else numberTopics (topics ++ [{ topicMeta with id := topics.length }]) rest

/-- The serialization types that `mcap` files have a format for; with another one there is only a warning. -/
def mcapSupports (topicMeta : TopicMeta F) : Bool :=
  topicMeta.serializationType = "ros2" || topicMeta.serializationType = "pb"

/-- The interval between two samples of a topic. -/
def sampleIntervalOf (freq : F) : UInt64 := if env.positive freq then env.interval freq else 0

def runtimeInfoOf (topicMeta : TopicMeta F) : TopicRuntimeInfo D where
  sampleInterval := sampleIntervalOf env topicMeta.sampleFreq
  recordEnabled := topicMeta.recordEnabled
  cacheLastMsg := topicMeta.cacheLastMsg

/-- The members behind the loops of `Initialize`. -/
def configured (options : Options F) (topics : List (TopicMeta F)) : RecordAction D F where
  options := options
  state := .init
  maxBagSize := options.storagePolicy.maxBagSizeM.toUInt64 * 1024 * 1024
  maxPreparationDurationNs := options.maxPreparationDurationS * 1000000000
  topics := topics
  mcapInfoMap := (env.walk ((topics.filter mcapSupports).map TopicMeta.id)).filterMap fun id =>
    topics[id]?.map fun topicMeta => (id, topicMeta.topicName)
  topicRuntimeMap := fun id => (topics[id]?.map (runtimeInfoOf env)).getD {}
  topicOrder := env.walk (topics.map TopicMeta.id)
  estimatedOverhead := env.initialOverhead

/-- `Initialize`: the immediate mode opens its first folder. -/
def initializeAction (options : Options F) : Except String (RecordAction D F) := do
  let topicMetaList ← options.topicMetaList.mapM (checkTopicMeta env)
  let topics ← numberTopics [] topicMetaList
  let s := configured env { options with topicMetaList := topicMetaList } topics
  match options.mode with
  | .signal => pure s
  | .imd =>
    if (openNewFolderToRecord env s).1 then pure (openNewFolderToRecord env s).2
    else .error "Open new folder to record failed."

/-- `Start`. -/
def start (s : RecordAction D F) : RecordAction D F := { s with state := .start }

/-! ### Records of the publishers -/

/-- `AddRecord` skips a record that is not enabled or too early. -/
def accepts (s : RecordAction D F) (r : OneRecord D) : Bool :=
  let info := s.topicRuntimeMap r.topicIndex
  s.state = .start && s.options.recordEnabled && info.recordEnabled &&
    !(0 < info.sampleInterval && r.logTimestamp - info.lastTimestamp < info.sampleInterval)

/-- `AddRecord` on the thread of the publisher; a record that is accepted becomes a task of the executor. -/
def addRecord (r : OneRecord D) (s : RecordAction D F) : RecordAction D F :=
  if accepts s r then
    let info := s.topicRuntimeMap r.topicIndex
    logged (.accepted r) { s with
      topicRuntimeMap := Function.update s.topicRuntimeMap r.topicIndex
        { info with
          lastTimestamp := r.logTimestamp
          lastMsg := if info.cacheLastMsg then some r else info.lastMsg } }
  else s

/-- A publisher changes only what is kept of its topic. -/
theorem addRecord_eq (r : OneRecord D) (s : RecordAction D F) :
    ∃ runtime log, addRecord r s = { s with topicRuntimeMap := runtime, log := log } := by
  unfold addRecord
  split_ifs
  · exact ⟨_, _, rfl⟩
  · exact ⟨s.topicRuntimeMap, s.log, rfl⟩

/-- Whether the caches are swapped for a record: the current cache spans too much. -/
def swaps (s : RecordAction D F) (r : OneRecord D) : Bool :=
  s.maxPreparationDurationNs < r.logTimestamp - ((s.curCache ++ [r]).head?.getD r).logTimestamp

/-- A record is put into the current cache; a cache that spans too much becomes the last one. -/
def cacheRecord (r : OneRecord D) (s : RecordAction D F) : RecordAction D F :=
  if swaps s r then { s with lastCache := s.curCache ++ [r], curCache := [] }
  else { s with curCache := s.curCache ++ [r] }

/-- The end of the recording is behind. -/
def overdue (s : RecordAction D F) (r : OneRecord D) : Bool :=
  s.recordingFlag && s.stopRecordTimestamp != 0 && s.stopRecordTimestamp < r.logTimestamp

/-- A recording whose end is behind stops. -/
def stopOverdue (r : OneRecord D) (s : RecordAction D F) : RecordAction D F :=
  if overdue s r then closeRecord { s with recordingFlag := false } else s

/-- A record in the signal mode, written or cached. -/
def takeRecord (r : OneRecord D) (s : RecordAction D F) : RecordAction D F :=
  if s.recordingFlag then addRecordImpl env r s else cacheRecord r s

/-- The task that `AddRecord` leaves to the executor. -/
def recordTask (r : OneRecord D) (s : RecordAction D F) : RecordAction D F :=
  if s.state = .start then
    match s.options.mode with
    | .imd => addRecordImpl env r s
    | .signal => takeRecord env r (stopOverdue r s)
  else s

/-! ### The signals -/

/-- The records of the two caches. -/
def cached (s : RecordAction D F) : List (OneRecord D) := s.lastCache ++ s.curCache

/-- The timestamp of a record of the caches. -/
def getCacheTimestamp (s : RecordAction D F) (idx : ℕ) : UInt64 :=
  if idx < s.lastCache.length then (s.lastCache[idx]?.map OneRecord.logTimestamp).getD 0
  else (s.curCache[idx - s.lastCache.length]?.map OneRecord.logTimestamp).getD 0

/-- The records that the start writes: a binary search for the first of them, then a loop over what is left of
the caches. -/
def preparation (startRecordTimestamp : UInt64) (s : RecordAction D F) : List (OneRecord D) :=
  let low := Lib.BinarySearch.search (fun idx => getCacheTimestamp s idx < startRecordTimestamp) 0
    (s.lastCache.length + s.curCache.length - 1)
  if low < s.lastCache.length then s.lastCache.drop low ++ s.curCache
  else s.curCache.drop (low - s.lastCache.length)

/-- The caches are written and cleared. -/
def writeCaches (startRecordTimestamp : UInt64) (s : RecordAction D F) : RecordAction D F :=
  if s.lastCache.length + s.curCache.length = 0 then s
  else
    { (preparation startRecordTimestamp s).foldl (fun s r => addRecordImpl env r s) s with
      lastCache := []
      curCache := [] }

/-- How a task ends. -/
inductive TaskEnd where
  | returned
  | threw
  deriving DecidableEq, Repr

/-- The task of `StartSignalRecord` from the folder on, at a reading of the clock. -/
def startAt (now preparationDurationS recordDurationS : UInt64) (s : RecordAction D F) : RecordAction D F :=
  writeCaches env (now - preparationDurationS * 1000000000)
    { s with stopRecordTimestamp := if recordDurationS = 0 then 0 else now + recordDurationS * 1000000000 }

/-- The state in which the folder is opened: the flag is up. -/
def flagged (s : RecordAction D F) : RecordAction D F := { s with recordingFlag := true }

/-- The task of `StartSignalRecord`, with what it stores in `filefolder`. -/
def startTask (preparationDurationS recordDurationS : UInt64) (s : RecordAction D F) :
    TaskEnd × Option String × RecordAction D F :=
  if s.state = .start ∧ s.recordingFlag = false then
    match openNewFolderToRecord env (flagged s) with
    | (true, opened) =>
      (.returned, some opened.realBagPath,
        startAt env (env.curTimestampNs opened.calls) preparationDurationS recordDurationS (called opened))
    | (false, failed) => (.threw, none, failed)
  else (.returned, none, s)

/-- What the caller of `StartSignalRecord` sees: the exception of its first check, what is returned and the
folder, or that the latch never opens. -/
inductive Outcome where
  | threw
  | returned (ret : Bool) (filefolder : Option String)
  | blocked
  deriving DecidableEq, Repr

/-- The executor drops the task, or runs it in a state that it finds later.  The latch is counted down behind the
task, if the task returns. -/
def awaitStart (preparationDurationS recordDurationS : UInt64) (s : RecordAction D F) :
    Option (RecordAction D F) → Outcome × RecordAction D F
  | none => (.blocked, s)
  | some found =>
    match startTask env preparationDurationS recordDurationS found with
    | (.returned, filefolder, after) => (.returned true filefolder, after)
    | (.threw, _, after) => (.blocked, after)

/-- `StartSignalRecord`. -/
def startSignalRecord (preparationDurationS recordDurationS : UInt64) (found : Option (RecordAction D F))
    (s : RecordAction D F) : Outcome × RecordAction D F :=
  if s.state ≠ .start then (.threw, s)
  else if s.options.mode ≠ .signal ∨ s.recordingFlag = true then (.returned false none, s)
  else awaitStart env preparationDurationS recordDurationS s found

/-- The task of `StopSignalRecord`. -/
def stopTask (s : RecordAction D F) : RecordAction D F :=
  if s.recordingFlag then closeRecord { s with recordingFlag := false } else s

end RecordAction

/-- A quiet outside: buffers that are told by their sizes, doubles that are fractions, the first month of 1970, a
file system and a writer on which nothing fails. -/
def quietEnv (clock : ℕ → UInt64) (pathExists : ℕ → String → Bool) : Env ℕ (ℕ × ℕ) where
  size := UInt64.ofNat
  timeT2TmLocal sec :=
    { year := 70
      mon := 0
      mday := 1 + sec.toNat / 86400
      hour := sec.toNat / 3600 % 24
      min := sec.toNat / 60 % 60
      sec := sec.toNat % 60 }
  curTimestampNs := clock
  pathExists := pathExists
  createDirectories _ _ := true
  fileSize _ _ := 1000
  openMcap _ _ := true
  addChannel n := UInt16.ofNat (n + 1)
  writeMcap _ channels msg := 0 < msg.channelId && msg.channelId.toNat ≤ channels
  overhead fileSize dataSize :=
    if dataSize.toNat < fileSize.toNat * 10 then (fileSize.toNat, dataSize.toNat) else (1, 10)
  reaches dataSize overhead maxBagSize := maxBagSize.toNat * overhead.2 ≤ dataSize.toNat * overhead.1
  positive freq := 0 < freq.1
  nonNegative _ := true
  interval freq := UInt64.ofNat (freq.2 * 1000000000 / freq.1)
  initialOverhead := (3, 2)
  typeSupport _ := some (fun _ => true, "pb")
  walk := id

end AimRT.RecordPlayback
