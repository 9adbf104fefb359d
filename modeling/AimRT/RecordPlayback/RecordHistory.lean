import AimRT.RecordPlayback.RecordWrites

/-!
# What the files of a recording hold

The log of an action read as a history: which records were accepted, and which messages each file got after it was
opened, copies of last messages told from records.  A message that is written is the one of its record, on the channel
of its topic, given that `mcap` writes to the channels of the file and to no other (`WritesChannels`): the ids of the
channels are those of the last opening (`Wired`).
-/

namespace AimRT.RecordPlayback

variable {D F : Type}

/-- A file that was opened: the records accepted by then, and what was written to it. -/
structure McapFile (D : Type) where
  path : Path
  startTimestamp : UInt64
  accepted : List (OneRecord D)
  messages : List (Bool × Message D)
  deriving DecidableEq, Repr

/-- The records accepted so far, and the files opened so far, the last one first. -/
structure History (D : Type) where
  accepted : List (OneRecord D) := []
  files : List (McapFile D) := []
  deriving DecidableEq, Repr

/-- A write goes to the file that was opened last. -/
def McapFile.write (path : Path) (copy : Bool) (msg : Message D) : List (McapFile D) → List (McapFile D)
  | [] => []
  | file :: files =>
    if file.path = path then { file with messages := file.messages ++ [(copy, msg)] } :: files else file :: files

def History.step (h : History D) : Event D → History D
  | .accepted r => { h with accepted := h.accepted ++ [r] }
  | .opened path timestamp true => { h with files := ⟨path, timestamp, h.accepted, []⟩ :: h.files }
  | .write (some path) copy _ msg true => { h with files := McapFile.write path copy msg h.files }
  | _ => h

def history (log : List (Event D)) : History D := log.foldl History.step {}

theorem history_append_singleton (log : List (Event D)) (e : Event D) :
    history (log ++ [e]) = (history log).step e := by
  rw [history, List.foldl_append]
  rfl

theorem history_accepted (log : List (Event D)) : (history log).accepted = acceptedOf log := by
  induction log using List.reverseRecOn with
  | nil => rfl
  | append_singleton log e ih =>
    rw [history_append_singleton, acceptedOf, List.filterMap_append, ← acceptedOf, ← ih]
    cases e with
    | accepted r => rfl
    | created folder => exact (List.append_nil _).symm
    | opened path timestamp ok => cases ok <;> exact (List.append_nil _).symm
    | write path copy r msg ok => cases path <;> cases ok <;> exact (List.append_nil _).symm
    | removed path listed => exact (List.append_nil _).symm

/-- The messages of a file that are not copies. -/
def McapFile.records (file : McapFile D) : List (Message D) :=
  file.messages.filterMap fun m => if m.1 then none else some m.2

/-- The messages of all files that are not copies, in the order in which they were written. -/
def recordsOf (files : List (McapFile D)) : List (Message D) := files.reverse.flatMap McapFile.records

theorem recordsOf_cons (file : McapFile D) (files : List (McapFile D)) :
    recordsOf (file :: files) = recordsOf files ++ file.records := by
  simp [recordsOf]

/-- The records that tasks have passed to `AddRecordImpl` while a file was open. -/
def passedOpen (log : List (Event D)) : List (OneRecord D) :=
  log.filterMap fun
    | .write (some _) false r _ _ => some r
    | _ => none

theorem passedOpen_append (log log' : List (Event D)) : passedOpen (log ++ log') = passedOpen log ++ passedOpen log' :=
  List.filterMap_append

/-- The last record accepted of a topic. -/
def latest (accepted : List (OneRecord D)) (id : ℕ) : Option (OneRecord D) :=
  (accepted.filter fun r => r.topicIndex = id).getLast?

/-- A record with the time of an opening. -/
def stamp (timestamp : UInt64) (r : OneRecord D) : OneRecord D := { r with logTimestamp := timestamp }

theorem latest_append_self (accepted : List (OneRecord D)) (r : OneRecord D) :
    latest (accepted ++ [r]) r.topicIndex = some r := by
  simp [latest]

theorem latest_append_of_ne (accepted : List (OneRecord D)) {r : OneRecord D} {id : ℕ} (h : id ≠ r.topicIndex) :
    latest (accepted ++ [r]) id = latest accepted id := by
  have hne : ¬r.topicIndex = id := fun e => h e.symm
  simp [latest, hne]

theorem topicIndex_of_latest {accepted : List (OneRecord D)} {id : ℕ} {r : OneRecord D}
    (h : latest accepted id = some r) : r.topicIndex = id := by
  have hmem := List.mem_of_getLast? h
  simpa using (List.mem_filter.1 hmem).2

/-! ### Topics and channels -/

/-- Whether the last message of a topic is cached. -/
def cachesLastMsg (topics : List (TopicMeta F)) (id : ℕ) : Bool := (topics[id]?.map TopicMeta.cacheLastMsg).getD true

/-- Whether `mcap` has a format for a topic. -/
def inMcap (topics : List (TopicMeta F)) (id : ℕ) : Bool := (topics[id]?.map RecordAction.mcapSupports).getD false

/-- The channel of a topic in every file; zero, which is no channel, for a topic that has none. -/
def channelOf (env : Env D F) (infos : List (ℕ × String)) (id : ℕ) : UInt16 :=
  ((infos.findIdx? fun info => info.1 = id).map env.addChannel).getD 0

/-- The message of a record, on the channel of its topic. -/
def ownMessage (env : Env D F) (infos : List (ℕ × String)) (r : OneRecord D) : Message D where
  channelId := channelOf env infos r.topicIndex
  sequence := r.pubSequence
  logTime := r.logTimestamp
  publishTime := r.pubTimestamp
  data := r.buffer

/-- What `mcap` tells of `write` to a file with so many channels: it succeeds for these channels and for no other,
and their ids are not zero. -/
structure WritesChannels (env : Env D F) (channels : ℕ) : Prop where
  write : ∀ calls msg, env.writeMcap calls channels msg = true ↔ ∃ j < channels, msg.channelId = env.addChannel j
  ne_zero : ∀ j < channels, env.addChannel j ≠ 0

namespace RecordAction

variable (env : Env D F)

/-- The loop that adds channels, from a number on. -/
theorem foldl_addChannels {infos : List (ℕ × String)} (hnodup : (infos.map Prod.fst).Nodup) (n : ℕ)
    (runtime : ℕ → TopicRuntimeInfo D) (id : ℕ) :
    (infos.zipIdx n).foldl
      (fun m e => Function.update m e.1.1 { m e.1.1 with channelId := env.addChannel e.2 }) runtime id =
      match infos.findIdx? fun info => info.1 = id with
      | some k => { runtime id with channelId := env.addChannel (n + k) }
      | none => runtime id := by
  induction infos generalizing n runtime with
  | nil => rfl
  | cons info infos ih =>
    rw [List.map_cons, List.nodup_cons] at hnodup
    rw [List.zipIdx_cons, List.foldl_cons, ih hnodup.2, List.findIdx?_cons]
    by_cases hid : info.1 = id
    · subst hid
      have hnone : infos.findIdx? (fun other => other.1 = info.1) = none := by
        rw [List.findIdx?_eq_none_iff]
        intro other hother
        rw [decide_eq_false_iff_not]
        exact fun e => hnodup.1 (List.mem_map.2 ⟨other, hother, e⟩)
      simp [hnone]
    · have hne : id ≠ info.1 := fun e => hid e.symm
      simp only [hid, decide_false, Bool.false_eq_true, if_false, Function.update_of_ne hne]
      cases infos.findIdx? fun other => other.1 = id with
      | none => rfl
      | some k => simp [Nat.add_assoc, Nat.add_comm 1 k]

/-- What is fixed when the action is configured, and the ids of the channels of an open file. -/
structure Wired (s : RecordAction D F) : Prop where
  nodup : (s.mcapInfoMap.map Prod.fst).Nodup
  keys : ∀ id, id ∈ s.mcapInfoMap.map Prod.fst ↔ inMcap s.topics id = true
  unknown : ∀ id, inMcap s.topics id = false → (s.topicRuntimeMap id).channelId = 0
  caches : ∀ id, (s.topicRuntimeMap id).cacheLastMsg = cachesLastMsg s.topics id
  channels : ∀ path, s.writer = some path → ∀ id, (s.topicRuntimeMap id).channelId = channelOf env s.mcapInfoMap id

variable {env}

theorem Wired.findIdx? {s : RecordAction D F} (h : Wired env s) {id : ℕ} (hid : inMcap s.topics id = true) :
    ∃ k < s.mcapInfoMap.length, s.mcapInfoMap.findIdx? (fun info => info.1 = id) = some k := by
  obtain ⟨info, hinfo, heq⟩ := List.mem_map.1 ((h.keys id).2 hid)
  cases hfind : s.mcapInfoMap.findIdx? fun info => info.1 = id with
  | none =>
    rw [List.findIdx?_eq_none_iff] at hfind
    exact absurd heq (of_decide_eq_false (hfind info hinfo))
  | some k =>
    obtain ⟨hk, -⟩ := List.findIdx?_eq_some_iff_getElem.1 hfind
    exact ⟨k, hk, rfl⟩

theorem Wired.findIdx?_eq_none {s : RecordAction D F} (h : Wired env s) {id : ℕ} (hid : inMcap s.topics id = false) :
    s.mcapInfoMap.findIdx? (fun info => info.1 = id) = none := by
  rw [List.findIdx?_eq_none_iff]
  intro info hinfo
  rw [decide_eq_false_iff_not]
  intro heq
  have htrue := (h.keys id).1 (List.mem_map.2 ⟨info, hinfo, heq⟩)
  rw [hid] at htrue
  cases htrue

/-- A message that is written to an open file is the one of the record. -/
theorem Wired.messageOf {s : RecordAction D F} (h : Wired env s) {path : Path} (hwriter : s.writer = some path)
    (r : OneRecord D) : messageOf s r = ownMessage env s.mcapInfoMap r := by
  rw [RecordAction.messageOf, ownMessage, h.channels path hwriter]

/-- It is written when `mcap` has a format for the topic. -/
theorem Wired.writeStatus {s : RecordAction D F} (h : Wired env s) (hmcap : WritesChannels env s.mcapInfoMap.length)
    {path : Path} (hwriter : s.writer = some path) (r : OneRecord D) :
    writeStatus env s r = inMcap s.topics r.topicIndex := by
  rw [RecordAction.writeStatus, hwriter, h.messageOf hwriter]
  cases hid : inMcap s.topics r.topicIndex with
  | true =>
    obtain ⟨k, hk, hfind⟩ := h.findIdx? hid
    refine (hmcap.write _ _).2 ⟨k, hk, ?_⟩
    simp [ownMessage, channelOf, hfind]
  | false =>
    rw [Option.isSome_some, Bool.true_and, Bool.eq_false_iff]
    intro hwrite
    obtain ⟨j, hlt, hj⟩ := (hmcap.write _ _).1 hwrite
    have hfind := h.findIdx?_eq_none hid
    simp only [ownMessage, channelOf, hfind, Option.map_none, Option.getD_none] at hj
    exact hmcap.ne_zero j hlt hj.symm

/-- What is wired stays so where the topics are only told of other messages. -/
theorem Wired.of_runtime {s s' : RecordAction D F} (h : Wired env s) (hinfos : s'.mcapInfoMap = s.mcapInfoMap)
    (htopics : s'.topics = s.topics) (hwriter : ∀ path, s'.writer = some path → ∃ path', s.writer = some path')
    (hruntime : ∀ id, (s'.topicRuntimeMap id).channelId = (s.topicRuntimeMap id).channelId ∧
      (s'.topicRuntimeMap id).cacheLastMsg = (s.topicRuntimeMap id).cacheLastMsg) : Wired env s' where
  nodup := by rw [hinfos]; exact h.nodup
  keys := by rw [hinfos, htopics]; exact h.keys
  unknown := by
    intro id hid
    rw [htopics] at hid
    rw [(hruntime id).1, h.unknown id hid]
  caches := by
    intro id
    rw [htopics, (hruntime id).2, h.caches]
  channels := by
    intro path hpath id
    obtain ⟨path', hpath'⟩ := hwriter path hpath
    rw [(hruntime id).1, hinfos, h.channels path' hpath']

theorem addChannels_runtime {s : RecordAction D F} (h : Wired env s) (id : ℕ) :
    addChannels env s.mcapInfoMap s.topicRuntimeMap id =
      { s.topicRuntimeMap id with channelId := channelOf env s.mcapInfoMap id } := by
  rw [addChannels, foldl_addChannels env h.nodup 0, channelOf]
  cases hid : inMcap s.topics id with
  | true =>
    obtain ⟨k, -, hfind⟩ := h.findIdx? hid
    simp [hfind]
  | false =>
    have hzero := h.unknown id hid
    simp [h.findIdx?_eq_none hid, ← hzero]

/-- An opening gives the topics their channels. -/
theorem Wired.openedMcap {s : RecordAction D F} (h : Wired env s) (timestamp : UInt64) :
    Wired env (openedMcap env timestamp s) where
  nodup := h.nodup
  keys := h.keys
  unknown := by
    intro id hid
    change (addChannels env s.mcapInfoMap s.topicRuntimeMap id).channelId = 0
    rw [addChannels_runtime h]
    simp [channelOf, h.findIdx?_eq_none hid]
  caches := by
    intro id
    change (addChannels env s.mcapInfoMap s.topicRuntimeMap id).cacheLastMsg = _
    rw [addChannels_runtime h]
    exact h.caches id
  channels := by
    intro path _ id
    change (addChannels env s.mcapInfoMap s.topicRuntimeMap id).channelId = _
    rw [addChannels_runtime h]
    rfl

end RecordAction

end AimRT.RecordPlayback
