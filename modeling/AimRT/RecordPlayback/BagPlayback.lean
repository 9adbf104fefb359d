import AimRT.Lib.Assoc
import AimRT.RecordPlayback.BagContents
import AimRT.RecordPlayback.PlaybackCovers
import Mathlib.Data.List.TakeWhile

/-!
# Playing back what was recorded

A bag that was recorded is read by a playback action: the metadata tell the topics and the files, and each file has
the channels that were added and the messages that were written.  The two actions meet in the times of the messages.
The player takes the start of the first file for the start of everything, and that is the time at which the file was
opened.  So a bag plays back when no message is older than that (`PlaysBack`), and the records of the preparation are.
-/

namespace AimRT.RecordPlayback

open RecordAction PlaybackAction Player

variable {D F : Type}

/-! ### The bag -/

/-- The channels of a file: the ids in the order in which the channels are added, and the names of the topics. -/
def channelsOf (env : Env D F) (infos : List (ℕ × String)) : List (UInt16 × String) :=
  infos.zipIdx.map fun e => (env.addChannel e.2, e.1.2)

/-- The channels of a file have ids of their own. -/
def DistinctChannels (env : Env D F) (channels : ℕ) : Prop :=
  ∀ i < channels, ∀ j < channels, env.addChannel i = env.addChannel j → i = j

variable {env : Env D F}

theorem nodup_channelsOf {infos : List (ℕ × String)} (h : DistinctChannels env infos.length) :
    ((channelsOf env infos).map Prod.fst).Nodup := by
  have hids : (channelsOf env infos).map Prod.fst = (List.range infos.length).map env.addChannel := by
    rw [channelsOf, List.map_map, List.range_eq_range', ← List.zipIdx_map_snd, List.map_map]
    rfl
  rw [hids]
  refine List.Nodup.map_on (fun i hi j hj heq => ?_) List.nodup_range
  exact h i (List.mem_range.1 hi) j (List.mem_range.1 hj) heq

/-- What the metadata tell of a topic. -/
def bagTopic (t : TopicMeta F) : BagTopic where
  id := t.id
  topicName := t.topicName
  msgType := t.msgType
  serializationType := t.serializationType

section

variable (env) (order : List (Message D) → List (Message D)) (s : RecordAction D F)
  (h : DistinctChannels env s.mcapInfoMap.length)

/-- A file that was recorded; the reader goes over its messages in an order of its own. -/
def bagFile (file : FileMeta) : BagFile D where
  fileMeta := file
  isFile := true
  opens := true
  channels := channelsOf env s.mcapInfoMap
  messages := order (held s.log ⟨s.realBagPath, file.path⟩)
  nodup := nodup_channelsOf h

/-- The bag that an action has recorded. -/
def bagOf : Bag D where
  version := kVersion
  topics := s.topics.map bagTopic
  files := s.files.map (bagFile env order s h)

end

/-- **What makes a bag play back**: the files have different names and hold messages, and the second one starts behind
the start of the player; no message is older than the first file, or has the last timestamp of all; and no topic takes
the name of a topic with messages away. -/
structure PlaysBack (options : PlaybackOptions) (s : RecordAction D F) : Prop where
  names : (names s).Nodup
  full : ∀ file ∈ s.files, held s.log ⟨s.realBagPath, file.path⟩ ≠ []
  second : ∀ first second rest, s.files = first :: second :: rest →
    first.startTimestamp + options.skipDurationS * 1000000000 < second.startTimestamp
  inside : ∀ first rest, s.files = first :: rest → ∀ r ∈ (bagHistory s.log).recorded,
    first.startTimestamp ≤ r.logTimestamp ∧ r.logTimestamp ≠ maxTime
  named : ∀ r ∈ (bagHistory s.log).recorded, ∀ t ∈ s.topics[r.topicIndex]?, ∀ t' ∈ s.topics.drop (r.topicIndex + 1),
    t'.topicName ≠ t.topicName

/-! ### Topics -/

/-- A topic is found by its name when no topic behind it has this name. -/
theorem topicIdsOf_eq {topics : List BagTopic} {k : ℕ} {t : BagTopic} (ht : topics[k]? = some t)
    (hlast : ∀ t' ∈ topics.drop (k + 1), t'.topicName ≠ t.topicName) : topicIdsOf topics t.topicName = some t.id := by
  have hbehind : ∀ (later : List BagTopic) (m : String → Option ℕ), (∀ t' ∈ later, t'.topicName ≠ t.topicName) →
      later.foldl (fun (m : String → Option ℕ) t' => Function.update m t'.topicName (some t'.id)) m t.topicName =
        m t.topicName := by
    intro later
    induction later with
    | nil =>
      intro m _
      rfl
    | cons t' later ih =>
      intro m hne
      rw [List.foldl_cons, ih _ fun t'' ht'' => hne t'' (List.mem_cons_of_mem _ ht''),
        Function.update_of_ne (hne t' List.mem_cons_self).symm]
  obtain ⟨hk, helem⟩ := List.getElem?_eq_some_iff.1 ht
  have hsplit : topics = topics.take k ++ t :: topics.drop (k + 1) := by
    rw [← helem, ← List.drop_eq_getElem_cons hk, List.take_append_drop]
  rw [topicIdsOf]
  conv_lhs => rw [hsplit]
  rw [List.foldl_append, List.foldl_cons, hbehind _ _ hlast, Function.update_self]

/-- The channel of a topic has its name. -/
theorem lookup_channelsOf {infos : List (ℕ × String)} (h : DistinctChannels env infos.length) {id k : ℕ}
    (hfind : infos.findIdx? (fun info => info.1 = id) = some k) {info : ℕ × String} (hinfo : infos[k]? = some info) :
    (channelsOf env infos).lookup (channelOf env infos id) = some info.2 := by
  have hk : (channelsOf env infos)[k]? = some (env.addChannel k, info.2) := by
    simp [channelsOf, List.getElem?_map, hinfo]
  have hid : channelOf env infos id = env.addChannel k := by rw [channelOf, hfind, Option.map_some, Option.getD_some]
  rw [hid]
  exact Lib.Assoc.lookup_eq_some_of_mem (nodup_channelsOf h) (List.mem_of_getElem? hk)

/-! ### The action that plays it -/

/-- The topic and the data of a publication. -/
def dataOf (published : UInt64 × PlaybackRecord D) : ℕ × D := (published.2.topicIndex, published.2.buffer)

/-- The topic and the data of a record. -/
def recordData (r : OneRecord D) : ℕ × D := (r.topicIndex, r.buffer)

section

variable {order : List (Message D) → List (Message D)} {s : RecordAction D F} {options : PlaybackOptions}
  {h : DistinctChannels env s.mcapInfoMap.length}

/-- The action that plays a bag with all its topics. -/
def playing (env : Env D F) (order : List (Message D) → List (Message D)) (s : RecordAction D F)
    (h : DistinctChannels env s.mcapInfoMap.length) (options : PlaybackOptions) : PlaybackAction D :=
  configuredPlayback options (bagOf env order s h).topics (bagOf env order s h).files

/-- The message of a record is published on the topic of the record. -/
theorem topicOfChannel_playing (hwired : Wired env s) (hnumbered : Numbered s.topics) (hnamed : Recorder.Named s)
    (hbag : PlaysBack options s) {r : OneRecord D} (hr : r ∈ (bagHistory s.log).recorded)
    (hmcap : inMcap s.topics r.topicIndex = true) {file : BagFile D}
    (hfile : file.channels = channelsOf env s.mcapInfoMap) :
    topicOfChannel (playing env order s h options) file (ownMessage env s.mcapInfoMap r).channelId =
      some r.topicIndex := by
  obtain ⟨k, hk, hfind⟩ := hwired.findIdx? hmcap
  obtain ⟨hlt, hid, -⟩ := List.findIdx?_eq_some_iff_getElem.1 hfind
  obtain ⟨t, ht, hname⟩ := hnamed _ (List.getElem_mem hlt)
  rw [of_decide_eq_true hid] at ht
  have hlookup := lookup_channelsOf h hfind (List.getElem?_eq_getElem hlt)
  have htopic : (s.topics.map bagTopic)[r.topicIndex]? = some (bagTopic t) := by
    rw [List.getElem?_map, ht, Option.map_some]
  have hids := topicIdsOf_eq htopic fun t' ht' => by
    rw [← List.map_drop] at ht'
    obtain ⟨t'', ht'', rfl⟩ := List.mem_map.1 ht'
    exact hbag.named r hr t ht t'' ht''
  rw [topicOfChannel, hfile]
  change ((channelsOf env s.mcapInfoMap).lookup (channelOf env s.mcapInfoMap r.topicIndex)).bind
    (topicIdsOf (s.topics.map bagTopic)) = _
  rw [hlookup, hname]
  change topicIdsOf (s.topics.map bagTopic) (bagTopic t).topicName = _
  rw [hids]
  exact congrArg some (hnumbered _ t ht)

/-- A bag with files is played when the types of all its topics are supported. -/
theorem initializePlayback_bagOf {typeSupport : String → Option ((String → Bool) × String)}
    (hall : selectTopics options.topicMetaList (bagOf env order s h).topics = (bagOf env order s h).topics)
    (hcheck : ∀ t ∈ s.topics, checkBagTopic typeSupport (bagTopic t) = .ok ()) (hfiles : s.files ≠ []) :
    initializePlayback typeSupport options (bagOf env order s h) = .ok (playing env order s h options) := by
  have hchecked : (bagOf env order s h).topics.forM (checkBagTopic typeSupport) = .ok () := by
    change (s.topics.map bagTopic).forM _ = _
    generalize s.topics = topics at hcheck
    induction topics with
    | nil => rfl
    | cons t topics ih =>
      change (checkBagTopic typeSupport (bagTopic t) >>= fun _ => (topics.map bagTopic).forM _) = _
      rw [hcheck t List.mem_cons_self]
      exact ih fun t' ht' => hcheck t' (List.mem_cons_of_mem _ ht')
  have hthere : (bagOf env order s h).files.filter BagFile.isFile = (bagOf env order s h).files := by
    refine List.filter_eq_self.2 fun file hfile => ?_
    obtain ⟨listed, -, rfl⟩ := List.mem_map.1 hfile
    rfl
  have hempty : (bagOf env order s h).files.isEmpty = false := by
    rw [List.isEmpty_eq_false_iff, ne_eq, bagOf, List.map_eq_nil_iff]
    exact hfiles
  have hversion : (bagOf env order s h).version = kVersion := rfl
  simp only [initializePlayback, hversion, hall, hchecked, hthere, hempty, ne_eq, not_true_eq_false, if_false,
    Bool.false_eq_true]
  rfl

/-! ### What the player finds -/

/-- A message in a file is that of a record. -/
theorem exists_recorded (hstores : Stores env s) (hremoved : (bagHistory s.log).removed = false)
    (hbag : PlaysBack options s) {file : FileMeta} (hfile : file ∈ s.files) {m : Message D}
    (hm : m ∈ held s.log ⟨s.realBagPath, file.path⟩) :
    ∃ r ∈ (bagHistory s.log).recorded, m = ownMessage env s.mcapInfoMap r := by
  have hcontents : m ∈ contents s := List.mem_flatMap.2 ⟨file, hfile, hm⟩
  rw [hstores.contents hremoved hbag.names, List.mem_map] at hcontents
  obtain ⟨r, hr, rfl⟩ := hcontents
  exact ⟨r, hr, rfl⟩

/-- All messages of a file are in the window. -/
theorem windowOf_playing (hstores : Stores env s) (hnumbered : Numbered s.topics) (hnamed : Recorder.Named s)
    (hremoved : (bagHistory s.log).removed = false) (hbag : PlaysBack options s) (horder : ∀ ms, (order ms).Perm ms)
    {file : FileMeta} (hfile : file ∈ s.files) :
    windowOf (playing env order s h options) 0 0 (bagFile env order s h file) =
      order (held s.log ⟨s.realBagPath, file.path⟩) := by
  refine List.filter_eq_self.2 fun m hm => ?_
  obtain ⟨r, hr, rfl⟩ := exists_recorded hstores hremoved hbag hfile ((horder _).mem_iff.1 hm)
  have htopic : topicOfChannel (playing env order s h options) (bagFile env order s h file)
      (ownMessage env s.mcapInfoMap r).channelId = some r.topicIndex :=
    topicOfChannel_playing hstores.wired hnumbered hnamed hbag hr (hstores.known r hr) rfl
  rw [htopic]
  cases hfiles : s.files with
  | nil =>
    rw [hfiles] at hfile
    cases hfile
  | cons first rest =>
    have hstart : windowStart (playing env order s h options).files 0 = first.startTimestamp.toNat := by
      simp [windowStart, playing, configuredPlayback, bagOf, bagFile, hfiles]
    have hinside := (hbag.inside first rest hfiles r hr).1
    rw [UInt64.le_iff_toNat_le] at hinside
    simp [inWindow, hstart, ownMessage, hinside]

/-- In a bag without channels nothing is in the window. -/
theorem windowOf_eq_nil (hinfos : s.mcapInfoMap = []) (file : FileMeta) :
    windowOf (playing env order s h options) 0 0 (bagFile env order s h file) = [] := by
  refine List.filter_eq_nil_iff.2 fun m _ => ?_
  simp [topicOfChannel, bagFile, channelsOf, hinfos]

theorem playable_playing (file : FileMeta) :
    playable (startPlaybackImpl 0 0 0 (playing env order s h options)) (bagFile env order s h file) =
      !s.mcapInfoMap.isEmpty := by
  have hstop : (startPlaybackImpl 0 0 0 (playing env order s h options)).stopPlaybackTimestamp = 0 := rfl
  have hchannels : (channelsOf env s.mcapInfoMap).isEmpty = s.mcapInfoMap.isEmpty := by
    rw [Bool.eq_iff_iff, List.isEmpty_iff, List.isEmpty_iff, channelsOf, List.map_eq_nil_iff, List.zipIdx_eq_nil_iff]
  simp [playable, hstop, bagFile, hchannels]

/-- The player begins with the first file. -/
theorem curMcapFileIndex_playing (hbag : PlaysBack options s) :
    (playing env order s h options).curMcapFileIndex = 0 := by
  change fileIndexOf (s.files.map (bagFile env order s h)) (startPlaybackOf _ _) = 0
  cases hfiles : s.files with
  | nil => rfl
  | cons first rest =>
    cases rest with
    | nil => rfl
    | cons second rest =>
      have hsecond := hbag.second first second rest hfiles
      have hbehind : ¬second.startTimestamp ≤ first.startTimestamp + options.skipDurationS * 1000000000 := by
        rw [UInt64.not_le]
        exact hsecond
      simp [fileIndexOf, startPlaybackOf, bagOf, hfiles, bagFile, hbehind]

/-- **A bag that plays back** is one that a run finds as it has to. -/
theorem startsClean_playing (hstores : Stores env s) (hnumbered : Numbered s.topics) (hnamed : Recorder.Named s)
    (hremoved : (bagHistory s.log).removed = false) (hbag : s.mcapInfoMap ≠ [] → PlaysBack options s)
    (horder : ∀ ms, (order ms).Perm ms) : StartsClean (playing env order s h options) 0 0 := by
  have hfits : windowStart (playing env order s h options).files 0 + (0 : UInt64).toNat * 1000000000 < 2 ^ 64 := by
    have hlt := (((playing env order s h options).files.head?.map
      fun file : BagFile D => file.fileMeta.startTimestamp).getD 0).toNat_lt
    simpa [windowStart] using hlt
  have hmem : ∀ file ∈ (playing env order s h options).files, ∃ listed ∈ s.files, bagFile env order s h listed = file :=
    fun file hfile => List.mem_map.1 hfile
  have hahead : ∀ file ∈ ahead (playing env order s h options), file ∈ (playing env order s h options).files :=
    fun file hfile => List.mem_of_mem_drop hfile
  by_cases hinfos : s.mcapInfoMap = []
  · have hempty : ∀ file ∈ (playing env order s h options).files,
        windowOf (playing env order s h options) 0 0 file = [] := by
      intro file hfile
      obtain ⟨listed, -, rfl⟩ := hmem file hfile
      exact windowOf_eq_nil hinfos listed
    have hrefused : ∀ file ∈ (playing env order s h options).files,
        playable (startPlaybackImpl 0 0 0 (playing env order s h options)) file = false := by
      intro file hfile
      obtain ⟨listed, -, rfl⟩ := hmem file hfile
      rw [playable_playing, hinfos]
      rfl
    refine ⟨rfl, hfits, fun _ file hfile m hm => ?_, fun file hfile => hempty file (List.mem_of_mem_take hfile),
      fun file hfile => ?_, fun file hfile => ?_⟩
    · rw [hempty file hfile] at hm
      cases hm
    · have haccepted := List.all_eq_true.1 List.all_takeWhile file hfile
      rw [hrefused file (hahead file ((List.takeWhile_prefix _).subset hfile))] at haccepted
      cases haccepted
    · have hfile' := hahead file ((List.dropWhile_suffix _).subset hfile)
      exact ⟨hrefused file hfile', hempty file hfile'⟩
  · replace hbag := hbag hinfos
    have hwindow : ∀ listed ∈ s.files, windowOf (playing env order s h options) 0 0 (bagFile env order s h listed) =
        order (held s.log ⟨s.realBagPath, listed.path⟩) := fun listed hlisted =>
      windowOf_playing hstores hnumbered hnamed hremoved hbag horder hlisted
    refine ⟨rfl, hfits, fun _ file hfile m hm => ?_, fun file hfile => ?_, fun file hfile => ?_, fun file hfile => ?_⟩
    · obtain ⟨listed, hlisted, rfl⟩ := hmem file hfile
      rw [hwindow listed hlisted, (horder _).mem_iff] at hm
      obtain ⟨r, hr, rfl⟩ := exists_recorded hstores hremoved hbag hlisted hm
      cases hfiles : s.files with
      | nil =>
        rw [hfiles] at hlisted
        cases hlisted
      | cons first rest => exact (hbag.inside first rest hfiles r hr).2
    · rw [curMcapFileIndex_playing hbag] at hfile
      cases hfile
    · obtain ⟨listed, hlisted, rfl⟩ := hmem file (hahead file ((List.takeWhile_prefix _).subset hfile))
      rw [hwindow listed hlisted]
      exact fun hnil => hbag.full listed hlisted ((horder _).symm.trans (by rw [hnil])).eq_nil
    · have hall : (ahead (playing env order s h options)).dropWhile
          (playable (startPlaybackImpl 0 0 0 (playing env order s h options))) = [] := by
        rw [List.dropWhile_eq_nil_iff]
        intro other hother
        obtain ⟨listed, -, rfl⟩ := hmem other (hahead other hother)
        rw [playable_playing, Bool.not_eq_true', List.isEmpty_eq_false_iff]
        exact hinfos
      rw [hall] at hfile
      cases hfile

/-- The topic and the data with which a message is published. -/
def messageData (p : PlaybackAction D) (channels : List (UInt16 × String)) (m : Message D) : ℕ × D :=
  (((channels.lookup m.channelId).bind p.topicNameToTopicIdMap).getD 0, m.data)

/-- What the run is to publish is what was recorded. -/
theorem expected_playing (hstores : Stores env s) (hnumbered : Numbered s.topics) (hnamed : Recorder.Named s)
    (hremoved : (bagHistory s.log).removed = false) (hbag : s.mcapInfoMap ≠ [] → PlaysBack options s)
    (horder : ∀ ms, (order ms).Perm ms) (now : UInt64) :
    ((expected (playing env order s h options) ⟨0, 0, now⟩).map dataOf).Perm
      ((bagHistory s.log).recorded.map recordData) := by
  have hfiles : (playing env order s h options).files = s.files.map (bagFile env order s h) := rfl
  rw [expected, hfiles, List.flatMap_map, List.map_flatMap]
  by_cases hinfos : s.mcapInfoMap = []
  · have hnone : (bagHistory s.log).recorded = [] := by
      rw [List.eq_nil_iff_forall_not_mem]
      intro r hr
      have hkey := (hstores.wired.keys r.topicIndex).2 (hstores.known r hr)
      rw [hinfos] at hkey
      cases hkey
    rw [hnone, List.map_nil, List.perm_nil, List.flatMap_eq_nil_iff]
    intro file _
    rw [windowOf_eq_nil hinfos, List.map_nil, List.map_nil]
  · replace hbag := hbag hinfos
    have hdata : ∀ file ∈ s.files, (((windowOf (playing env order s h options) 0 0 (bagFile env order s h file)).map
        (publication (playing env order s h options) ⟨0, 0, now⟩ (bagFile env order s h file))).map dataOf).Perm
          ((held s.log ⟨s.realBagPath, file.path⟩).map
            (messageData (playing env order s h options) (channelsOf env s.mcapInfoMap))) := by
      intro file hfile
      rw [windowOf_playing hstores hnumbered hnamed hremoved hbag horder hfile, List.map_map]
      exact (horder _).map _
    refine (List.Perm.flatMap_left s.files hdata).trans (List.Perm.of_eq ?_)
    rw [← List.map_flatMap]
    change (contents s).map _ = _
    rw [hstores.contents hremoved hbag.names, List.map_map]
    refine List.map_congr_left fun r hr => ?_
    have htopic : topicOfChannel (playing env order s h options) (bagFile env order s h ⟨"", 0⟩)
        (ownMessage env s.mcapInfoMap r).channelId = some r.topicIndex :=
      topicOfChannel_playing hstores.wired hnumbered hnamed hbag hr (hstores.known r hr) rfl
    exact Prod.ext (congrArg (fun id : Option ℕ => id.getD 0) htopic) rfl

end

/-! ### One run -/

namespace Player

theorem runs_step (y : Player D) (op : Op) : y.runs <+: (step y op).runs := by
  cases op with
  | start now =>
    simp only [step]
    split_ifs
    · unfold startAction
      dsimp only
      split_ifs
      · exact List.prefix_append _ _
      · exact List.prefix_refl _
    · exact List.prefix_refl _
  | signal skipDurationS playDurationS now =>
    simp only [step]
    split_ifs
    · exact List.prefix_append _ _
    · exact List.prefix_refl _
  | stop =>
    simp only [step]
    split_ifs <;> exact List.prefix_refl _
  | enter =>
    simp only [step]
    split
    · exact List.prefix_refl _
    · unfold release
      split_ifs <;> exact List.prefix_refl _
  | read =>
    simp only [step]
    split
    · exact List.prefix_refl _
    · unfold release
      split_ifs <;> exact List.prefix_refl _
  | fire i =>
    simp only [step]
    split <;> exact List.prefix_refl _

theorem runs_foldl (y : Player D) (ops : List Op) : y.runs <+: (ops.foldl step y).runs := by
  induction ops generalizing y with
  | nil => exact List.prefix_refl _
  | cons op ops ih => exact (runs_step y op).trans (ih (step y op))

/-- A step leaves the bag alone. -/
theorem Inv.sameBag {y : Player D} (h : Inv y) (op : Op) :
    (Player.step y op).action.files = y.action.files ∧
      (Player.step y op).action.topicNameToTopicIdMap = y.action.topicNameToTopicIdMap := by
  cases op with
  | start now =>
    simp only [Player.step]
    split_ifs
    · unfold startAction
      dsimp only
      split_ifs <;> exact ⟨rfl, rfl⟩
    · exact ⟨rfl, rfl⟩
  | signal skipDurationS playDurationS now =>
    simp only [Player.step]
    split_ifs <;> exact ⟨rfl, rfl⟩
  | stop =>
    simp only [Player.step]
    split_ifs <;> exact ⟨rfl, rfl⟩
  | enter =>
    simp only [Player.step]
    split
    · exact ⟨rfl, rfl⟩
    · unfold release
      split_ifs <;> exact ⟨rfl, rfl⟩
  | read =>
    cases hreading : y.reading with
    | zero =>
      simp only [Player.step, hreading]
      exact ⟨trivial, trivial⟩
    | succ n =>
      obtain hrest | ⟨run, hrun, -⟩ := h
      · have hholders := hrest.holders
        rw [holders, hreading] at hholders
        omega
      · obtain ⟨-, -, -, hfiles, htopics, -⟩ := addPlaybackTasks_spec hrun.reads
        simp only [Player.step, hreading]
        unfold release
        split_ifs <;> exact ⟨hfiles, htopics⟩
  | fire i =>
    simp only [Player.step]
    split <;> exact ⟨rfl, rfl⟩

/-- No run was started yet. -/
structure Fresh (p : PlaybackAction D) (y : Player D) : Prop where
  runs : y.runs = []
  entering : y.entering = 0
  reading : y.reading = 0
  tasks : y.tasks = []
  action : y.action = p ∨ y.action = { p with state := .start }

theorem Fresh.startsClean {p : PlaybackAction D} {y : Player D} (h : Fresh p y) {skipDurationS playDurationS : UInt64}
    (hclean : StartsClean p skipDurationS playDurationS) : StartsClean y.action skipDurationS playDurationS := by
  rcases h.action with heq | heq
  · rw [heq]
    exact hclean
  · rw [heq]
    exact ⟨hclean.reader, hclean.fits, hclean.notMaxTime, hclean.before, hclean.played, hclean.refused⟩

theorem Fresh.ready {p : PlaybackAction D} {y : Player D} (h : Fresh p y) (hready : p.playbackState = .readyToPlay) :
    y.action.playbackState = .readyToPlay := by
  rcases h.action with heq | heq
  · rw [heq, hready]
  · rw [heq]
    exact hready

theorem Fresh.step {p : PlaybackAction D} {y : Player D} (h : Fresh p y) (hready : p.playbackState = .readyToPlay)
    {op : Op} (hnone : (step y op).runs = []) : Fresh p (step y op) := by
  cases op with
  | start now =>
    simp only [Player.step] at hnone ⊢
    split_ifs at hnone ⊢
    · unfold startAction at hnone ⊢
      dsimp only at hnone ⊢
      split_ifs at hnone ⊢
      · simp [begin] at hnone
      · refine ⟨h.runs, h.entering, h.reading, h.tasks, .inr ?_⟩
        rcases h.action with heq | heq
        · rw [heq]
        · rw [heq]
    · exact h
  | signal skipDurationS playDurationS now =>
    simp only [Player.step] at hnone ⊢
    split_ifs at hnone ⊢
    · simp [begin] at hnone
    · exact h
  | stop =>
    simp only [Player.step]
    rw [if_neg]
    · exact h
    · rw [h.ready hready]
      rintro ⟨-, -, hplaying⟩
      cases hplaying
  | enter =>
    simp only [Player.step, h.entering]
    exact h
  | read =>
    simp only [Player.step, h.reading]
    exact h
  | fire i =>
    simp only [Player.step, h.tasks, List.getElem?_nil]
    exact h

/-- The only run that is started finds the action as it was initialized. -/
theorem inv_of_oneRun {p : PlaybackAction D} (hready : p.playbackState = .readyToPlay) {run : PlaybackRun}
    (hclean : StartsClean p run.skipDurationS run.playDurationS) {y : Player D} (hinv : Inv y)
    (hfresh : y.runs = [] → Fresh p y) {ops : List Op} (hruns : (ops.foldl step y).runs = [run]) :
    Inv (ops.foldl step y) ∧ expected (ops.foldl step y).action run = expected y.action run := by
  induction ops generalizing y with
  | nil => exact ⟨hinv, rfl⟩
  | cons op ops ih =>
    rw [List.foldl_cons] at hruns ⊢
    have hbegun := runs_foldl (step y op) ops
    rw [hruns] at hbegun
    -- a step that starts a run starts this one, and it is the first
    have hfirst : ∀ skipDurationS playDurationS now,
        (step y op).runs = y.runs ++ [⟨skipDurationS, playDurationS, now⟩] →
        StartsClean y.action skipDurationS playDurationS := by
      intro skipDurationS playDurationS now hone
      rw [hone] at hbegun
      have hlength := hbegun.length_le
      rw [List.length_append, List.length_singleton, List.length_singleton] at hlength
      have hnil : y.runs = [] := List.length_eq_zero_iff.1 (by omega)
      rw [hnil, List.nil_append] at hbegun
      obtain rfl : ⟨skipDurationS, playDurationS, now⟩ = run := by
        simpa using hbegun
      exact (hfresh hnil).startsClean hclean
    have hop : Clean y op := by
      cases op with
      | start now =>
        intro hinit himd hidle
        refine hfirst _ _ now ?_
        simp only [step, hinit, if_true, startAction, himd, hidle, and_self, begin]
      | signal skipDurationS playDurationS now =>
        intro hstarted hsignal hidle
        refine hfirst _ _ now ?_
        simp only [step, hstarted, hsignal, hidle, and_self, if_true, begin]
      | stop => trivial
      | enter => trivial
      | read => trivial
      | fire i => trivial
    obtain ⟨hfiles, htopics⟩ := hinv.sameBag op
    have hfresh' : (step y op).runs = [] → Fresh p (step y op) := by
      intro hnone
      have hold := runs_step y op
      rw [hnone] at hold
      exact (hfresh (List.prefix_nil.1 hold)).step hready hnone
    obtain ⟨hend, hexpected⟩ := ih (hinv.step hop) hfresh' hruns
    exact ⟨hend, hexpected.trans (expected_congr hfiles htopics run)⟩

end Player

/-! ### What is recorded comes back -/

/-- **Playback returns what was recorded**: the run publishes nothing else and nothing twice, and when nothing is left
to do it has published everything, on its topic and with its data. -/
structure Returns (recorded : List (OneRecord D)) (y : Player D) : Prop where
  defined : y.action.undefined = false
  within : ((publications 0 y.fired).map dataOf : Multiset (ℕ × D)) ≤ recorded.map recordData
  everything : y.entering = 0 → y.reading = 0 → y.tasks = [] →
    ((publications 0 y.fired).map dataOf).Perm (recorded.map recordData)

/-- **Recording and playing back.**  For every bag that is recorded from an initialized action on, whatever happens in
between, when no file of it was removed: a run that plays the bag from its start to its end and is not stopped returns
what was recorded, in whatever order the executors take their tasks and the reader goes over the messages of a file, as
long as the bag is one that plays back. -/
theorem returns_of_playsBack (hwalk : WalksAll env) {recordOptions : Options F} {s₀ : RecordAction D F}
    (hrecord : initializeAction env recordOptions = .ok s₀) (hmcap : WritesChannels env s₀.mcapInfoMap.length)
    (recordOps : List (Recorder.Op D)) {s : RecordAction D F}
    (hs : s = (Recorder.run env (Recorder.opened s₀) recordOps).action) (hremoved : (bagHistory s.log).removed = false)
    (h : DistinctChannels env s.mcapInfoMap.length) {order : List (Message D) → List (Message D)}
    (horder : ∀ ms, (order ms).Perm ms) {typeSupport : String → Option ((String → Bool) × String)}
    {options : PlaybackOptions} {p : PlaybackAction D}
    (hplay : initializePlayback typeSupport options (bagOf env order s h) = .ok p)
    (hall : selectTopics options.topicMetaList (bagOf env order s h).topics = (bagOf env order s h).topics)
    (hbag : s.mcapInfoMap ≠ [] → PlaysBack options s) {ops : List Player.Op} {now : UInt64}
    (hruns : (ops.foldl Player.step (loaded p)).runs = [⟨0, 0, now⟩])
    (hstopped : (ops.foldl Player.step (loaded p)).stopped = []) :
    Returns (bagHistory s.log).recorded (ops.foldl Player.step (loaded p)) := by
  subst hs
  obtain ⟨hstores, hnumbered, hnamed⟩ := Recorder.stores_run hwalk hrecord hmcap recordOps
  have hfiles : (bagOf env order _ h).files.filter BagFile.isFile = (bagOf env order _ h).files := by
    refine List.filter_eq_self.2 fun file hfile => ?_
    obtain ⟨listed, -, rfl⟩ := List.mem_map.1 hfile
    rfl
  have hp : p = playing env order _ h options := by
    rw [of_initializePlayback hplay, hall, hfiles]
    rfl
  have hinv := inv_loaded hplay
  subst hp
  have hclean := startsClean_playing (h := h) hstores hnumbered hnamed hremoved hbag horder
  have hexpected := expected_playing (h := h) hstores hnumbered hnamed hremoved hbag horder now
  obtain ⟨hend, hsame⟩ := inv_of_oneRun rfl hclean hinv (fun _ => ⟨rfl, rfl, rfl, rfl, .inl rfl⟩) hruns
  have hcovers := hend.covers
  have hfirst : (ops.foldl Player.step (loaded (playing env order _ h options))).runs[0]? = some ⟨0, 0, now⟩ := by
    rw [hruns]
    rfl
  refine ⟨hcovers.defined, ?_, fun hentering hreading htasks => ?_⟩
  · have hwithin := Multiset.map_le_map (f := dataOf) (hcovers.within 0 _ hfirst)
    rw [hsame, Multiset.map_coe, Multiset.map_coe] at hwithin
    exact hwithin.trans (Multiset.coe_le.2 hexpected.subperm)
  · have hready := hcovers.ends hentering hreading htasks
    have hperm := hcovers.covers 0 _ hfirst (by rw [hstopped]; exact List.not_mem_nil) (.inr hready)
      (by rw [htasks]; rfl)
    rw [hsame] at hperm
    exact (hperm.map dataOf).trans hexpected

/-- An outside whose clock stands at five seconds. -/
def fiveSeconds : Env ℕ (ℕ × ℕ) := quietEnv (fun _ => 5000000000) fun _ _ => false

/-- The signal mode with one topic. -/
def signalOptions : Options (ℕ × ℕ) where
  mode := .signal
  topicMetaList := [{ id := 0, topicName := "image", msgType := "pb:Image", serializationType := "pb",
                      recordEnabled := true, cacheLastMsg := false, sampleFreq := (0, 1) }]

/-- The action of the signal mode as it is initialized. -/
def signalAction : RecordAction ℕ (ℕ × ℕ) := configured fiveSeconds signalOptions signalOptions.topicMetaList

/-- A record of the topic. -/
def recordAt (logTimestamp : UInt64) (buffer : ℕ) : OneRecord ℕ where
  topicIndex := 0
  logTimestamp := logTimestamp
  pubTimestamp := 0
  pubSequence := 0
  buffer := buffer

/-- A recording with a preparation of one second: there may be a record before the signal, and there is one behind
it. -/
def recording (before : List (Recorder.Op ℕ)) : RecordAction ℕ (ℕ × ℕ) :=
  (Recorder.run fiveSeconds (Recorder.opened signalAction)
    (before ++ [.start 1 0, .publish (recordAt 5100000000 2), .execute 0])).action

theorem mcapInfoMap_recording (before : List (Recorder.Op ℕ)) : (recording before).mcapInfoMap = [(0, "image")] :=
  (Recorder.changes_run fiveSeconds (Recorder.opened signalAction) _).fixed.mcapInfoMap

theorem distinctChannels_recording (before : List (Recorder.Op ℕ)) :
    DistinctChannels fiveSeconds (recording before).mcapInfoMap.length := by
  rw [mcapInfoMap_recording]
  intro i hi j hj _
  simp only [List.length_singleton] at hi hj
  omega

/-- The action that plays it. -/
def player (before : List (Recorder.Op ℕ)) : PlaybackAction ℕ :=
  playing fiveSeconds id (recording before) (distinctChannels_recording before) { mode := .signal }

/-- One run, until nothing is left to do. -/
def oneRun : List Player.Op := [.start 0, .signal 0 0 100, .enter, .enter, .read, .read, .fire 0, .enter]

/-- The bag is one that the action can be initialized with. -/
theorem initializePlayback_recording (before : List (Recorder.Op ℕ)) (hfiles : (recording before).files ≠ []) :
    initializePlayback (fun _ => some (fun _ => true, "pb")) { mode := .signal }
      (bagOf fiveSeconds id (recording before) (distinctChannels_recording before)) = .ok (player before) :=
  initializePlayback_bagOf rfl (fun _ _ => rfl) hfiles

/-- A recording without a record before the signal plays back. -/
theorem playsBack_recording : PlaysBack { mode := .signal } (recording []) := by
  have hstarts : (recording []).files.map FileMeta.startTimestamp = [5000000000] := by decide +kernel
  have hrecorded : (bagHistory (recording []).log).recorded = [recordAt 5100000000 2] := by decide +kernel
  refine ⟨by decide +kernel, by decide +kernel, fun first second rest hfiles => ?_, fun first rest hfiles r hr => ?_,
    fun r hr t _ t' ht' => ?_⟩
  · have hlength := congrArg List.length hstarts
    rw [hfiles] at hlength
    simp at hlength
  · rw [hfiles, List.map_cons, List.cons.injEq] at hstarts
    rw [hrecorded, List.mem_singleton] at hr
    rw [hstarts.1, hr]
    decide
  · rw [hrecorded, List.mem_singleton] at hr
    rw [hr] at ht'
    cases ht'

theorem returns_recording :
    Returns (bagHistory (recording []).log).recorded (oneRun.foldl Player.step (loaded (player []))) := by
  have hruns : (oneRun.foldl Player.step (loaded (player []))).runs = [⟨0, 0, 100⟩] := by decide +kernel
  have hrecord : initializeAction fiveSeconds signalOptions = .ok signalAction := rfl
  have hplay := initializePlayback_recording [] (by decide +kernel)
  exact returns_of_playsBack (Recorder.walksAll_quietEnv _ _) hrecord (Recorder.writesChannels_quietEnv _ _) _ rfl
    (by decide +kernel) _ (fun _ => List.Perm.refl _) hplay rfl (fun _ => playsBack_recording) hruns (by decide +kernel)

/-- The steps in front of the signal that leave a record in the cache. -/
def early : List (Recorder.Op ℕ) := [.publish (recordAt 4900000000 1), .execute 0]

/-- A recording with a record before the signal: the record is in the bag, and the player leaves it out. -/
theorem preparation_not_returned :
    let y := oneRun.foldl Player.step (loaded (player early))
    (initializeAction fiveSeconds signalOptions = .ok signalAction ∧
      (bagHistory (recording early).log).removed = false ∧
      (bagHistory (recording early).log).recorded = [recordAt 4900000000 1, recordAt 5100000000 2] ∧
      (contents (recording early)).map Message.data = [1, 2] ∧
      initializePlayback (fun _ => some (fun _ => true, "pb")) { mode := .signal }
        (bagOf fiveSeconds id (recording early) (distinctChannels_recording early)) = .ok (player early) ∧
      y.runs = [⟨0, 0, 100⟩] ∧ y.stopped = [] ∧ y.entering = 0 ∧ y.reading = 0 ∧ y.tasks = [] ∧
      (publications 0 y.fired).map dataOf = [(0, 2)]) ∧ ¬Returns (bagHistory (recording early).log).recorded y := by
  intro y
  have hrecorded : (bagHistory (recording early).log).recorded = [recordAt 4900000000 1, recordAt 5100000000 2] := by
    decide +kernel
  have hpublished : (publications 0 y.fired).map dataOf = [(0, 2)] := by decide +kernel
  have hidle : y.entering = 0 ∧ y.reading = 0 ∧ y.tasks = [] := by decide +kernel
  refine ⟨⟨rfl, by decide +kernel, hrecorded, by decide +kernel, initializePlayback_recording early (by decide +kernel),
    by decide +kernel, by decide +kernel, hidle.1, hidle.2.1, hidle.2.2, hpublished⟩, fun hreturns => ?_⟩
  have hperm := hreturns.everything hidle.1 hidle.2.1 hidle.2.2
  rw [hpublished, hrecorded] at hperm
  have hlength := hperm.length_eq
  cases hlength

end AimRT.RecordPlayback
