import AimRT.RecordPlayback.BagRotation
import AimRT.RecordPlayback.RecordRuns

/-!
# What is in a bag

The bag of an action is its folder, with the files that are listed.  As long as no file was removed and the names are
distinct, the files hold what was recorded since the folder was created, each record once, on the channel of its topic
and in the order in which it was recorded: a record goes to the file that is listed last, and an opening under a new
name leaves the other files alone.
-/

namespace AimRT.RecordPlayback

/-- What happened to a bag since its folder was created: the records that were written to it, copies of last messages
among them, and whether a file was removed. -/
structure BagHistory (D : Type) where
  recorded : List (OneRecord D) := []
  removed : Bool := false
  deriving DecidableEq, Repr

variable {D F : Type}

def BagHistory.step (b : BagHistory D) : Event D → BagHistory D
  | .created _ => {}
  | .write (some _) _ r _ true => { b with recorded := b.recorded ++ [r] }
  | .removed _ _ => { b with removed := true }
  | _ => b

def bagHistory (log : List (Event D)) : BagHistory D := log.foldl BagHistory.step {}

theorem bagHistory_append_singleton (log : List (Event D)) (e : Event D) :
    bagHistory (log ++ [e]) = (bagHistory log).step e := by
  rw [bagHistory, List.foldl_append]
  rfl

namespace RecordAction

/-- The messages of the files that are listed. -/
def contents (s : RecordAction D F) : List (Message D) :=
  s.files.flatMap fun file => held s.log ⟨s.realBagPath, file.path⟩

/-- The file that is open is listed last, and the listed files hold what was recorded. -/
structure Stores (env : Env D F) (s : RecordAction D F) : Prop where
  wired : Wired env s
  mcap : WritesChannels env s.mcapInfoMap.length
  writer : ∀ path, s.writer = some path → ∃ files file,
    s.files = files ++ [file] ∧ path = ⟨s.realBagPath, file.path⟩
  known : ∀ r ∈ (bagHistory s.log).recorded, inMcap s.topics r.topicIndex = true
  contents : (bagHistory s.log).removed = false → (names s).Nodup →
    contents s = (bagHistory s.log).recorded.map (ownMessage env s.mcapInfoMap)

variable {env : Env D F}

/-! ### Changes that are not about the files -/

/-- Nothing happens to what is recorded, but that the file may be closed. -/
theorem Stores.of_same {s s' : RecordAction D F} (h : Stores env s) (htopics : s'.topics = s.topics)
    (hinfos : s'.mcapInfoMap = s.mcapInfoMap)
    (hruntime : ∀ id, (s'.topicRuntimeMap id).channelId = (s.topicRuntimeMap id).channelId ∧
      (s'.topicRuntimeMap id).cacheLastMsg = (s.topicRuntimeMap id).cacheLastMsg)
    (hwriter : ∀ path, s'.writer = some path → s.writer = some path) (hpath : s'.realBagPath = s.realBagPath)
    (hfiles : s'.files = s.files) (hhistory : bagHistory s'.log = bagHistory s.log) (hheld : held s'.log = held s.log) :
    Stores env s' where
  wired := h.wired.of_runtime hinfos htopics (fun path hp => ⟨path, hwriter path hp⟩) hruntime
  mcap := by rw [hinfos]; exact h.mcap
  writer := by
    intro path hp
    rw [hfiles, hpath]
    exact h.writer path (hwriter path hp)
  known := by
    rw [hhistory, htopics]
    exact h.known
  contents := by
    rw [hhistory, hinfos]
    unfold names RecordAction.contents
    rw [hfiles, hheld, hpath]
    exact h.contents

theorem runtime_update {runtime : ℕ → TopicRuntimeInfo D} {id : ℕ} {info : TopicRuntimeInfo D}
    (hchannel : info.channelId = (runtime id).channelId) (hcaches : info.cacheLastMsg = (runtime id).cacheLastMsg)
    (id' : ℕ) : (Function.update runtime id info id').channelId = (runtime id').channelId ∧
      (Function.update runtime id info id').cacheLastMsg = (runtime id').cacheLastMsg := by
  by_cases hid : id' = id
  · subst hid
    rw [Function.update_self]
    exact ⟨hchannel, hcaches⟩
  · rw [Function.update_of_ne hid]
    exact ⟨rfl, rfl⟩

/-! ### Writing and opening -/

/-- A record that is written goes to the file that is listed last. -/
theorem Stores.written {s : RecordAction D F} (h : Stores env s) (copy : Bool) (r : OneRecord D) :
    Stores env (writeRecord env copy r s) := by
  obtain ⟨size, count, e⟩ := writeRecord_eq env copy r s
  have hfixed := (Change.written copy r s : Change env s _).fixed
  have hkept := writeRecord_kept env copy r s
  by_cases hwritten : writeStatus env s r = true
  · obtain ⟨path, hpath⟩ : ∃ path, s.writer = some path := by
      rw [writeStatus, Bool.and_eq_true] at hwritten
      exact Option.isSome_iff_exists.1 hwritten.1
    have hmcap : inMcap s.topics r.topicIndex = true := by rw [← h.wired.writeStatus h.mcap hpath, hwritten]
    have hmsg := h.wired.messageOf hpath r
    obtain ⟨files, file, hfiles, rfl⟩ := h.writer path hpath
    have hhistory : bagHistory (writeRecord env copy r s).log =
        { bagHistory s.log with recorded := (bagHistory s.log).recorded ++ [r] } := by
      rw [e, bagHistory_append_singleton, hpath, hwritten]
      rfl
    have hheld : held (writeRecord env copy r s).log = Function.update (held s.log) ⟨s.realBagPath, file.path⟩
        (held s.log ⟨s.realBagPath, file.path⟩ ++ [ownMessage env s.mcapInfoMap r]) := by
      rw [e, held_append_singleton, hpath, hwritten, hmsg]
      rfl
    refine ⟨?_, by rw [hfixed.mcapInfoMap]; exact h.mcap, ?_, ?_, ?_⟩
    · refine h.wired.of_runtime hfixed.mcapInfoMap hfixed.topics (fun path' hp => ⟨path', ?_⟩) fun id => ?_
      · rw [← hkept.writer, hp]
      · rw [e]
        exact ⟨rfl, rfl⟩
    · intro path' hp
      rw [hkept.writer] at hp
      rw [hkept.files, hkept.realBagPath]
      exact h.writer path' hp
    · rw [hhistory, hfixed.topics]
      intro r' hr'
      rcases List.mem_append.1 hr' with hr' | hr'
      · exact h.known r' hr'
      · rw [List.mem_singleton.1 hr']
        exact hmcap
    · intro hremoved hnodup
      rw [hhistory] at hremoved ⊢
      have hnodup' : (names s).Nodup := by rwa [names, hkept.files] at hnodup
      have hold := h.contents hremoved hnodup'
      have hinit : ∀ other ∈ files, (⟨s.realBagPath, other.path⟩ : Path) ≠ ⟨s.realBagPath, file.path⟩ := by
        intro other hother heq
        rw [names, hfiles, List.map_append, List.nodup_append] at hnodup'
        exact hnodup'.2.2 other.path (List.mem_map.2 ⟨other, hother, rfl⟩) file.path List.mem_cons_self
          (congrArg Path.name heq)
      rw [hfixed.mcapInfoMap, List.map_append, ← hold]
      unfold RecordAction.contents
      rw [hkept.files, hkept.realBagPath, hfiles, hheld, List.flatMap_append, List.flatMap_append, List.append_assoc]
      congr 1
      · refine List.flatMap_congr fun other hother => ?_
        rw [Function.update_of_ne (hinit other hother)]
      · simp
  · rw [Bool.not_eq_true] at hwritten
    refine h.of_same hfixed.topics hfixed.mcapInfoMap (fun id => ?_) (fun path hpath => ?_) hkept.realBagPath
      hkept.files ?_ ?_
    · rw [e]
      exact ⟨rfl, rfl⟩
    · rw [← hkept.writer, hpath]
    · rw [e, bagHistory_append_singleton, hwritten]
      cases s.writer <;> rfl
    · rw [e, held_append_singleton, hwritten]
      cases s.writer <;> rfl

/-- A file that is opened under a new name is empty, and the others are left alone. -/
theorem Stores.opened {s : RecordAction D F} (h : Stores env s) (timestamp : UInt64) :
    Stores env (openedMcap env timestamp s) := by
  have hhistory : bagHistory (openedMcap env timestamp s).log = bagHistory s.log := bagHistory_append_singleton _ _
  have hheld : held (openedMcap env timestamp s).log = Function.update (held s.log) (mcapPath env s timestamp) [] :=
    held_append_singleton _ _
  have hnames : names (openedMcap env timestamp s) = names s ++ [mcapFileName env timestamp] := by
    simp [names, openedMcap, called, logged]
  refine ⟨h.wired.openedMcap timestamp, h.mcap, fun path hpath => ?_, ?_, fun hremoved hnodup => ?_⟩
  · refine ⟨s.files, ⟨mcapFileName env timestamp, timestamp⟩, rfl, ?_⟩
    exact (Option.some.inj hpath).symm
  · rw [hhistory]
    exact h.known
  · rw [hhistory] at hremoved ⊢
    rw [hnames, List.nodup_append] at hnodup
    obtain ⟨hnodup, -, hfresh⟩ := hnodup
    have hother : ∀ file ∈ s.files, (⟨s.realBagPath, file.path⟩ : Path) ≠ mcapPath env s timestamp := by
      intro file hfile heq
      exact hfresh file.path (List.mem_map.2 ⟨file, hfile, rfl⟩) _ List.mem_cons_self (congrArg Path.name heq)
    have hfiles : (openedMcap env timestamp s).files = s.files ++ [⟨mcapFileName env timestamp, timestamp⟩] := rfl
    have hpath : (openedMcap env timestamp s).realBagPath = s.realBagPath := rfl
    change RecordAction.contents (openedMcap env timestamp s) = List.map (ownMessage env s.mcapInfoMap) _
    rw [← h.contents hremoved hnodup, RecordAction.contents, RecordAction.contents, hfiles, hpath, hheld,
      List.flatMap_append, List.flatMap_singleton]
    have hempty : Function.update (held s.log) (mcapPath env s timestamp) []
        ⟨s.realBagPath, mcapFileName env timestamp⟩ = [] := Function.update_self ..
    rw [hempty, List.append_nil]
    refine List.flatMap_congr fun file hfile => ?_
    rw [Function.update_of_ne (hother file hfile)]

/-- From a removal on nothing is said of the contents. -/
theorem Stores.removed {s : RecordAction D F} (h : Stores env s) {file : FileMeta} {rest : List FileMeta}
    (hfiles : s.files = file :: rest) (hrest : rest ≠ []) : Stores env (removedFile file rest s) := by
  have hhistory : bagHistory (removedFile file rest s).log = { bagHistory s.log with removed := true } :=
    bagHistory_append_singleton _ _
  refine ⟨h.wired.of_runtime rfl rfl (fun path hpath => ⟨path, hpath⟩) fun id => ⟨rfl, rfl⟩, h.mcap,
    fun path hpath => ?_, ?_, fun hremoved => ?_⟩
  · obtain ⟨init, last, hinit, rfl⟩ := h.writer path hpath
    rw [hfiles] at hinit
    cases init with
    | nil =>
      rw [List.nil_append, List.cons.injEq] at hinit
      exact absurd hinit.2 hrest
    | cons first init =>
      rw [List.cons_append, List.cons.injEq] at hinit
      exact ⟨init, last, hinit.2, rfl⟩
  · rw [hhistory]
    exact h.known
  · rw [hhistory] at hremoved
    cases hremoved

/-- A folder that is created is empty. -/
theorem Stores.entered {s : RecordAction D F} (h : Stores env s) (folder : String) :
    Stores env (closeRecord (enterFolder folder s)) := by
  have hhistory : bagHistory (closeRecord (enterFolder folder s)).log = {} := bagHistory_append_singleton _ _
  refine ⟨h.wired.of_runtime rfl rfl (fun path hpath => ?_) fun id => ⟨rfl, rfl⟩, h.mcap, fun path hpath => ?_, ?_, ?_⟩
  · cases hpath
  · cases hpath
  · rw [hhistory]
    intro r hr
    cases hr
  · rw [hhistory]
    exact fun _ _ => rfl

/-- **Every change keeps** what the files hold. -/
theorem Stores.change {s s' : RecordAction D F} (h : Stores env s) (hchange : Change env s s') : Stores env s' := by
  cases hchange with
  | written copy r s => exact h.written copy r
  | kept id m s => exact h.of_same rfl rfl (runtime_update rfl rfl) (fun _ hpath => hpath) rfl rfl rfl rfl
  | opened timestamp s => exact h.opened timestamp
  | failed timestamp s =>
    refine h.of_same rfl rfl (fun id => ⟨rfl, rfl⟩) (fun path hpath => ?_) rfl rfl (bagHistory_append_singleton _ _)
      (held_append_singleton _ _)
    cases hpath
  | removed hfiles hrest => exact h.removed hfiles hrest
  | entered folder s => exact h.entered folder
  | accepted r s =>
    unfold addRecord
    split_ifs
    · exact h.of_same rfl rfl (runtime_update rfl rfl) (fun _ hpath => hpath) rfl rfl
        (bagHistory_append_singleton _ _) (held_append_singleton _ _)
    · exact h
  | closed s =>
    refine h.of_same rfl rfl (fun id => ⟨rfl, rfl⟩) (fun path hpath => ?_) rfl rfl rfl rfl
    cases hpath
  | quiet hquiet =>
    refine h.of_same hquiet.topics hquiet.mcapInfoMap (fun id => ?_) (fun path hpath => ?_) hquiet.realBagPath
      hquiet.files ?_ ?_
    · rw [hquiet.topicRuntimeMap]
      exact ⟨rfl, rfl⟩
    · rw [← hquiet.writer, hpath]
    · rw [hquiet.log]
    · rw [hquiet.log]

end RecordAction

namespace Recorder

open RecordAction

variable {env : Env D F}

/-- The topics that have a channel, with its name: those of the configuration. -/
def Named (s : RecordAction D F) : Prop :=
  ∀ info ∈ s.mcapInfoMap, ∃ t, s.topics[info.1]? = some t ∧ info.2 = t.topicName

theorem named_configured (options : Options F) (topics : List (TopicMeta F)) :
    Named (configured env options topics : RecordAction D F) := by
  intro info hinfo
  obtain ⟨id, -, hid⟩ := List.mem_filterMap.1 hinfo
  obtain ⟨t, ht, rfl⟩ := Option.map_eq_some_iff.1 hid
  exact ⟨t, ht, rfl⟩

theorem changes_run (env : Env D F) (y : Recorder D F) (ops : List (Op D)) :
    Changes env y.action (run env y ops).action := by
  induction ops generalizing y with
  | nil => exact Changes.refl _
  | cons op ops ih => exact (changes_step env y op).trans (ih (step env y op))

/-- An initialized action comes from a configured one, which stores nothing. -/
theorem changes_of_initializeAction (hwalk : WalksAll env) {options : Options F} {s₀ : RecordAction D F}
    (h : initializeAction env options = .ok s₀) (hmcap : WritesChannels env s₀.mcapInfoMap.length) :
    ∃ options' topics, Numbered topics ∧ Changes env (configured env options' topics) s₀ ∧
      Stores env (configured env options' topics) := by
  obtain ⟨topicMetaList, topics, -, hnumber, hs₀⟩ := of_initializeAction h
  have hnumbered : Numbered topics := numberTopics_numbered hnumber numbered_nil
  generalize hoptions : ({ options with topicMetaList := topicMetaList } : Options F) = options' at hs₀
  have hchanges : Changes env (configured env options' topics) s₀ := by
    obtain ⟨rfl, -⟩ | ⟨rfl, -⟩ := hs₀
    · exact Changes.refl _
    · exact changes_openNewFolderToRecord env _
  have hinfos : (configured env options' topics : RecordAction D F).mcapInfoMap.length = s₀.mcapInfoMap.length := by
    rw [hchanges.fixed.mcapInfoMap]
  have hwired := (keeping_configured hwalk options' hnumbered (by rw [hinfos]; exact hmcap)).wired
  refine ⟨options', topics, hnumbered, hchanges, hwired, by rw [hinfos]; exact hmcap, fun path hpath => ?_,
    fun r hr => ?_, fun _ _ => rfl⟩
  · cases hpath
  · cases hr

theorem Stores.start {s : RecordAction D F} (h : Stores env s) : Stores env (start s) :=
  h.of_same rfl rfl (fun _ => ⟨rfl, rfl⟩) (fun _ hpath => hpath) rfl rfl rfl rfl

/-- What is recorded in a run from an initialized action on is in the files. -/
theorem stores_run (hwalk : WalksAll env) {options : Options F} {s₀ : RecordAction D F}
    (h : initializeAction env options = .ok s₀) (hmcap : WritesChannels env s₀.mcapInfoMap.length)
    (ops : List (Op D)) :
    Stores env (run env (opened s₀) ops).action ∧ Numbered (run env (opened s₀) ops).action.topics ∧
      Named (run env (opened s₀) ops).action := by
  obtain ⟨options', topics, hnumbered, hchanges, hconfigured⟩ := changes_of_initializeAction hwalk h hmcap
  have hstores : Stores env s₀ := hchanges.keeps Stores.change hconfigured
  have hrun := changes_run env (opened s₀) ops
  have htopics : (run env (opened s₀) ops).action.topics = topics :=
    hrun.fixed.topics.trans hchanges.fixed.topics
  have hmap : (run env (opened s₀) ops).action.mcapInfoMap =
      (configured env options' topics : RecordAction D F).mcapInfoMap :=
    hrun.fixed.mcapInfoMap.trans hchanges.fixed.mcapInfoMap
  refine ⟨hrun.keeps Stores.change (Stores.start hstores), by rw [htopics]; exact hnumbered, ?_⟩
  rw [Named, htopics, hmap]
  exact named_configured options' topics

end Recorder

end AimRT.RecordPlayback
