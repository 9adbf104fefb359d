import AimRT.RecordPlayback.RecordRuns

/-!
# The status of a record action

What applies to a topic is kept in the map that `AddRecord` reads: whether it is recorded, and the interval of its
samples.  `UpdateTopicMetaRecord` changes the map, and the flag of the whole action in the options.  The status is made
of the configured topics with the flags of the map, so the flags are right at all times.  The sampling frequency is the
configured one, whatever the updates said.
-/

namespace AimRT.RecordPlayback

namespace RecordAction

variable {D F : Type} (env : Env D F)

/-! ### Updates and the status -/

/-- Whether an entry of an update has the name and the type of a topic. -/
def sameTopic (topicMeta t : TopicMeta F) : Bool := t.topicName = topicMeta.topicName && t.msgType = topicMeta.msgType

/-- An entry of an update; one that names no topic is skipped. -/
def updateTopicMeta (s : RecordAction D F) (topicMeta : TopicMeta F) : RecordAction D F :=
  match s.topics.find? (sameTopic topicMeta) with
  | none => s
  | some t =>
    { s with
      topicRuntimeMap := Function.update s.topicRuntimeMap t.id
        { s.topicRuntimeMap t.id with
          recordEnabled := topicMeta.recordEnabled
          sampleInterval := sampleIntervalOf env topicMeta.sampleFreq } }

/-- `UpdateTopicMetaRecord`. -/
def updateTopicMetaRecord (topicMetaList : List (TopicMeta F)) (actionRecordEnabled : Option Bool)
    (s : RecordAction D F) : RecordAction D F :=
  topicMetaList.foldl (updateTopicMeta env)
    { s with options := { s.options with recordEnabled := actionRecordEnabled.getD s.options.recordEnabled } }

/-- `StatusSnapshot`. -/
structure StatusSnapshot (F : Type) where
  recordEnabled : Bool
  topicMetaList : List (TopicMeta F)

/-- `GetStatusSnapshot`; every topic is in the map. -/
def getStatusSnapshot (s : RecordAction D F) : StatusSnapshot F where
  recordEnabled := s.options.recordEnabled
  topicMetaList := s.topics.map fun t => { t with recordEnabled := (s.topicRuntimeMap t.id).recordEnabled }

/-- A frequency that is shown for the interval that is applied: it is positive and the interval is its own, or nothing
is sampled and it is zero. -/
def Shows (freq : F) (sampleInterval : UInt64) : Prop :=
  if 0 < sampleInterval then env.positive freq = true ∧ sampleInterval = env.interval freq
  else env.nonNegative freq = true ∧ env.positive freq = false

instance (freq : F) (sampleInterval : UInt64) : Decidable (Shows env freq sampleInterval) := by
  unfold Shows; infer_instance

/-- **The status is right**: it has the flags and the frequencies that apply. -/
def Reports (s : RecordAction D F) : Prop :=
  (getStatusSnapshot s).recordEnabled = s.options.recordEnabled ∧
    ∀ t ∈ (getStatusSnapshot s).topicMetaList,
      t.recordEnabled = (s.topicRuntimeMap t.id).recordEnabled ∧
        Shows env t.sampleFreq (s.topicRuntimeMap t.id).sampleInterval

/-- What the status tells is all that decides about a record. -/
theorem Reports.accepts_eq {s : RecordAction D F} (h : Reports env s) {t : TopicMeta F}
    (ht : t ∈ (getStatusSnapshot s).topicMetaList) {r : OneRecord D} (hr : r.topicIndex = t.id) :
    accepts s r = (s.state = .start && (getStatusSnapshot s).recordEnabled && t.recordEnabled &&
      !(env.positive t.sampleFreq &&
        r.logTimestamp - (s.topicRuntimeMap t.id).lastTimestamp < env.interval t.sampleFreq)) := by
  obtain ⟨hflag, hshows⟩ := h.2 t ht
  unfold Shows at hshows
  rw [accepts, hr, hflag, h.1]
  split_ifs at hshows with hpos
  · rw [hshows.1, ← hshows.2]
    simp [hpos]
  · rw [hshows.2]
    simp [hpos]

/-! ### The configured topics -/

/-- No two topics have one name and one type, and no frequency is negative. -/
structure Checked (topics : List (TopicMeta F)) : Prop where
  distinct : topics.Pairwise fun t t' => sameTopic t' t = false
  nonNegative : ∀ t ∈ topics, env.nonNegative t.sampleFreq = true

variable {env}

theorem nonNegative_of_checkTopicMeta {topicMeta t : TopicMeta F} (h : checkTopicMeta env topicMeta = .ok t) :
    env.nonNegative t.sampleFreq = true := by
  unfold checkTopicMeta at h
  split at h
  · cases h
  · split_ifs at h with hserialization hfreq hdefault
    · cases h
      simpa using hfreq
    · cases h
      simpa using hfreq

theorem nonNegative_of_mapM {topicMetaList topics : List (TopicMeta F)}
    (h : topicMetaList.mapM (checkTopicMeta env) = .ok topics) :
    ∀ t ∈ topics, env.nonNegative t.sampleFreq = true := by
  induction topicMetaList generalizing topics with
  | nil =>
    cases h
    intro t ht
    cases ht
  | cons topicMeta rest ih =>
    rw [List.mapM_cons] at h
    cases hone : checkTopicMeta env topicMeta with
    | error e =>
      rw [hone] at h
      cases h
    | ok t =>
      cases hrest : rest.mapM (checkTopicMeta env) with
      | error e =>
        rw [hone, hrest] at h
        cases h
      | ok ts =>
        rw [hone, hrest] at h
        cases h
        intro t' ht'
        rcases List.mem_cons.1 ht' with rfl | ht'
        · exact nonNegative_of_checkTopicMeta hone
        · exact ih hrest t' ht'

theorem checked_numberTopics {rest topics result : List (TopicMeta F)} (h : numberTopics topics rest = .ok result)
    (htopics : Checked env topics) (hrest : ∀ t ∈ rest, env.nonNegative t.sampleFreq = true) :
    Checked env result := by
  induction rest generalizing topics with
  | nil =>
    cases h
    exact htopics
  | cons topicMeta rest ih =>
    rw [numberTopics] at h
    split_ifs at h with hany
    refine ih h ⟨?_, ?_⟩ fun t ht => hrest t (List.mem_cons_of_mem _ ht)
    · refine List.pairwise_append.2 ⟨htopics.distinct, List.pairwise_singleton _ _, ?_⟩
      intro t ht t' ht'
      rw [List.mem_singleton.1 ht', Bool.eq_false_iff]
      exact fun hsame => hany (List.any_eq_true.2 ⟨t, ht, hsame⟩)
    · intro t ht
      rcases List.mem_append.1 ht with ht | ht
      · exact htopics.nonNegative t ht
      · rw [List.mem_singleton.1 ht]
        exact hrest topicMeta List.mem_cons_self

/-- The entry of a topic is looked up. -/
theorem Checked.find?_sameTopic {topics : List (TopicMeta F)} (h : Checked env topics) {t topicMeta : TopicMeta F}
    (ht : t ∈ topics) (hsame : sameTopic topicMeta t = true) : topics.find? (sameTopic topicMeta) = some t := by
  obtain ⟨before, after, rfl⟩ := List.append_of_mem ht
  rw [List.find?_append, List.find?_cons_of_pos hsame, Option.or_eq_right_of_none]
  rw [List.find?_eq_none]
  intro t' ht' hsame'
  have hne := (List.pairwise_append.1 h.distinct).2.2 t' ht' t List.mem_cons_self
  simp only [sameTopic, Bool.and_eq_true, decide_eq_true_eq] at hsame hsame'
  simp [sameTopic, hsame.1, hsame.2, hsame'.1, hsame'.2] at hne

/-! ### What else the action does -/

/-- The intervals of the samples are the same. -/
def SameIntervals (s s' : RecordAction D F) : Prop :=
  ∀ id, (s'.topicRuntimeMap id).sampleInterval = (s.topicRuntimeMap id).sampleInterval

/-- An entry of the map that changes, but for the interval. -/
theorem sameIntervals_update {s s' : RecordAction D F} {id : ℕ} {info : TopicRuntimeInfo D}
    (h : s'.topicRuntimeMap = Function.update s.topicRuntimeMap id info)
    (hinfo : info.sampleInterval = (s.topicRuntimeMap id).sampleInterval) : SameIntervals s s' := by
  intro id'
  rw [h]
  by_cases hid : id' = id
  · subst hid
    rw [Function.update_self, hinfo]
  · rw [Function.update_of_ne hid]

/-- The channels that are added change no interval. -/
theorem addChannels_sampleInterval (infos : List (ℕ × String)) (runtime : ℕ → TopicRuntimeInfo D) (id : ℕ) :
    (addChannels env infos runtime id).sampleInterval = (runtime id).sampleInterval := by
  unfold addChannels
  induction infos.zipIdx generalizing runtime with
  | nil => rfl
  | cons e es ih =>
    rw [List.foldl_cons, ih]
    by_cases hid : id = e.1.1
    · subst hid
      rw [Function.update_self]
    · rw [Function.update_of_ne hid]

theorem Change.sameIntervals {s s' : RecordAction D F} (h : Change env s s') : SameIntervals s s' := by
  cases h with
  | written copy r s =>
    obtain ⟨size, count, e⟩ := writeRecord_eq env copy r s
    rw [e]
    exact fun _ => rfl
  | kept id m s => exact sameIntervals_update rfl rfl
  | opened timestamp s => exact addChannels_sampleInterval s.mcapInfoMap s.topicRuntimeMap
  | failed timestamp s => exact fun _ => rfl
  | removed hfiles hrest => exact fun _ => rfl
  | entered folder s => exact fun _ => rfl
  | accepted r s =>
    unfold addRecord
    split_ifs
    · exact sameIntervals_update rfl rfl
    · exact fun _ => rfl
  | closed s => exact fun _ => rfl
  | quiet h =>
    intro id
    rw [h.topicRuntimeMap]

theorem Changes.sameIntervals {s s' : RecordAction D F} (h : Changes env s s') : SameIntervals s s' :=
  h.keeps (fun hs hchange id => (hchange.sameIntervals id).trans (hs id)) fun _ => rfl

/-! ### An update -/

/-- An entry of an update sets the interval of its topic, and of no other one. -/
theorem updateTopicMeta_sampleInterval {s : RecordAction D F} (hnumbered : Numbered s.topics)
    (hchecked : Checked env s.topics) (topicMeta : TopicMeta F) {t : TopicMeta F} (ht : t ∈ s.topics) :
    ((updateTopicMeta env s topicMeta).topicRuntimeMap t.id).sampleInterval =
      if sameTopic topicMeta t then sampleIntervalOf env topicMeta.sampleFreq
      else (s.topicRuntimeMap t.id).sampleInterval := by
  unfold updateTopicMeta
  cases hsame : sameTopic topicMeta t with
  | true => simp [hchecked.find?_sameTopic ht hsame]
  | false =>
    split
    next => rfl
    next t' ht' =>
      have hne : t.id ≠ t'.id := by
        intro hid
        obtain ⟨i, hi⟩ := List.mem_iff_getElem?.1 ht
        obtain ⟨j, hj⟩ := List.mem_iff_getElem?.1 (List.mem_of_find?_eq_some ht')
        rw [hnumbered i t hi, hnumbered j t' hj] at hid
        rw [hid, hj, Option.some.injEq] at hi
        have hsame' := List.find?_some ht'
        rw [hi, hsame] at hsame'
        cases hsame'
      simp [Function.update_of_ne hne]

theorem updateTopicMeta_topics (s : RecordAction D F) (topicMeta : TopicMeta F) :
    (updateTopicMeta env s topicMeta).topics = s.topics := by
  unfold updateTopicMeta
  split <;> rfl

end RecordAction

namespace Recorder

open RecordAction

variable {D F : Type} {env : Env D F}

/-! ### Runs -/

/-- A step of the recorder, or a call of `UpdateTopicMetaRecord`. -/
inductive StatusOp (D F : Type) where
  | record (op : Op D)
  | update (topicMetaList : List (TopicMeta F)) (actionRecordEnabled : Option Bool)

def statusStep (env : Env D F) (y : Recorder D F) : StatusOp D F → Recorder D F
  | .record op => step env y op
  | .update topicMetaList actionRecordEnabled =>
    { y with action := updateTopicMetaRecord env topicMetaList actionRecordEnabled y.action }

def statusRun (env : Env D F) (y : Recorder D F) (ops : List (StatusOp D F)) : Recorder D F :=
  ops.foldl (statusStep env) y

/-- The entries of all updates. -/
def updates (ops : List (StatusOp D F)) : List (TopicMeta F) :=
  ops.flatMap fun
    | .record _ => []
    | .update topicMetaList _ => topicMetaList

/-- The frequency of the last entry that names a topic, or else the configured one. -/
def lastFreq (entries : List (TopicMeta F)) (t : TopicMeta F) : F :=
  (((entries.filter fun topicMeta => sameTopic topicMeta t).getLast?).map TopicMeta.sampleFreq).getD t.sampleFreq

theorem lastFreq_append_singleton (entries : List (TopicMeta F)) (topicMeta t : TopicMeta F) :
    lastFreq (entries ++ [topicMeta]) t =
      if sameTopic topicMeta t then topicMeta.sampleFreq else lastFreq entries t := by
  cases hsame : sameTopic topicMeta t <;> simp [lastFreq, hsame]

/-- The map has the intervals of the last entries. -/
structure Applies (env : Env D F) (topics entries : List (TopicMeta F)) (s : RecordAction D F) : Prop where
  configured : s.topics = topics
  applied : ∀ t ∈ topics, (s.topicRuntimeMap t.id).sampleInterval = sampleIntervalOf env (lastFreq entries t)

theorem Applies.updateTopicMeta {topics entries : List (TopicMeta F)} {s : RecordAction D F}
    (h : Applies env topics entries s) (hnumbered : Numbered topics) (hchecked : Checked env topics)
    (topicMeta : TopicMeta F) : Applies env topics (entries ++ [topicMeta]) (updateTopicMeta env s topicMeta) where
  configured := (updateTopicMeta_topics s topicMeta).trans h.configured
  applied := by
    intro t ht
    have happlied := h.applied t ht
    obtain rfl := h.configured
    rw [updateTopicMeta_sampleInterval hnumbered hchecked topicMeta ht, lastFreq_append_singleton]
    split_ifs
    · rfl
    · exact happlied

theorem Applies.foldl {topics entries : List (TopicMeta F)} {s : RecordAction D F}
    (h : Applies env topics entries s) (hnumbered : Numbered topics) (hchecked : Checked env topics)
    (topicMetaList : List (TopicMeta F)) :
    Applies env topics (entries ++ topicMetaList) (topicMetaList.foldl (RecordAction.updateTopicMeta env) s) := by
  induction topicMetaList generalizing s entries with
  | nil => simpa using h
  | cons topicMeta rest ih =>
    have hrest := ih (h.updateTopicMeta hnumbered hchecked topicMeta)
    simpa using hrest

theorem Applies.changes {topics entries : List (TopicMeta F)} {s s' : RecordAction D F}
    (h : Applies env topics entries s) (hchanges : Changes env s s') : Applies env topics entries s' where
  configured := hchanges.fixed.topics.trans h.configured
  applied := by
    intro t ht
    rw [hchanges.sameIntervals t.id]
    exact h.applied t ht

theorem Applies.statusRun {topics entries : List (TopicMeta F)} {y : Recorder D F}
    (h : Applies env topics entries y.action) (hnumbered : Numbered topics) (hchecked : Checked env topics)
    (ops : List (StatusOp D F)) : Applies env topics (entries ++ updates ops) (statusRun env y ops).action := by
  induction ops generalizing y entries with
  | nil => simpa [updates, Recorder.statusRun] using h
  | cons op ops ih =>
    cases op with
    | record op => exact ih (h.changes (changes_step env y op))
    | update topicMetaList actionRecordEnabled =>
      have hflag : Applies env topics entries { y.action with
          options := { y.action.options with
            recordEnabled := actionRecordEnabled.getD y.action.options.recordEnabled } } :=
        ⟨h.configured, h.applied⟩
      have hrest := ih (y := statusStep env y (.update topicMetaList actionRecordEnabled))
        (hflag.foldl hnumbered hchecked topicMetaList)
      rw [List.append_assoc] at hrest
      exact hrest

/-! ### The status in a run -/

/-- The status of a topic is right when the interval of its configured frequency applies, and this one is not too
high to have an interval. -/
def StatusRight (env : Env D F) (entries : List (TopicMeta F)) (t : TopicMeta F) : Prop :=
  sampleIntervalOf env (lastFreq entries t) = sampleIntervalOf env t.sampleFreq ∧
    (env.positive t.sampleFreq = true → 0 < env.interval t.sampleFreq)

theorem shows_iff {freq : F} (hnonNegative : env.nonNegative freq = true) (sampleInterval : UInt64) :
    Shows env freq sampleInterval ↔
      sampleInterval = sampleIntervalOf env freq ∧ (env.positive freq = true → 0 < env.interval freq) := by
  unfold Shows sampleIntervalOf
  by_cases hlt : 0 < sampleInterval
  · rw [if_pos hlt]
    by_cases hpos : env.positive freq = true
    · rw [if_pos hpos]
      constructor
      · rintro ⟨-, rfl⟩
        exact ⟨rfl, fun _ => hlt⟩
      · rintro ⟨rfl, -⟩
        exact ⟨hpos, rfl⟩
    · rw [if_neg hpos]
      refine iff_of_false (fun h => hpos h.1) ?_
      rintro ⟨rfl, -⟩
      exact absurd hlt (by decide)
  · rw [if_neg hlt]
    by_cases hpos : env.positive freq = true
    · rw [if_pos hpos]
      refine iff_of_false (fun h => ?_) ?_
      · rw [hpos] at h
        cases h.2
      · rintro ⟨rfl, hinterval⟩
        exact hlt (hinterval hpos)
    · rw [if_neg hpos]
      refine iff_of_true ⟨hnonNegative, Bool.eq_false_iff.2 hpos⟩ ⟨?_, fun h => absurd h hpos⟩
      rw [UInt64.lt_iff_toNat_lt, UInt64.toNat_zero] at hlt
      rw [← UInt64.toNat_inj, UInt64.toNat_zero]
      omega

/-- What is initialized has distinct topics, and applies what was configured. -/
theorem applies_opened {options : Options F} {s₀ : RecordAction D F} (h : initializeAction env options = .ok s₀) :
    Numbered s₀.topics ∧ Checked env s₀.topics ∧ Applies env s₀.topics [] (opened s₀).action := by
  obtain ⟨topicMetaList, topics, hcheck, hnumber, hs₀⟩ := of_initializeAction h
  have hnumbered : Numbered topics := numberTopics_numbered hnumber numbered_nil
  have hchecked : Checked env topics :=
    checked_numberTopics hnumber ⟨List.Pairwise.nil, by simp⟩ (nonNegative_of_mapM hcheck)
  have hconfigured : Applies env topics []
      (configured env { options with topicMetaList := topicMetaList } topics : RecordAction D F) := by
    refine ⟨rfl, fun t ht => ?_⟩
    obtain ⟨i, hi⟩ := List.mem_iff_getElem?.1 ht
    rw [hnumbered i t hi]
    change ((topics[i]?.map (runtimeInfoOf env)).getD {}).sampleInterval = _
    rw [hi]
    rfl
  obtain ⟨rfl, -⟩ | ⟨rfl, -⟩ := hs₀
  · exact ⟨hnumbered, hchecked, rfl, hconfigured.applied⟩
  · have htopics := (openNewFolderToRecord_frame env (configured env
      { options with topicMetaList := topicMetaList } topics : RecordAction D F)).topics
    have hopened := hconfigured.changes (changes_openNewFolderToRecord env _)
    rw [htopics]
    exact ⟨hnumbered, hchecked, htopics, hopened.applied⟩

/-- **The status of a record action.**  From every configuration on that is initialized, and in every state of every
run with updates in it: the status is right exactly when for each topic the frequency of the last entry of the updates
that names it has the interval of the configured one, and the configured one is not too high to have an interval. -/
theorem reports_iff (options : Options F) {s₀ : RecordAction D F} (h : initializeAction env options = .ok s₀)
    (ops : List (StatusOp D F)) :
    Reports env (statusRun env (opened s₀) ops).action ↔ ∀ t ∈ s₀.topics, StatusRight env (updates ops) t := by
  obtain ⟨hnumbered, hchecked, happlies⟩ := applies_opened h
  have hrun := happlies.statusRun hnumbered hchecked ops
  rw [List.nil_append] at hrun
  have hshows : ∀ t ∈ s₀.topics,
      (Shows env t.sampleFreq ((statusRun env (opened s₀) ops).action.topicRuntimeMap t.id).sampleInterval ↔
        StatusRight env (updates ops) t) := by
    intro t ht
    rw [shows_iff (hchecked.nonNegative t ht), hrun.applied t ht, StatusRight]
  constructor
  · intro hreports t ht
    refine (hshows t ht).1 (hreports.2 _ (List.mem_map.2 ⟨t, ?_, rfl⟩)).2
    rwa [hrun.configured]
  · intro hright
    refine ⟨rfl, fun t' ht' => ?_⟩
    obtain ⟨t, ht, rfl⟩ := List.mem_map.1 ht'
    rw [hrun.configured] at ht
    exact ⟨rfl, (hshows t ht).2 (hright t ht)⟩

/-- The topic is configured without sampling, and the update samples it five times a second. -/
def sampled : List (StatusOp ℕ (ℕ × ℕ)) :=
  [.update [{ id := 0, topicName := "image", msgType := "pb:Image", serializationType := "pb", recordEnabled := true,
              cacheLastMsg := true, sampleFreq := (5, 1) }] none]

/-- The interval of the update applies, and the status still tells of no sampling. -/
theorem not_reports : ∃ s₀,
    initializeAction (quietEnv (fun _ => 5000000000) fun _ _ => false) (oneTopic "pb") = .ok s₀ ∧
      ¬Reports (quietEnv (fun _ => 5000000000) fun _ _ => false)
        (statusRun (quietEnv (fun _ => 5000000000) fun _ _ => false) (opened s₀) sampled).action := by
  refine ⟨_, rfl, fun h => ?_⟩
  have hshows := (h.2 _ List.mem_cons_self).2
  exact absurd hshows (by decide)

/-- An update that leaves the frequency as it was. -/
theorem reports_flag : ∃ s₀,
    initializeAction (quietEnv (fun _ => 5000000000) fun _ _ => false) (oneTopic "pb") = .ok s₀ ∧
      Reports (quietEnv (fun _ => 5000000000) fun _ _ => false)
        (statusRun (quietEnv (fun _ => 5000000000) fun _ _ => false) (opened s₀) [.update [] (some false)]).action := by
  refine ⟨_, rfl, (reports_iff (oneTopic "pb") rfl _).2 ?_⟩
  intro t ht
  obtain rfl := List.mem_singleton.1 ht
  exact ⟨rfl, fun hpos => absurd hpos (by decide)⟩

end Recorder

end AimRT.RecordPlayback
