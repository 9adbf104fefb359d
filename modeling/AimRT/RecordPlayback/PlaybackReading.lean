import AimRT.RecordPlayback.PlaybackAction

/-!
# What is left to read

The records that a run still reads are those of the messages in front of the reader, and those of the files ahead up to
the first one that is refused (`left`).  A batch takes some of them from the front, and it is empty only when nothing
is left.

That is so as long as every file ahead that is accepted has a message of the window, since the first message of a file
is read without a look at the end, and as long as no file behind the first one refused is accepted (`Reads`): whether
such a file is read depends on which of the two chains gets to it.
-/

namespace AimRT.RecordPlayback.PlaybackAction

variable {D : Type}

/-- The files ahead up to the first one that is refused. -/
def played (s : PlaybackAction D) : List (BagFile D) := (ahead s).takeWhile (playable s)

/-- The record of a message of a file. -/
def recordIn (s : PlaybackAction D) (file : BagFile D) (m : Message D) : PlaybackRecord D where
  topicIndex := (topicOfChannel s file m.channelId).getD 0
  dt := m.logTime - s.startPlaybackTimestamp
  buffer := m.data

/-- The records of a file. -/
def recordsIn (s : PlaybackAction D) (file : BagFile D) : List (PlaybackRecord D) :=
  (readMessages s file).map (recordIn s file)

/-- The records that are left. -/
def left (s : PlaybackAction D) : List (PlaybackRecord D) :=
  (s.msgReader.getD []).map (recordOf s) ++ (played s).flatMap (recordsIn s)

/-- Reading is safe. -/
structure Reads (s : PlaybackAction D) : Prop where
  defined : s.undefined = false
  reader : ∀ m ∈ s.msgReader.getD [], isBehind s m = false
  full : ∀ file ∈ played s, readMessages s file ≠ []
  refused : ∀ file ∈ (ahead s).dropWhile (playable s), playable s file = false

/-! ### Channels -/

theorem foldl_mapChannel (s : PlaybackAction D) {channels : List (UInt16 × String)} (map : UInt16 → ℕ)
    (hnodup : (channels.map Prod.fst).Nodup) (channelId : UInt16) :
    channels.foldl (mapChannel s) map channelId =
      ((channels.lookup channelId).bind s.topicNameToTopicIdMap).getD (map channelId) := by
  induction channels generalizing map with
  | nil => rfl
  | cons channel channels ih =>
    rw [List.map_cons, List.nodup_cons] at hnodup
    rw [List.foldl_cons, ih _ hnodup.2, List.lookup_cons]
    by_cases hid : channelId = channel.1
    · subst hid
      have hnone : channels.lookup channel.1 = none := by
        rw [List.lookup_eq_none_iff]
        intro other hother
        rw [bne_iff_ne]
        intro heq
        exact hnodup.1 (List.mem_map.2 ⟨other, hother, heq.symm⟩)
      rw [hnone, beq_self_eq_true, mapChannel]
      cases htopic : s.topicNameToTopicIdMap channel.2 <;> simp [htopic]
    · rw [beq_eq_false_iff_ne.2 hid, mapChannel]
      cases htopic : s.topicNameToTopicIdMap channel.2 with
      | none => rfl
      | some topicId => simp [Function.update_of_ne hid]

/-- A file that is opened gives the messages their topics. -/
theorem mapChannels_eq {s : PlaybackAction D} {file : BagFile D} {channelId : UInt16} {topicId : ℕ}
    (h : topicOfChannel s file channelId = some topicId) : mapChannels s file channelId = topicId := by
  unfold topicOfChannel at h
  rw [mapChannels, foldl_mapChannel s _ file.nodup, h, Option.getD_some]

theorem mem_readMessages {s : PlaybackAction D} {file : BagFile D} {m : Message D} :
    m ∈ readMessages s file ↔ m ∈ file.messages ∧ s.startPlaybackTimestamp ≤ m.logTime ∧ m.logTime < endTime s ∧
      (topicOfChannel s file m.channelId).isSome = true := by
  simp only [readMessages, List.mem_filter, Bool.and_eq_true, decide_eq_true_eq, and_assoc]

/-- A message that the reader yields is not behind the end. -/
theorem isBehind_of_mem {s : PlaybackAction D} {file : BagFile D} {m : Message D} (h : m ∈ readMessages s file) :
    isBehind s m = false := by
  have hend := (mem_readMessages.1 h).2.2.1
  unfold endTime at hend
  rw [isBehind, Bool.and_eq_false_iff, decide_eq_false_iff_not, decide_eq_false_iff_not]
  split_ifs at hend with hpos
  · exact .inr fun hlt => UInt64.lt_irrefl _ (UInt64.lt_trans hlt hend)
  · exact .inl hpos

/-! ### The next message -/

/-- Where nothing ahead is accepted, nothing is left. -/
theorem takeWhile_eq_nil_of_forall {A : Type} {accepts : A → Bool} {l : List A} (h : ∀ a ∈ l, accepts a = false) :
    l.takeWhile accepts = [] := by
  cases l with
  | nil => rfl
  | cons a l => rw [List.takeWhile_cons_of_neg (by simp [h a List.mem_cons_self])]

/-- Nothing is open, and nothing was tried: what is left are the files ahead. -/
theorem left_of_closed {s : PlaybackAction D} (h : s.msgReader.getD [] = []) :
    left s = (played s).flatMap (recordsIn s) := by
  rw [left, h, List.map_nil, List.nil_append]

theorem reads_closePlayback {s : PlaybackAction D} (h : Reads s) : Reads (closePlayback s) := by
  refine ⟨h.defined, ?_, h.full, h.refused⟩
  intro m hm
  cases hm

/-- A file that is accepted. -/
theorem openedFile_spec {s : PlaybackAction D} (h : Reads s) (hempty : s.msgReader.getD [] = []) {file : BagFile D}
    (hfile : s.files[s.curMcapFileIndex]? = some file) (hplayable : playable s file = true) :
    Reads (openedFile s file) ∧ left (openedFile s file) = left s ∧
      ∃ m rest, (openedFile s file).msgReader = some (m :: rest) := by
  have hahead := ahead_cons hfile
  have hplayed : played s = file :: played (openedFile s file) := by
    rw [played, hahead, List.takeWhile_cons_of_pos hplayable]
    rfl
  have hfull := h.full file (by rw [hplayed]; exact List.mem_cons_self)
  obtain ⟨m, rest, hread⟩ := List.exists_cons_of_ne_nil hfull
  have hrecords : (readMessages s file).map (recordOf (openedFile s file)) = recordsIn s file := by
    refine List.map_congr_left fun m' hm' => ?_
    obtain ⟨topicId, htopic⟩ := Option.isSome_iff_exists.1 (mem_readMessages.1 hm').2.2.2
    have hmap : (openedFile s file).channelIdToTopicIdMap m'.channelId = topicId := mapChannels_eq htopic
    rw [recordIn, recordOf, hmap, htopic, Option.getD_some]
    rfl
  refine ⟨⟨h.defined, ?_, ?_, ?_⟩, ?_, m, rest, congrArg some hread⟩
  · intro m' hm'
    exact isBehind_of_mem hm'
  · intro file' hfile'
    exact h.full file' (by rw [hplayed]; exact List.mem_cons_of_mem _ hfile')
  · intro file' hfile'
    refine h.refused file' ?_
    rw [hahead, List.dropWhile_cons_of_pos hplayable]
    exact hfile'
  · rw [left_of_closed hempty, hplayed, List.flatMap_cons, ← hrecords]
    rfl

/-- A file that is refused: nothing is left. -/
theorem triedFile_spec {s : PlaybackAction D} (h : Reads s) (hempty : s.msgReader.getD [] = []) {file : BagFile D}
    (hfile : s.files[s.curMcapFileIndex]? = some file) (hplayable : playable s file = false) :
    Reads (triedFile s) ∧ left (triedFile s) = [] ∧ left s = [] := by
  have hahead := ahead_cons hfile
  have hrefused : ∀ file' ∈ ahead s, playable s file' = false := by
    intro file' hfile'
    refine h.refused file' ?_
    rwa [hahead, List.dropWhile_cons_of_neg (by simp [hplayable]), ← hahead]
  have htail : ∀ file' ∈ ahead (triedFile s), playable s file' = false :=
    fun file' hfile' => hrefused file' (by rw [hahead]; exact List.mem_cons_of_mem _ hfile')
  have hplayed : played (triedFile s) = [] := takeWhile_eq_nil_of_forall htail
  refine ⟨⟨h.defined, ?_, ?_, ?_⟩, ?_, ?_⟩
  · intro m hm
    cases hm
  · intro file' hfile'
    rw [hplayed] at hfile'
    cases hfile'
  · intro file' hfile'
    exact htail file' ((List.dropWhile_suffix _).subset hfile')
  · rw [left_of_closed rfl, hplayed, List.flatMap_nil]
  · rw [left_of_closed hempty, played, takeWhile_eq_nil_of_forall hrefused, List.flatMap_nil]

/-- **The next message**: there is one in front of the reader, or nothing is left. -/
theorem seek_spec {s : PlaybackAction D} (h : Reads s) :
    Reads (seek s).2 ∧ left (seek s).2 = left s ∧
      ((seek s).1 = true ∧ (∃ m rest, (seek s).2.msgReader = some (m :: rest)) ∨ (seek s).1 = false ∧ left s = []) := by
  have hsought := sought_seek s
  generalize seek s = result at hsought ⊢
  cases hsought with
  | inFront hreader => exact ⟨h, rfl, .inl ⟨rfl, _, _, hreader⟩⟩
  | noFile hfront hahead =>
    have hplayed : played s = [] := by rw [played, hahead, List.takeWhile_nil]
    have hleft : left s = [] := by rw [left_of_closed hfront, hplayed, List.flatMap_nil]
    have hclosed : left (closePlayback s) = [] := by
      rw [left_of_closed rfl]
      change (played s).flatMap _ = []
      rw [hplayed, List.flatMap_nil]
    exact ⟨reads_closePlayback h, hclosed.trans hleft.symm, .inr ⟨rfl, hleft⟩⟩
  | accepted hfront hfile hplayable =>
    obtain ⟨hreads, hleft, hmsg⟩ := openedFile_spec h hfront hfile hplayable
    exact ⟨hreads, hleft, .inl ⟨rfl, hmsg⟩⟩
  | refused hfront hfile hplayable =>
    obtain ⟨hreads, hnil, hleft⟩ := triedFile_spec h hfront hfile hplayable
    exact ⟨hreads, hnil.trans hleft.symm, .inr ⟨rfl, hleft⟩⟩

/-! ### A batch -/

/-- What reading leaves alone. -/
structure SameRun (s s' : PlaybackAction D) : Prop where
  options : s'.options = s.options
  state : s'.state = s.state
  files : s'.files = s.files
  topicIds : s'.topicNameToTopicIdMap = s.topicNameToTopicIdMap
  startTimestamp : s'.startTimestamp = s.startTimestamp
  startPlaybackTimestamp : s'.startPlaybackTimestamp = s.startPlaybackTimestamp
  stopPlaybackTimestamp : s'.stopPlaybackTimestamp = s.stopPlaybackTimestamp
  playbackState : s'.playbackState = s.playbackState

theorem SameRun.refl (s : PlaybackAction D) : SameRun s s := ⟨rfl, rfl, rfl, rfl, rfl, rfl, rfl, rfl⟩

theorem SameRun.trans {s t u : PlaybackAction D} (h : SameRun s t) (h' : SameRun t u) : SameRun s u where
  options := h'.options.trans h.options
  state := h'.state.trans h.state
  files := h'.files.trans h.files
  topicIds := h'.topicIds.trans h.topicIds
  startTimestamp := h'.startTimestamp.trans h.startTimestamp
  startPlaybackTimestamp := h'.startPlaybackTimestamp.trans h.startPlaybackTimestamp
  stopPlaybackTimestamp := h'.stopPlaybackTimestamp.trans h.stopPlaybackTimestamp
  playbackState := h'.playbackState.trans h.playbackState

theorem sameRun_seek (s : PlaybackAction D) : SameRun s (seek s).2 := by
  have hsought := sought_seek s
  generalize seek s = result at hsought ⊢
  cases hsought <;> exact ⟨rfl, rfl, rfl, rfl, rfl, rfl, rfl, rfl⟩

/-- One message is read: it is the first one of those left. -/
theorem read_spec {s : PlaybackAction D} (h : Reads s) {m : Message D} {rest : List (Message D)}
    (hreader : (seek s).2.msgReader = some (m :: rest)) :
    Reads (advance rest (seek s).2) ∧ SameRun s (advance rest (seek s).2) ∧
      left s = recordOf (seek s).2 m :: left (advance rest (seek s).2) := by
  obtain ⟨hreads, hleft, -⟩ := seek_spec h
  have hmem : ∀ m' ∈ rest, m' ∈ (seek s).2.msgReader.getD [] := by
    intro m' hm'
    rw [hreader]
    exact List.mem_cons_of_mem _ hm'
  refine ⟨⟨hreads.defined, fun m' hm' => hreads.reader m' (hmem m' hm'), hreads.full, hreads.refused⟩,
    (sameRun_seek s).trans ⟨rfl, rfl, rfl, rfl, rfl, rfl, rfl, rfl⟩, ?_⟩
  rw [← hleft, left, hreader]
  rfl

/-- What a batch takes from the front of the records that are left. -/
def TakesFrom (s : PlaybackAction D) (records : List (PlaybackRecord D))
    (result : List (PlaybackRecord D) × PlaybackAction D) : Prop :=
  ∃ taken, result.1 = records ++ taken ∧ left s = taken ++ left result.2 ∧ (taken = [] → left s = [])

theorem TakesFrom.cons {s s' : PlaybackAction D} {records : List (PlaybackRecord D)} {record : PlaybackRecord D}
    {result : List (PlaybackRecord D) × PlaybackAction D} (hleft : left s = record :: left s')
    (h : TakesFrom s' (records ++ [record]) result) : TakesFrom s records result := by
  obtain ⟨taken, hrecords, hrest, -⟩ := h
  refine ⟨record :: taken, ?_, ?_, fun hnil => by cases hnil⟩
  · rw [hrecords, List.append_assoc, List.singleton_append]
  · rw [hleft, hrest, List.cons_append]

/-- **A batch** takes records from the front of those that are left, and none only when nothing is left. -/
theorem readRecords_spec {s : PlaybackAction D} (h : Reads s) (records : List (PlaybackRecord D))
    (curStartTimestamp : UInt64) :
    Reads (readRecords s records curStartTimestamp).2 ∧ SameRun s (readRecords s records curStartTimestamp).2 ∧
      TakesFrom s records (readRecords s records curStartTimestamp) := by
  -- the induction follows the loop; behind the end of the window there is no message to read
  fun_induction readRecords s records curStartTimestamp
  case case1 s records _ hnone =>
    obtain ⟨hreads, hleft, ⟨htrue, -⟩ | ⟨-, hnil⟩⟩ := seek_spec h
    · rw [hnone] at htrue
      cases htrue
    · exact ⟨hreads, sameRun_seek s, [], by simp, by simp [hleft], fun _ => hnil⟩
  case case2 s records _ m rest hreader _ hbehind =>
    obtain ⟨hreads, -, -⟩ := seek_spec h
    have hnot := hreads.reader m (by rw [hreader]; exact List.mem_cons_self)
    rw [hnot] at hbehind
    cases hbehind
  case case3 s records m rest hreader _ _ ih =>
    obtain ⟨hreads, hsame, hcons⟩ := read_spec h hreader
    obtain ⟨hrest, hsame', htakes⟩ := ih hreads
    exact ⟨hrest, hsame.trans hsame', htakes.cons hcons⟩
  case case4 s records _ m rest hreader _ _ _ _ =>
    obtain ⟨hreads, hsame, hcons⟩ := read_spec h hreader
    exact ⟨hreads, hsame, [recordOf (seek s).2 m], rfl, hcons, fun hnil => by cases hnil⟩
  case case5 s records _ m rest hreader _ _ _ _ ih =>
    obtain ⟨hreads, hsame, hcons⟩ := read_spec h hreader
    obtain ⟨hrest, hsame', htakes⟩ := ih hreads
    exact ⟨hrest, hsame.trans hsame', htakes.cons hcons⟩
  case case6 s records _ htrue hreader =>
    obtain ⟨-, -, ⟨-, m, rest, hsome⟩ | ⟨hfalse, -⟩⟩ := seek_spec h
    · exact absurd hsome (hreader m rest)
    · rw [hfalse] at htrue
      cases htrue

theorem work_advance {s : PlaybackAction D} {m : Message D} {rest : List (Message D)}
    (hreader : (seek s).2.msgReader = some (m :: rest)) : work (advance rest (seek s).2) + 1 ≤ work s := by
  have hle := work_seek_le s
  simp only [work, advance, hreader, Option.getD_some, List.length_cons] at hle ⊢
  omega

/-- A record that is read is one message less to read. -/
theorem work_readRecords (s : PlaybackAction D) (records : List (PlaybackRecord D)) (curStartTimestamp : UInt64) :
    (readRecords s records curStartTimestamp).1.length + work (readRecords s records curStartTimestamp).2 ≤
      records.length + work s := by
  fun_induction readRecords s records curStartTimestamp
  case case1 s records _ _ => exact Nat.add_le_add_left (work_seek_le s) _
  case case2 s records _ m rest hreader _ _ =>
    have hwork := work_advance hreader
    change records.length + work (advance rest (seek s).2) ≤ _
    omega
  case case3 s records m rest hreader _ _ ih =>
    have hwork := work_advance hreader
    rw [List.length_append, List.length_singleton] at ih
    omega
  case case4 s records _ m rest hreader _ _ _ _ =>
    have hwork := work_advance hreader
    change (records ++ [recordOf (seek s).2 m]).length + work (advance rest (seek s).2) ≤ _
    rw [List.length_append, List.length_singleton]
    omega
  case case5 s records _ m rest hreader _ _ _ _ ih =>
    have hwork := work_advance hreader
    rw [List.length_append, List.length_singleton] at ih
    omega
  case case6 s records _ _ _ => exact Nat.add_le_add_left (work_seek_le s) _

end AimRT.RecordPlayback.PlaybackAction
