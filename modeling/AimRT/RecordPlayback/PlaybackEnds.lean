import AimRT.RecordPlayback.PlaybackCovers

/-!
# The end of a file

The loop of `AddPlaybackTasks` looks whether the reader is at its end, opens the next file when it is, and then takes
the first message.  It does not look again: a file that is accepted and has no message of the window is read at its
end.  And it leaves the loop at a file that is refused, whatever the files behind it hold.

Whether a call gets to a file depends on what is to be read before it: the messages in front of the reader and those of
the files before may fill the batch (`fills`).  So a call is free of both exactly when all the files that it gets to
serve it (`Served`).
-/

namespace AimRT.RecordPlayback

namespace PlaybackAction

variable {D : Type}

/-! ### What a call gets to -/

/-- The batch with so many records ends at one of the messages: at one behind the window, or when it is full. -/
def fills (isBehind : Message D → Bool) : ℕ → UInt64 → List (Message D) → Bool
  | _, _, [] => false
  | n, curStartTimestamp, m :: ms =>
    if isBehind m then true
    else if curStartTimestamp = 0 then fills isBehind (n + 1) m.logTime ms
    else if 1000000000 ≤ m.logTime - curStartTimestamp ∨ 1000 ≤ n + 1 then true
    else fills isBehind (n + 1) curStartTimestamp ms

/-- A file that can be read and has a message of a topic, in the window. -/
def Matches (s : PlaybackAction D) (file : BagFile D) : Prop := file.opens = true ∧ readMessages s file ≠ []

/-- A file that is accepted has a message; one that is refused has no file behind it that has one. -/
def Serves (s : PlaybackAction D) (file : BagFile D) (behind : List (BagFile D)) : Prop :=
  if playable s file then readMessages s file ≠ [] else ∀ other ∈ behind, ¬ Matches s other

/-- Every file serves that a batch with so many records gets to: those before it are accepted, and their messages do
not fill the batch. -/
def Served (s : PlaybackAction D) (n : ℕ) (curStartTimestamp : UInt64) : Prop :=
  ∀ before file behind, ahead s = before ++ file :: behind → (∀ other ∈ before, playable s other = true) →
    fills (isBehind s) n curStartTimestamp (front s ++ before.flatMap (readMessages s)) = false → Serves s file behind

/-- A loop that ended for want of a file has left none that matches. -/
def Skipped (s : PlaybackAction D) : Prop := s.msgReader = none → ∀ file ∈ ahead s, ¬ Matches s file

/-! ### One file -/

theorem served_of_ahead_eq_nil {s : PlaybackAction D} (h : ahead s = []) (n : ℕ) (curStartTimestamp : UInt64) :
    Served s n curStartTimestamp := by
  intro before file behind hahead
  rw [h] at hahead
  simp at hahead

/-- A file that is accepted: the call gets to it, and then to the files that it gets to from its messages. -/
theorem served_openedFile_iff {s : PlaybackAction D} (hfront : front s = []) {file : BagFile D}
    (hfile : s.files[s.curMcapFileIndex]? = some file) (hplayable : playable s file = true) (n : ℕ)
    (curStartTimestamp : UInt64) :
    Served s n curStartTimestamp ↔ readMessages s file ≠ [] ∧ Served (openedFile s file) n curStartTimestamp := by
  have hahead : ahead s = file :: ahead (openedFile s file) := ahead_cons hfile
  constructor
  · intro h
    constructor
    · have hserves := h [] file _ hahead (by simp) (by rw [hfront]; rfl)
      rwa [Serves, if_pos hplayable] at hserves
    · intro before file' behind hbefore hall hfills
      refine h (file :: before) file' behind (by rw [hahead, hbefore, List.cons_append]) ?_ ?_
      · rintro other (_ | ⟨_, hother⟩)
        · exact hplayable
        · exact hall other hother
      · rw [hfront, List.nil_append, List.flatMap_cons]
        exact hfills
  · rintro ⟨hmessages, h⟩ before file' behind hbefore hall hfills
    rw [hahead] at hbefore
    cases before with
    | nil =>
      obtain ⟨rfl, rfl⟩ := List.cons.inj hbefore
      rwa [Serves, if_pos hplayable]
    | cons other before =>
      obtain ⟨rfl, hrest⟩ := List.cons.inj hbefore
      refine h before file' behind hrest (fun o ho => hall o (List.mem_cons_of_mem _ ho)) ?_
      rw [hfront, List.nil_append, List.flatMap_cons] at hfills
      exact hfills

/-- A file that is refused: the call gets to no other one. -/
theorem served_triedFile_iff {s : PlaybackAction D} (hfront : front s = []) {file : BagFile D}
    (hfile : s.files[s.curMcapFileIndex]? = some file) (hplayable : playable s file = false) (n : ℕ)
    (curStartTimestamp : UInt64) :
    Served s n curStartTimestamp ↔ ∀ other ∈ ahead (triedFile s), ¬ Matches s other := by
  have hahead : ahead s = file :: ahead (triedFile s) := ahead_cons hfile
  constructor
  · intro h
    have hserves := h [] file _ hahead (by simp) (by rw [hfront]; rfl)
    rwa [Serves, if_neg (by simp [hplayable])] at hserves
  · intro h before file' behind hbefore hall _
    rw [hahead] at hbefore
    cases before with
    | nil =>
      obtain ⟨rfl, rfl⟩ := List.cons.inj hbefore
      rwa [Serves, if_neg (by simp [hplayable])]
    | cons other before =>
      obtain ⟨rfl, -⟩ := List.cons.inj hbefore
      rw [hall file List.mem_cons_self] at hplayable
      cases hplayable

/-! ### One message -/

/-- A batch that ends at the next message gets to no file. -/
theorem served_of_fills {s : PlaybackAction D} {m : Message D} {rest : List (Message D)}
    (hreader : s.msgReader = some (m :: rest)) {n : ℕ} {curStartTimestamp : UInt64}
    (h : ∀ ms, fills (isBehind s) n curStartTimestamp (m :: ms) = true) : Served s n curStartTimestamp := by
  intro before file behind _ _ hfills
  have hfront : front s = m :: rest := by rw [front, hreader]; rfl
  rw [hfront, List.cons_append, h] at hfills
  cases hfills

/-- A batch that goes on behind the next message gets to the same files from there. -/
theorem served_advance_iff {s : PlaybackAction D} {m : Message D} {rest : List (Message D)}
    (hreader : s.msgReader = some (m :: rest)) {n n' : ℕ} {curStartTimestamp curStartTimestamp' : UInt64}
    (h : ∀ ms, fills (isBehind s) n curStartTimestamp (m :: ms) = fills (isBehind s) n' curStartTimestamp' ms) :
    Served s n curStartTimestamp ↔ Served (advance rest s) n' curStartTimestamp' := by
  have hfront : front s = m :: rest := by rw [front, hreader]; rfl
  unfold Served
  rw [hfront]
  simp only [List.cons_append, h]
  rfl

/-! ### A call -/

theorem undefined_seek (s : PlaybackAction D) : (seek s).2.undefined = s.undefined := by
  have hsought := sought_seek s
  generalize seek s = r at hsought ⊢
  cases hsought <;> rfl

/-- The search ends the loop. -/
theorem skipped_seek_iff {s : PlaybackAction D} (h : (seek s).1 = false) (n : ℕ) (curStartTimestamp : UInt64) :
    Skipped (seek s).2 ↔ Served s n curStartTimestamp := by
  have hsought := sought_seek s
  generalize seek s = r at h hsought ⊢
  cases hsought with
  | inFront => cases h
  | accepted => cases h
  | noFile hfront hahead =>
    refine iff_of_true (fun _ file hfile => ?_) (served_of_ahead_eq_nil hahead n curStartTimestamp)
    change file ∈ ahead s at hfile
    rw [hahead] at hfile
    cases hfile
  | refused hfront hfile hplayable =>
    rw [served_triedFile_iff hfront hfile hplayable]
    exact ⟨fun hskipped => hskipped rfl, fun hothers _ => hothers⟩

/-- The search has found a message: a file that it opened for that serves. -/
theorem served_seek_iff {s : PlaybackAction D} {m : Message D} {rest : List (Message D)}
    (h : (seek s).2.msgReader = some (m :: rest)) (n : ℕ) (curStartTimestamp : UInt64) :
    Served (seek s).2 n curStartTimestamp ↔ Served s n curStartTimestamp := by
  have hsought := sought_seek s
  generalize seek s = r at h hsought ⊢
  cases hsought with
  | inFront => rfl
  | noFile => cases h
  | refused => cases h
  | @accepted file hfront hfile hplayable =>
    have hmessages : readMessages s file = m :: rest := Option.some.inj h
    rw [served_openedFile_iff hfront hfile hplayable]
    exact (and_iff_right (by simp [hmessages])).symm

/-- The search has opened a file and found none. -/
theorem not_served_of_seek {s : PlaybackAction D} (h : (seek s).1 = true)
    (hreader : ∀ m rest, (seek s).2.msgReader ≠ some (m :: rest)) (n : ℕ) (curStartTimestamp : UInt64) :
    ¬ Served s n curStartTimestamp := by
  have hsought := sought_seek s
  generalize seek s = r at h hreader hsought
  cases hsought with
  | noFile => cases h
  | refused => cases h
  | inFront hsome => exact absurd hsome (hreader _ _)
  | @accepted file hfront hfile hplayable =>
    rw [served_openedFile_iff hfront hfile hplayable]
    rintro ⟨hmessages, -⟩
    obtain ⟨m, rest, hcons⟩ := List.exists_cons_of_ne_nil hmessages
    exact hreader m rest (congrArg some hcons)

/-- **A loop** takes no message at the end of a file and passes by no file that matches, exactly when the files that it
gets to serve it. -/
theorem readRecords_ends_iff {s : PlaybackAction D} (h : s.undefined = false) (records : List (PlaybackRecord D))
    (curStartTimestamp : UInt64) :
    (readRecords s records curStartTimestamp).2.undefined = false ∧
        Skipped (readRecords s records curStartTimestamp).2 ↔
      Served s records.length curStartTimestamp := by
  -- the induction follows the loop; where it ends behind a message, nothing is left to ask
  fun_induction readRecords s records curStartTimestamp
  case case1 s records curStartTimestamp hfalse =>
    rw [and_iff_right ((undefined_seek s).trans h)]
    exact skipped_seek_iff hfalse _ _
  case case2 s records curStartTimestamp m rest hreader _ hbehind =>
    rw [← served_seek_iff hreader]
    refine iff_of_true ⟨(undefined_seek s).trans h, fun hnone => by cases hnone⟩ (served_of_fills hreader fun ms => ?_)
    rw [fills, if_pos hbehind]
  case case3 s records m rest hreader _ hbehind ih =>
    rw [ih ((undefined_seek s).trans h), ← served_seek_iff hreader, List.length_append, List.length_singleton]
    refine (served_advance_iff hreader fun ms => ?_).symm
    rw [fills, if_neg hbehind, if_pos rfl]
  case case4 s records curStartTimestamp m rest hreader _ hbehind hzero hfull =>
    rw [← served_seek_iff hreader]
    refine iff_of_true ⟨(undefined_seek s).trans h, fun hnone => by cases hnone⟩ (served_of_fills hreader fun ms => ?_)
    rw [fills, if_neg hbehind, if_neg hzero, if_pos hfull]
  case case5 s records curStartTimestamp m rest hreader _ hbehind hzero hfull ih =>
    rw [ih ((undefined_seek s).trans h), ← served_seek_iff hreader, List.length_append, List.length_singleton]
    refine (served_advance_iff hreader fun ms => ?_).symm
    rw [fills, if_neg hbehind, if_neg hzero, if_neg hfull]
  case case6 s records curStartTimestamp htrue hreader =>
    refine iff_of_false (fun hends => ?_) (not_served_of_seek htrue hreader _ _)
    cases hends.1

theorem undefined_addPlaybackTasks (s : PlaybackAction D) :
    (addPlaybackTasks s).2.undefined = (readRecords s [] 0).2.undefined := by
  unfold addPlaybackTasks
  split <;> rfl

theorem skipped_addPlaybackTasks_iff (s : PlaybackAction D) :
    Skipped (addPlaybackTasks s).2 ↔ Skipped (readRecords s [] 0).2 := by
  unfold addPlaybackTasks
  split <;> rfl

theorem addPlaybackTasks_ends_iff {s : PlaybackAction D} (h : s.undefined = false) :
    (addPlaybackTasks s).2.undefined = false ∧ Skipped (addPlaybackTasks s).2 ↔ Served s 0 0 := by
  rw [undefined_addPlaybackTasks, skipped_addPlaybackTasks_iff]
  exact readRecords_ends_iff h [] 0

end PlaybackAction

open PlaybackAction Lib.Run

namespace Player

variable {D : Type}

/-! ### Runs -/

/-- A step in which a call reads its batch. -/
def Reading (y : Player D) (op : Op) : Prop := op = .read ∧ 0 < y.reading

theorem undefined_release (y : Player D) : (release y).action.undefined = y.action.undefined := by
  unfold release
  split <;> rfl

theorem undefined_startAction (now : UInt64) (y : Player D) :
    (startAction now y).action.undefined = y.action.undefined := by
  unfold startAction
  split_ifs <;> rfl

/-- Only a call that reads takes messages. -/
theorem undefined_step_of_not_reading {y : Player D} {op : Op} (h : ¬ Reading y op) :
    (step y op).action.undefined = y.action.undefined := by
  cases op with
  | start now =>
    simp only [step]
    split_ifs
    · exact undefined_startAction now y
    · rfl
  | signal | stop =>
    simp only [step]
    split_ifs <;> rfl
  | enter =>
    simp only [step]
    split
    · rfl
    · split_ifs
      · rw [undefined_release]
      · rfl
  | read =>
    have hzero : y.reading = 0 := Nat.eq_zero_of_not_pos fun hpos => h ⟨rfl, hpos⟩
    simp only [step, hzero]
  | fire i =>
    simp only [step]
    split <;> rfl

theorem undefined_step_of_reading {y : Player D} {op : Op} (h : Reading y op) :
    (step y op).action.undefined = (addPlaybackTasks y.action).2.undefined := by
  obtain ⟨rfl, hpos⟩ := h
  obtain ⟨n, hn⟩ := Nat.exists_eq_succ_of_ne_zero hpos.ne'
  simp only [step, hn, Nat.succ_eq_add_one]
  rw [undefined_release]
  rfl

theorem step_ends_iff {y : Player D} (h : y.action.undefined = false) (op : Op) :
    (step y op).action.undefined = false ∧ (Reading y op → Skipped (addPlaybackTasks y.action).2) ↔
      (Reading y op → Served y.action 0 0) := by
  by_cases hreading : Reading y op
  · rw [undefined_step_of_reading hreading, forall_prop_of_true hreading, forall_prop_of_true hreading]
    exact addPlaybackTasks_ends_iff h
  · rw [undefined_step_of_not_reading hreading]
    exact iff_of_true ⟨h, fun hr => absurd hr hreading⟩ fun hr => absurd hr hreading

/-- **The end of a file** is never read as a message, and no call ends at a file while one behind it matches, exactly
when in every call all the files that it gets to serve it. -/
theorem no_end_is_read_iff {typeSupport : String → Option ((String → Bool) × String)} {options : PlaybackOptions}
    {bag : Bag D} {s : PlaybackAction D} (h : initializePlayback typeSupport options bag = .ok s) (ops : List Op) :
    AllHold step (fun y => y.action.undefined = false) (loaded s) ops ∧
        AllMeet step (fun y op => Reading y op → Skipped (addPlaybackTasks y.action).2) (loaded s) ops ↔
      AllMeet step (fun y op => Reading y op → Served y.action 0 0) (loaded s) ops := by
  refine allHold_and_allMeet_iff step_ends_iff ?_ ops
  rw [of_initializePlayback h]
  rfl

/-- A call gets to the one file of the bag, and there is its message. -/
theorem no_end_is_read_image : AllHold step (fun y => y.action.undefined = false) (loaded imageAction)
    [.start 0, .signal 0 0 100, .enter, .read] := by
  refine ((no_end_is_read_iff initializePlayback_imageBag [.start 0, .signal 0 0 100, .enter, .read]).2
    ⟨?_, ?_, ?_, ?_, trivial⟩).1
  · rintro ⟨⟨⟩, -⟩
  · rintro ⟨⟨⟩, -⟩
  · rintro ⟨⟨⟩, -⟩
  · intro _
    refine (served_openedFile_iff rfl rfl (by decide +kernel) 0 0).2 ⟨?_, served_of_ahead_eq_nil rfl 0 0⟩
    exact List.ne_nil_of_length_pos (by decide +kernel)

/-- A bag whose one file has a channel and no message. -/
def blankBag : Bag ℕ := { imageBag with files := imageBag.files.map fun file => { file with messages := [] } }

/-- The first call reads its first message at the end of that file. -/
theorem blank_file_is_read : ¬ ∀ (typeSupport : String → Option ((String → Bool) × String)) (options : PlaybackOptions)
    (bag : Bag ℕ) (s : PlaybackAction ℕ), initializePlayback typeSupport options bag = .ok s → ∀ ops : List Op,
      AllHold step (fun y => y.action.undefined = false) (loaded s) ops ∧
        AllMeet step (fun y op => Reading y op → Skipped (addPlaybackTasks y.action).2) (loaded s) ops := by
  intro h
  obtain ⟨hdefined, -⟩ := h (fun _ => some (fun _ => true, "pb")) {} blankBag _ rfl [.start 0, .enter, .read]
  have hundefined : ([.start 0, .enter, .read].foldl step
      (loaded (configuredPlayback {} blankBag.topics blankBag.files))).action.undefined = true := by
    decide +kernel
  exact Bool.false_ne_true (hdefined.last.symm.trans hundefined)

end Player

end AimRT.RecordPlayback
