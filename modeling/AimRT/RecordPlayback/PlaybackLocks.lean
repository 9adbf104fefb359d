import AimRT.Lib.Mutex
import AimRT.RecordPlayback.PlaybackAction

/-!
# The mutexes of a playback

`PlaybackAction` has a mutex for its playback state and one for its reader.  `Start` and `StartSignalPlayback` unlock
the first inside the scope of its guard when they start a playback, and `AddPlaybackTasks` unlocks the second inside
the scope of its guard once it has read its records.  The ends of these scopes unlock the mutexes once more, when
another thread may have locked them: the calls keep the discipline of mutexes as long as none of them comes to such an
end.

What is read from the bag, and who has the last pointer to the counter of tasks, is left to the answers of outside
code.  The executor runs the last task of a reading as a call of its own.
-/

namespace AimRT.RecordPlayback

open Lib.Run Lib.Mutex

namespace PlaybackLocks

/-- `playback_state_mutex_` and `db_mutex_`. -/
inductive PlaybackMutex where
  | playbackState
  | db
  deriving DecidableEq, Repr

/-- What the calls read to decide where to go. -/
structure Shared where
  mode : Mode
  state : State
  playbackState : PlayBackState
  deriving DecidableEq, Repr

abbrev Code := Prog PlaybackMutex Shared

/-- A scope with a guard for the playback state, without a look outside. -/
def underState (f : Shared → Shared) (k : Code) : Code :=
  .lock .playbackState <| .act (fun _ => f) fun _ _ => .leave .playbackState false k

/-- `playback_state_ = kGetStopSignal`. -/
def getStopSignal (s : Shared) : Shared := { s with playbackState := .getStopSignal }

/-- A run that plays is told to stop. -/
def stopIfPlaying (s : Shared) : Shared := if s.playbackState = .playing then getStopSignal s else s

/-- A pointer to the counter of tasks goes; with the last one (the answer `0`) the action is ready for the next run. -/
def dropCounter (k : Code) : Code :=
  .act (fun _ s => s) fun last _ =>
    if last = 0 then underState (fun s => { s with playbackState := .readyToPlay }) k else k

/-- `AddPlaybackTasks`.  Outside code answers whether the stop timestamp was passed (`0`), and whether there are no
records (`0`). -/
def addPlaybackTasks (k : Code) : Code :=
  .lock .playbackState <| .act (fun _ s => s) fun _ s =>
    if s.playbackState = .getStopSignal then .leave .playbackState false k
    else .leave .playbackState false <| .lock .db <| .act (fun _ s => s) fun stopped _ =>
      let afterReading : Code := .unlock .db <| .act (fun _ s => s) fun records _ =>
        if records = 0 then underState getStopSignal <| .leave .db true k
        else .leave .db true k
      if stopped = 0 then underState getStopSignal afterReading else afterReading

/-- `StartPlaybackImpl`. -/
def startPlaybackImpl (k : Code) : Code := addPlaybackTasks <| addPlaybackTasks <| dropCounter k

/-- What `Start` and `StartSignalPlayback` do when it is their mode. -/
def startPlayback : Code :=
  .lock .playbackState <| .act (fun _ s => s) fun _ s =>
    if s.playbackState = .readyToPlay then
      .act (fun _ s => { s with playbackState := .playing }) fun _ _ =>
        .unlock .playbackState <| startPlaybackImpl <| .leave .playbackState true .done
    else .leave .playbackState false .done

inductive Call where
  | start
  | startSignalPlayback
  | stopSignalPlayback
  | shutdown
  /-- The last task of an execution of `AddPlaybackTasks`, which holds a pointer to the counter. -/
  | lastTask
  /-- A last task that the executor lets go without running it. -/
  | discardedTask
  deriving DecidableEq, Repr

def Call.code : Call → Code
  | .start => .act (fun _ s => { s with state := .start }) fun _ s =>
    if s.state ≠ .init then .done else if s.mode = .imd then startPlayback else .done
  | .startSignalPlayback => .act (fun _ s => s) fun _ s =>
    if s.state ≠ .start then .done else if s.mode ≠ .signal then .done else startPlayback
  | .stopSignalPlayback => .act (fun _ s => s) fun _ s =>
    if s.state ≠ .start then .done else if s.mode ≠ .signal then .done else underState stopIfPlaying .done
  | .shutdown => .act (fun _ s => { s with state := .shutdown }) fun _ s =>
    if s.state = .shutdown then .done else underState stopIfPlaying .done
  | .lastTask => addPlaybackTasks <| dropCounter .done
  | .discardedTask => dropCounter .done

/-- The action as `Initialize` leaves it. -/
def initial (mode : Mode) : Shared := { mode := mode, state := .init, playbackState := .readyToPlay }

/-! ### The calls are balanced -/

theorem balanced_underState (f : Shared → Shared) {held : List PlaybackMutex} (hheld : .playbackState ∉ held) {k : Code}
    (hk : Balanced held k) : Balanced held (underState f k) := by
  refine ⟨hheld, fun _ _ => ⟨List.mem_cons_self, ?_⟩⟩
  have hfilter : (.playbackState :: held).filter (· ≠ .playbackState) = held := by
    rw [List.filter_cons_of_neg (by simp), List.filter_eq_self]
    intro m hm
    exact decide_eq_true fun heq => hheld (heq ▸ hm)
  rwa [hfilter]

theorem balanced_dropCounter {k : Code} (hk : Balanced [] k) : Balanced [] (dropCounter k) := by
  intro last s
  dsimp only
  split_ifs
  · exact balanced_underState _ List.not_mem_nil hk
  · exact hk

/-- Behind the reading, the scope of the guard for the reader ends spent. -/
theorem balanced_addPlaybackTasks {k : Code} (hk : Balanced [] k) : Balanced [] (addPlaybackTasks k) := by
  have hspent : Balanced [] (.leave .db true k) := ⟨List.not_mem_nil, hk⟩
  refine ⟨List.not_mem_nil, fun _ s => ?_⟩
  dsimp only
  split_ifs with hstop
  · exact ⟨List.mem_cons_self, hk⟩
  · refine ⟨List.mem_cons_self, List.not_mem_nil, fun stopped _ => ?_⟩
    have hafter : Balanced [.db] (.unlock .db <| .act (fun _ s => s) fun records _ =>
        if records = 0 then underState getStopSignal <| .leave .db true k else .leave .db true k) := by
      refine ⟨List.mem_cons_self, fun records _ => ?_⟩
      dsimp only
      split_ifs
      · exact balanced_underState _ List.not_mem_nil hspent
      · exact hspent
    dsimp only
    split_ifs
    · exact balanced_underState _ (by simp) hafter
    · exact hafter

theorem balanced_startPlayback : Balanced [] startPlayback := by
  refine ⟨List.not_mem_nil, fun _ s => ?_⟩
  dsimp only
  split_ifs
  · have hend : Balanced [] (.leave .playbackState true .done : Code) := ⟨List.not_mem_nil, trivial⟩
    refine fun _ _ => ⟨List.mem_cons_self, ?_⟩
    exact balanced_addPlaybackTasks (balanced_addPlaybackTasks (balanced_dropCounter hend))
  · exact ⟨List.mem_cons_self, trivial⟩

theorem balanced_code (c : Call) : Balanced [] c.code := by
  have hstop : Balanced [] (underState stopIfPlaying .done) := balanced_underState _ List.not_mem_nil trivial
  cases c with
  | start =>
    intro _ s
    dsimp only
    split_ifs
    · trivial
    · exact balanced_startPlayback
    · trivial
  | startSignalPlayback =>
    intro _ s
    dsimp only
    split_ifs
    · trivial
    · trivial
    · exact balanced_startPlayback
  | stopSignalPlayback =>
    intro _ s
    dsimp only
    split_ifs
    · trivial
    · trivial
    · exact hstop
  | shutdown =>
    intro _ s
    dsimp only
    split_ifs
    · trivial
    · exact hstop
  | lastTask => exact balanced_addPlaybackTasks (balanced_dropCounter trivial)
  | discardedTask => exact balanced_dropCounter trivial

/-- **The calls keep the discipline of the mutexes in all states of a run if and only if none of them comes to the end
of the scope of a guard whose mutex it has unlocked inside.** -/
theorem disciplined_playback_iff (s : Shared) (ops : List (Op Call)) :
    AllHold (Pool.step Call.code) Pool.Disciplined (Pool.init s) ops ↔
      AllMeet (Pool.step Call.code) Pool.NotSpent (Pool.init s) ops :=
  Pool.disciplined_iff balanced_code s ops

/-- `Start` starts a playback and adds its first tasks; the last one of these adds the next tasks when `Start` unlocks
the reader's mutex once more, and goes on to add tasks itself. -/
def surplusRun : List (Op Call) :=
  .call .start :: List.replicate 11 (.run 0 1) ++ .call .lastTask :: List.replicate 4 (.run 1 1) ++
    List.replicate 6 (.run 0 1)

/-- The mutexes the threads hold at the end, and the unlock that gave the reader's mutex away. -/
example : ((surplusRun.foldl (Pool.step Call.code) (Pool.init (initial .imd))).threads.map Thread.held,
    (surplusRun.foldl (Pool.step Call.code) (Pool.init (initial .imd))).faults) =
      ([[.db], [.db]], [.unlockNotHeld 0 .db]) := rfl

theorem not_disciplined_playback :
    ¬ AllHold (Pool.step Call.code) Pool.Disciplined (Pool.init (initial .imd)) surplusRun := by
  intro h
  have hholder : ∀ i < 2, ∃ t : Thread PlaybackMutex Shared, .db ∈ t.held ∧
      (surplusRun.foldl (Pool.step Call.code) (Pool.init (initial .imd))).threads[i]? = some t := by
    intro i hi
    interval_cases i
    · exact ⟨⟨[.db], _⟩, List.mem_cons_self, rfl⟩
    · exact ⟨⟨[.db], _⟩, List.mem_cons_self, rfl⟩
  obtain ⟨t, hmem, ht⟩ := hholder 0 zero_lt_two
  obtain ⟨t', hmem', ht'⟩ := hholder 1 one_lt_two
  exact absurd (h.last.exclusive ht ht' hmem hmem') zero_ne_one

end PlaybackLocks

end AimRT.RecordPlayback
