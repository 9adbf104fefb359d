import AimRT.Lib.Places
import AimRT.Lib.Run

/-!
# The life of the core

`AimRTCore` initializes its parts one after the other, starts them in the same order, waits for `Shutdown`, and shuts
them down in the opposite order.  It runs the hooks of each state that it enters.  A hook or a part may throw at any
place, `Shutdown` may be called at any time by any thread, such as a signal handler, and what is not shut down by
`Start` or by the task of `AsyncStart` is shut down by the destructor.

The system is that of `main`: a thread that initializes the core, starts it and destroys it, the thread of `AsyncStart`,
and calls of `Shutdown` by others, which take their steps in any order.

* `orderly_run`: in every run the states are entered, and the parts called, in one order and each at most once;
* `hookRuns_nodup`: no hook runs twice;
* `destroyed_shutDown`: when the core is gone, all parts have been shut down, unless something threw on the way down.
-/

namespace AimRT.Core.Lifecycle

/-! ### Stages -/

/-- What the core initializes, in this order. -/
inductive Part where
  | configurator
  | plugin
  | mainThread
  | guardThread
  | executor
  | log
  | allocator
  | rpc
  | channel
  | parameter
  | modules
  deriving DecidableEq, Repr

def parts : List Part :=
  [.configurator, .plugin, .mainThread, .guardThread, .executor, .log, .allocator, .rpc, .channel, .parameter, .modules]

/-- `AimRTCore::State`; `preInitOf .plugin` is `kPreInitPlugin`. -/
inductive State where
  | preInit
  | preInitOf (part : Part)
  | postInitOf (part : Part)
  | postInit
  | preStart
  | preStartOf (part : Part)
  | postStartOf (part : Part)
  | postStart
  | preShutdown
  | preShutdownOf (part : Part)
  | postShutdownOf (part : Part)
  | postShutdown
  deriving DecidableEq, Repr

/-- A state is entered, or a part is initialized, started or shut down. -/
inductive Stage where
  | enterState (state : State)
  | init (part : Part)
  | start (part : Part)
  | shutdown (part : Part)
  deriving DecidableEq, Repr

open Stage

def initializeStages : List Stage :=
  enterState .preInit ::
    parts.flatMap (fun part => [enterState (.preInitOf part), init part, enterState (.postInitOf part)]) ++
    [enterState .postInit]

def startStages : List Stage :=
  enterState .preStart ::
    parts.flatMap (fun part => [enterState (.preStartOf part), start part, enterState (.postStartOf part)]) ++
    [enterState .postStart]

def shutdownStages : List Stage :=
  enterState .preShutdown ::
    parts.reverse.flatMap (fun part =>
      [enterState (.preShutdownOf part), shutdown part, enterState (.postShutdownOf part)]) ++
    [enterState .postShutdown]

/-- The stages of the core from its beginning to its end. -/
def lifecycle : List Stage := initializeStages ++ startStages ++ shutdownStages

/-! ### The core -/

/-- The state that a part keeps for itself. -/
inductive PartState where
  | preInit
  | init
  | start
  | shutdown
  deriving DecidableEq, Repr

structure AimRTCore where
  state : State
  shutdownFlag : Bool
  shutdownImplFlag : Bool
  /-- The promise has its value. -/
  promiseSet : Bool
  /-- `get_future` was called. -/
  futureRetrieved : Bool
  partStates : Part → PartState
  /-- How many hooks a state has. -/
  hooks : State → ℕ
  /-- The stages that were begun. -/
  log : List Stage
  /-- The hooks that were run, by their states and their places. -/
  hookRuns : List (State × ℕ)
  /-- The stages that threw. -/
  threw : List Stage
  /-- The stages that were refused by the part, which was in another state. -/
  refused : List Stage

/-- What hooks and parts do: the first hook that throws, and whether a part, or another call, throws. -/
structure Answer where
  hookThrows : Option ℕ
  throws : Bool
  deriving DecidableEq, Repr

namespace AimRTCore

def init : AimRTCore :=
  { state := .preInit, shutdownFlag := false, shutdownImplFlag := false, promiseSet := false, futureRetrieved := false,
    partStates := fun _ => .preInit, hooks := fun _ => 0, log := [], hookRuns := [], threw := [], refused := [] }

/-- How many hooks run before one throws, with that one. -/
def hooksRun (c : AimRTCore) (state : State) (hookThrows : Option ℕ) : ℕ :=
  match hookThrows with
  | some k => min (k + 1) (c.hooks state)
  | none => c.hooks state

def hooksThrow (c : AimRTCore) (state : State) (hookThrows : Option ℕ) : Bool :=
  hookThrows.any fun k => decide (k < c.hooks state)

/-- `EnterState`, and whether a hook throws. -/
def enterState (c : AimRTCore) (state : State) (hookThrows : Option ℕ) : AimRTCore × Bool :=
  ({ c with
      state := state
      hookRuns := c.hookRuns ++ (List.range (c.hooksRun state hookThrows)).map fun k => (state, k) },
    c.hooksThrow state hookThrows)

def setPart (c : AimRTCore) (part : Part) (state : PartState) : AimRTCore :=
  { c with partStates := Function.update c.partStates part state }

/-- A part is called: it checks its own state, and throws if it is another one. -/
def callPart (c : AimRTCore) (stage : Stage) (part : Part) (required next : PartState) (throws : Bool) : AimRTCore × Bool :=
  if c.partStates part = required then (c.setPart part next, throws)
  else ({ c.setPart part next with refused := c.refused ++ [stage] }, true)

/-- What is called in a stage, and whether it throws.  `Shutdown` of a part returns at once if it was called before. -/
def callStage (c : AimRTCore) (answer : Answer) (stage : Stage) : AimRTCore × Bool :=
  match stage with
  | .enterState state => c.enterState state answer.hookThrows
  | .init part => c.callPart stage part .preInit .init answer.throws
  | .start part => c.callPart stage part .init .start answer.throws
  | .shutdown part =>
    if c.partStates part = PartState.shutdown then (c, false) else (c.setPart part .shutdown, answer.throws)

/-- A stage, and whether it throws. -/
def runStage (c : AimRTCore) (answer : Answer) (stage : Stage) : AimRTCore × Bool :=
  let (c, thrown) := { c with log := c.log ++ [stage] }.callStage answer stage
  (if thrown then { c with threw := c.threw ++ [stage] } else c, thrown)

end AimRTCore

/-! ### Threads -/

/-- What `Initialize` and `StartImpl` do. -/
inductive Instr where
  | stage (stage : Stage)
  | checkCfgFile
  | genInitializationReport
  deriving DecidableEq, Repr

def initializeBody : List Instr :=
  initializeStages.dropLast.map .stage ++ [.checkCfgFile, .stage (enterState .postInit)]

def startImplBody : List Instr := .genInitializationReport :: startStages.map .stage

/-- The flags of `main`: a report is written, and the core runs for some time only. -/
structure Flags where
  dumpInitReport : Bool
  runningDuration : Bool
  deriving DecidableEq, Repr

def mainBody (flags : Flags) : List Instr :=
  initializeBody ++ (if flags.dumpInitReport then [.genInitializationReport] else []) ++ startImplBody

/-- Where the main thread is. -/
inductive MainPoint where
  /-- In `Initialize` or `StartImpl`. -/
  | body (todo : List Instr)
  /-- In `Start`, behind `StartImpl`. -/
  | getFuture
  | wait
  | shutdownImpl
  /-- In `ShutdownImpl`, called by `Start`. -/
  | shuttingDown (todo : List Stage)
  /-- In `AsyncStart`, behind `StartImpl`. -/
  | startTask
  /-- In `Shutdown`, called by `main`. -/
  | shutdown
  | setValue
  /-- `fu.wait()`. -/
  | waitTask
  | destructor
  /-- In `ShutdownImpl`, called by the destructor. -/
  | destructing (todo : List Stage)
  | destroyed
  deriving DecidableEq, Repr

/-- Where the thread of `AsyncStart` is. -/
inductive TaskPoint where
  | notStarted
  | getFuture
  | wait
  | shutdownImpl
  | shuttingDown (todo : List Stage)
  | finished
  deriving DecidableEq, Repr

/-- Where a call of `Shutdown` is. -/
inductive CallPoint where
  | shutdown
  | setValue
  | returned
  deriving DecidableEq, Repr

structure System where
  flags : Flags
  core : AimRTCore
  main : MainPoint
  task : TaskPoint
  calls : List CallPoint
  /-- Calls of `Shutdown` that threw since the promise had its value. -/
  setTwice : ℕ

inductive Op where
  | main (answer : Answer)
  | task (answer : Answer)
  | call (i : ℕ)
  /-- Another thread calls `Shutdown`. -/
  | newCall
  /-- `RegisterHookFunc`. -/
  | registerHook (state : State)
  deriving DecidableEq, Repr

namespace System

def init (flags : Flags) : System :=
  { flags := flags, core := AimRTCore.init, main := .body (mainBody flags), task := .notStarted, calls := [], setTwice := 0 }

/-- One instruction of `Initialize` or `StartImpl`, and whether it throws. -/
def runInstr (c : AimRTCore) (answer : Answer) : Instr → AimRTCore × Bool
  | .stage stage => c.runStage answer stage
  | .checkCfgFile => (c, answer.throws)
  | .genInitializationReport => (c, decide (c.state ≠ .postInit) || answer.throws)

/-- `std::atomic_exchange(&shutdown_flag_, true)`: what follows depends on what it was. -/
def exchangeShutdown (s : System) : System × Bool :=
  ({ s with core := { s.core with shutdownFlag := true } }, s.core.shutdownFlag)

/-- `shutdown_promise_.set_value()`, which throws if the promise has a value. -/
def setPromise (s : System) : System :=
  if s.core.promiseSet then { s with setTwice := s.setTwice + 1 }
  else { s with core := { s.core with promiseSet := true } }

/-- The main thread; `none` while it waits.  An exception leads to the destructor. -/
def stepMain (s : System) (answer : Answer) : Option System :=
  match s.main with
  | .body (instr :: todo) =>
    let (c, thrown) := runInstr s.core answer instr
    some { s with core := c, main := if thrown then .destructor else .body todo }
  | .body [] => some { s with main := if s.flags.runningDuration then .startTask else .getFuture }
  | .getFuture =>
    if s.core.futureRetrieved then some { s with main := .destructor }
    else some { s with core := { s.core with futureRetrieved := true }, main := .wait }
  | .wait => if s.core.promiseSet then some { s with main := .shutdownImpl } else none
  | .shutdownImpl =>
    if s.core.shutdownImplFlag then some { s with main := .destructor }
    else some { s with core := { s.core with shutdownImplFlag := true }, main := .shuttingDown shutdownStages }
  | .shuttingDown (stage :: todo) =>
    let (c, thrown) := s.core.runStage answer stage
    some { s with core := c, main := if thrown then .destructor else .shuttingDown todo }
  | .shuttingDown [] => some { s with main := .destructor }
  | .startTask => some { s with task := .getFuture, main := .shutdown }
  | .shutdown =>
    let (s, flag) := s.exchangeShutdown
    some { s with main := if flag then .waitTask else .setValue }
  | .setValue => some { s.setPromise with main := if s.core.promiseSet then .destructor else .waitTask }
  | .waitTask => if s.task = .finished then some { s with main := .destructor } else none
  | .destructor =>
    if s.core.shutdownImplFlag then some { s with main := .destroyed }
    else some { s with core := { s.core with shutdownImplFlag := true }, main := .destructing shutdownStages }
  | .destructing (stage :: todo) =>
    let (c, thrown) := s.core.runStage answer stage
    some { s with core := c, main := if thrown then .destroyed else .destructing todo }
  | .destructing [] => some { s with main := .destroyed }
  | .destroyed => none

/-- The thread of `AsyncStart`.  An exception is kept in the future. -/
def stepTask (s : System) (answer : Answer) : Option System :=
  match s.task with
  | .notStarted => none
  | .getFuture =>
    if s.core.futureRetrieved then some { s with task := .finished }
    else some { s with core := { s.core with futureRetrieved := true }, task := .wait }
  | .wait => if s.core.promiseSet then some { s with task := .shutdownImpl } else none
  | .shutdownImpl =>
    if s.core.shutdownImplFlag then some { s with task := .finished }
    else some { s with core := { s.core with shutdownImplFlag := true }, task := .shuttingDown shutdownStages }
  | .shuttingDown (stage :: todo) =>
    let (c, thrown) := s.core.runStage answer stage
    some { s with core := c, task := if thrown then .finished else .shuttingDown todo }
  | .shuttingDown [] => some { s with task := .finished }
  | .finished => none

/-- A call of `Shutdown`. -/
def stepCall (s : System) (i : ℕ) : Option System :=
  match s.calls[i]? with
  | some .shutdown =>
    let (s, flag) := s.exchangeShutdown
    some { s with calls := s.calls.set i (if flag then .returned else .setValue) }
  | some .setValue => some { s.setPromise with calls := s.calls.set i .returned }
  | _ => none

/-- The core is used only while it is there. -/
def step? (s : System) (op : Op) : Option System :=
  if s.main = .destroyed then none
  else
    match op with
    | .main answer => s.stepMain answer
    | .task answer => s.stepTask answer
    | .call i => s.stepCall i
    | .newCall => some { s with calls := s.calls ++ [.shutdown] }
    | .registerHook state =>
      some { s with core := { s.core with hooks := Function.update s.core.hooks state (s.core.hooks state + 1) } }

/-- Where no step can be taken, nothing happens. -/
def step (s : System) (op : Op) : System := (s.step? op).getD s

def run (flags : Flags) (ops : List Op) : System := ops.foldl step (init flags)

/-- No thread that is there can take a step, whatever the hooks and the parts do. -/
def Stuck (s : System) : Prop :=
  (∀ answer, s.step? (.main answer) = none) ∧ (∀ answer, s.step? (.task answer) = none) ∧ ∀ i, s.step? (.call i) = none

end System

/-! ### One stage -/

section Stages

variable {c c' : AimRTCore} {answer : Answer} {stage : Stage} {todo : List Stage}

/-- The state of a part behind a stage. -/
def partAfter (partStates : Part → PartState) : Stage → Part → PartState
  | enterState _ => partStates
  | .init part => Function.update partStates part PartState.init
  | .start part => Function.update partStates part PartState.start
  | .shutdown part => Function.update partStates part PartState.shutdown

/-- The part is in the state that the stage requires. -/
def Requires (partStates : Part → PartState) : Stage → Prop
  | .init part => partStates part = PartState.preInit
  | .start part => partStates part = PartState.init
  | _ => True

instance (partStates : Part → PartState) : DecidablePred (Requires partStates)
  | .enterState _ => isTrue trivial
  | .init _ => inferInstanceAs (Decidable (_ = _))
  | .start _ => inferInstanceAs (Decidable (_ = _))
  | .shutdown _ => isTrue trivial

/-- What a stage does to the core. -/
structure Ran (c : AimRTCore) (stage : Stage) (c' : AimRTCore) (thrown : Bool) : Prop where
  log : c'.log = c.log ++ [stage]
  shutdownFlag : c'.shutdownFlag = c.shutdownFlag
  shutdownImplFlag : c'.shutdownImplFlag = c.shutdownImplFlag
  promiseSet : c'.promiseSet = c.promiseSet
  futureRetrieved : c'.futureRetrieved = c.futureRetrieved
  threw : c'.threw = if thrown then c.threw ++ [stage] else c.threw
  partStates : c'.partStates = partAfter c.partStates stage
  refused : c'.refused = if Requires c.partStates stage then c.refused else c.refused ++ [stage]
  hookRuns : ∃ runs : List (State × ℕ), c'.hookRuns = c.hookRuns ++ runs ∧ runs.Nodup ∧
    ∀ run ∈ runs, stage = enterState run.1

theorem ran_of_call (thrown : Bool)
    (hcall : { c with log := c.log ++ [stage] }.callStage answer stage = (c', thrown))
    (h : Ran c stage c' false) : Ran c stage (c.runStage answer stage).1 (c.runStage answer stage).2 := by
  unfold AimRTCore.runStage
  rw [hcall]
  have hthrew : c'.threw = c.threw := h.threw
  cases thrown with
  | false => exact { h with }
  | true => exact { h with threw := congrArg (· ++ [stage]) hthrew }

/-- The part notes that it was called, and no hook is run. -/
theorem ran_part (c : AimRTCore) (stage : Stage) :
    Ran c stage
      { c with
        log := c.log ++ [stage]
        partStates := partAfter c.partStates stage
        refused := if Requires c.partStates stage then c.refused else c.refused ++ [stage] } false :=
  ⟨rfl, rfl, rfl, rfl, rfl, rfl, rfl, rfl, [], (List.append_nil _).symm, List.nodup_nil, fun _ h => by cases h⟩

theorem runStage_ran (c : AimRTCore) (answer : Answer) (stage : Stage) :
    Ran c stage (c.runStage answer stage).1 (c.runStage answer stage).2 := by
  cases stage with
  | enterState state =>
    refine ran_of_call _ rfl ⟨rfl, rfl, rfl, rfl, rfl, rfl, rfl, rfl, _, rfl, ?_, fun run hrun => ?_⟩
    · exact List.nodup_range.map fun _ _ h => (Prod.mk.inj h).2
    · obtain ⟨k, -, rfl⟩ := List.mem_map.1 hrun
      rfl
  | init part =>
    by_cases hpart : c.partStates part = PartState.preInit
    · exact ran_of_call answer.throws (by
        simp [AimRTCore.callStage, AimRTCore.callPart, AimRTCore.setPart, partAfter, Requires, hpart]) (ran_part c _)
    · exact ran_of_call true (by
        simp [AimRTCore.callStage, AimRTCore.callPart, AimRTCore.setPart, partAfter, Requires, hpart]) (ran_part c _)
  | start part =>
    by_cases hpart : c.partStates part = PartState.init
    · exact ran_of_call answer.throws (by
        simp [AimRTCore.callStage, AimRTCore.callPart, AimRTCore.setPart, partAfter, Requires, hpart]) (ran_part c _)
    · exact ran_of_call true (by
        simp [AimRTCore.callStage, AimRTCore.callPart, AimRTCore.setPart, partAfter, Requires, hpart]) (ran_part c _)
  | shutdown part =>
    by_cases hpart : c.partStates part = PartState.shutdown
    · have hsame : Function.update c.partStates part PartState.shutdown = c.partStates := by
        rw [← hpart, Function.update_eq_self]
      exact ran_of_call false (by
        simp [AimRTCore.callStage, partAfter, Requires, hpart, hsame]) (ran_part c _)
    · exact ran_of_call answer.throws (by
        simp [AimRTCore.callStage, AimRTCore.setPart, partAfter, Requires, hpart]) (ran_part c _)

/-! ### The order of the stages -/

/-- `b` can come behind `a`: it is another stage, and not an earlier call of the same part. -/
def CanFollow : Stage → Stage → Bool
  | .start part, .init part' => part ≠ part'
  | .shutdown part, .init part' => part ≠ part'
  | .shutdown part, .start part' => part ≠ part'
  | a, b => a ≠ b

theorem pairwise_lifecycle : lifecycle.Pairwise fun a b => CanFollow a b := by decide +kernel

theorem ne_of_canFollow {a b : Stage} (h : CanFollow a b) : a ≠ b := by
  rintro rfl
  cases a <;> simp [CanFollow] at h

theorem not_canFollow_self (a : Stage) : ¬ CanFollow a a := fun h => ne_of_canFollow h rfl

theorem not_canFollow_start_init (part : Part) : ¬ CanFollow (.start part) (.init part) :=
  fun h => of_decide_eq_true h rfl

theorem not_canFollow_shutdown_init (part : Part) : ¬ CanFollow (.shutdown part) (.init part) :=
  fun h => of_decide_eq_true h rfl

theorem not_canFollow_shutdown_start (part : Part) : ¬ CanFollow (.shutdown part) (.start part) :=
  fun h => of_decide_eq_true h rfl

theorem init_mem (part : Part) : Stage.init part ∈ initializeStages ++ startStages := by
  cases part <;> decide

/-- What the stages of a log tell about the state of a part. -/
def partOf (log : List Stage) (part : Part) : PartState :=
  if .shutdown part ∈ log then .shutdown
  else if .start part ∈ log then .start
  else if .init part ∈ log then .init
  else .preInit

theorem canFollow_of_mem {log : List Stage} (h : (log ++ [stage]).Pairwise fun a b => CanFollow a b) {a : Stage}
    (ha : a ∈ log) : CanFollow a stage :=
  (List.pairwise_append.1 h).2.2 a ha stage List.mem_cons_self

theorem partOf_append {log : List Stage} (h : (log ++ [stage]).Pairwise fun a b => CanFollow a b) :
    partOf (log ++ [stage]) = partAfter (partOf log) stage := by
  have hbefore : ∀ {a}, ¬ CanFollow a stage → a ∉ log := fun hnot ha => hnot (canFollow_of_mem h ha)
  funext q
  cases stage with
  | enterState state => simp [partOf, partAfter]
  | init part =>
    rcases eq_or_ne q part with rfl | hne
    · have hstart := @hbefore (.start q) (not_canFollow_start_init q)
      have hshutdown := @hbefore (.shutdown q) (not_canFollow_shutdown_init q)
      simp [partOf, partAfter, hstart, hshutdown]
    · simp [partOf, partAfter, hne]
  | start part =>
    rcases eq_or_ne q part with rfl | hne
    · have hshutdown := @hbefore (.shutdown q) (not_canFollow_shutdown_start q)
      simp [partOf, partAfter, hshutdown]
    · simp [partOf, partAfter, hne]
  | shutdown part =>
    rcases eq_or_ne q part with rfl | hne
    · simp [partOf, partAfter]
    · simp [partOf, partAfter, hne]

/-- While the core goes up, every part is in the state in which it is called. -/
theorem requires_partOf {log rest : List Stage} (h : log ++ stage :: rest = initializeStages ++ startStages) :
    Requires (partOf log) stage := by
  have hpairwise : (log ++ stage :: rest).Pairwise fun a b => CanFollow a b := by
    rw [h]
    exact pairwise_lifecycle.sublist (List.sublist_append_left ..)
  obtain ⟨-, hrest, hlog⟩ := List.pairwise_append.1 hpairwise
  have hbefore : ∀ {a}, ¬ CanFollow a stage → a ∉ log := fun hnot ha => hnot (hlog _ ha stage List.mem_cons_self)
  cases stage with
  | enterState state => trivial
  | init part =>
    have hinit := @hbefore (.init part) (not_canFollow_self _)
    have hstart := @hbefore (.start part) (not_canFollow_start_init part)
    have hshutdown := @hbefore (.shutdown part) (not_canFollow_shutdown_init part)
    simp [Requires, partOf, hinit, hstart, hshutdown]
  | start part =>
    have hstart := @hbefore (.start part) (not_canFollow_self _)
    have hshutdown := @hbefore (.shutdown part) (not_canFollow_shutdown_start part)
    -- the part is initialized at some place, and that is not behind this one
    have hmem := init_mem part
    rw [← h, List.mem_append, List.mem_cons] at hmem
    have hinit : .init part ∈ log := by
      rcases hmem with hmem | hmem | hmem
      · exact hmem
      · cases hmem
      · exact absurd ((List.pairwise_cons.1 hrest).1 _ hmem) (not_canFollow_start_init part)
    simp [Requires, partOf, hstart, hshutdown, hinit]
  | shutdown part => trivial

/-! ### Up and down -/

/-- The stages until the core has been started. -/
def upStages : List Stage := initializeStages ++ startStages

/-- Nobody has begun to shut the core down, and `rest` is left of the way up. -/
def Up (c : AimRTCore) (rest : List Stage) : Prop := c.shutdownImplFlag = false ∧ c.log ++ rest = upStages

/-- The core is being shut down, from wherever it was, and `rest` is left. -/
def Down (c : AimRTCore) (rest : List Stage) : Prop :=
  c.shutdownImplFlag = true ∧
    ∃ front back, front <+: upStages ∧ c.log = front ++ back ∧ back ++ rest = shutdownStages

/-- `ShutdownImpl` has ended. -/
def Ended (c : AimRTCore) : Prop :=
  c.shutdownImplFlag = true ∧
    ∃ front back, front <+: upStages ∧ c.log = front ++ back ∧ back <+: shutdownStages ∧
      (back = shutdownStages ∨ ∃ stage ∈ shutdownStages, stage ∈ c.threw)

/-- A log consists of a part of the way up, and a part of the way down. -/
def Orderly (log : List Stage) : Prop :=
  ∃ front back, front <+: upStages ∧ log = front ++ back ∧ back <+: shutdownStages

theorem Orderly.sublist {log : List Stage} (h : Orderly log) : log.Sublist lifecycle := by
  obtain ⟨front, back, hfront, rfl, hback⟩ := h
  exact hfront.sublist.append hback.sublist

theorem orderly_of_upStages {log : List Stage} (h : log <+: upStages) : Orderly log :=
  ⟨log, [], h, (List.append_nil log).symm, List.nil_prefix⟩

theorem Up.log_upStages (h : Up c todo) : c.log <+: upStages := ⟨todo, h.2⟩

theorem Up.orderly (h : Up c todo) : Orderly c.log := orderly_of_upStages h.log_upStages

theorem Down.orderly (h : Down c todo) : Orderly c.log := by
  obtain ⟨-, front, back, hfront, hlog, hback⟩ := h
  exact ⟨front, back, hfront, hlog, todo, hback⟩

theorem Ended.orderly (h : Ended c) : Orderly c.log := by
  obtain ⟨-, front, back, hfront, hlog, hback, -⟩ := h
  exact ⟨front, back, hfront, hlog, hback⟩

theorem Up.ran (h : Up c (stage :: todo)) {thrown : Bool} (hran : Ran c stage c' thrown) : Up c' todo := by
  refine ⟨hran.shutdownImplFlag.trans h.1, ?_⟩
  rw [hran.log, List.append_assoc]
  exact h.2

theorem Down.ran (h : Down c (stage :: todo)) {thrown : Bool} (hran : Ran c stage c' thrown) : Down c' todo := by
  obtain ⟨hflag, front, back, hfront, hlog, hback⟩ := h
  refine ⟨hran.shutdownImplFlag.trans hflag, front, back ++ [stage], hfront, ?_, ?_⟩
  · rw [hran.log, hlog, List.append_assoc]
  · rw [List.append_assoc]
    exact hback

/-- A stage that throws ends the way down. -/
theorem Down.ended_of_thrown (h : Down c (stage :: todo)) (hran : Ran c stage c' true) : Ended c' := by
  obtain ⟨hflag, front, back, hfront, hlog, hback⟩ := h.ran hran
  refine ⟨hflag, front, back, hfront, hlog, ⟨todo, hback⟩, .inr ⟨stage, ?_, ?_⟩⟩
  · obtain ⟨-, front', back', -, -, hback'⟩ := h
    rw [← hback']
    simp
  · rw [hran.threw, if_pos rfl]
    simp

theorem Down.ended (h : Down c []) : Ended c := by
  obtain ⟨hflag, front, back, hfront, hlog, hback⟩ := h
  rw [List.append_nil] at hback
  exact ⟨hflag, front, back, hfront, hlog, hback ▸ List.prefix_refl _, .inl hback⟩

/-- The way down begins wherever the way up has led. -/
theorem down_of_upStages (h : c.log <+: upStages) : Down { c with shutdownImplFlag := true } shutdownStages :=
  ⟨rfl, c.log, [], h, (List.append_nil c.log).symm, rfl⟩

theorem requires_of_mem (hstage : stage ∈ shutdownStages) (partStates : Part → PartState) :
    Requires partStates stage := by
  have hkinds : ∀ stage ∈ shutdownStages, ∀ part, stage ≠ .init part ∧ stage ≠ .start part := by
    intro stage hstage part
    constructor <;> rintro rfl <;> cases part <;> exact absurd hstage (by decide)
  cases stage with
  | enterState state => trivial
  | init part => exact absurd rfl (hkinds _ hstage part).1
  | start part => exact absurd rfl (hkinds _ hstage part).2
  | shutdown part => trivial

/-! ### What is recorded -/

/-- The states of the parts are those that the log tells, no call was refused, and the hooks that were run are different
ones, of states that were entered. -/
structure Recorded (c : AimRTCore) : Prop where
  partStates : c.partStates = partOf c.log
  refused : c.refused = []
  nodup : c.hookRuns.Nodup
  entered : ∀ run ∈ c.hookRuns, enterState run.1 ∈ c.log

theorem recorded_init : Recorded AimRTCore.init := ⟨rfl, rfl, List.nodup_nil, fun _ h => by cases h⟩

theorem Recorded.ran (h : Recorded c) {thrown : Bool} (hran : Ran c stage c' thrown) (horder : Orderly c'.log)
    (hrequires : Requires c.partStates stage) : Recorded c' := by
  have hpairwise : (c.log ++ [stage]).Pairwise fun a b => CanFollow a b := by
    rw [← hran.log]
    exact pairwise_lifecycle.sublist horder.sublist
  obtain ⟨runs, hruns, hnodup, hstate⟩ := hran.hookRuns
  refine ⟨?_, ?_, ?_, fun run hrun => ?_⟩
  · rw [hran.partStates, hran.log, partOf_append hpairwise, h.partStates]
  · rw [hran.refused, if_pos hrequires, h.refused]
  · rw [hruns]
    refine h.nodup.append hnodup fun run hold hnew => ?_
    have hmem := h.entered run hold
    rw [← hstate run hnew] at hmem
    exact ne_of_canFollow (canFollow_of_mem hpairwise hmem) rfl
  · rw [hruns, List.mem_append] at hrun
    rw [hran.log, List.mem_append]
    rcases hrun with hold | hnew
    · exact .inl (h.entered run hold)
    · exact .inr (by rw [hstate run hnew]; exact List.mem_cons_self)

theorem Recorded.up (h : Recorded c) (hup : Up c (stage :: todo)) {thrown : Bool} (hran : Ran c stage c' thrown) :
    Recorded c' :=
  h.ran hran (hup.ran hran).orderly (by rw [h.partStates]; exact requires_partOf hup.2)

theorem Recorded.down (h : Recorded c) (hdown : Down c (stage :: todo)) {thrown : Bool} (hran : Ran c stage c' thrown) :
    Recorded c' := by
  obtain ⟨-, front, back, -, -, hback⟩ := id hdown
  exact h.ran hran (hdown.ran hran).orderly (requires_of_mem (by rw [← hback]; simp) _)

end Stages

/-! ### Steps -/

namespace System

variable {s s' : System} {answer : Answer}

def stagesOf (todo : List Instr) : List Stage :=
  todo.filterMap fun
    | .stage stage => some stage
    | _ => none

theorem stagesOf_mainBody (flags : Flags) : stagesOf (mainBody flags) = upStages := by
  obtain ⟨dump, duration⟩ := flags
  cases dump <;> cases duration <;> decide

/-- What the thread of `AsyncStart` can be at while `main` waits for it. -/
def TaskFlow (c : AimRTCore) : TaskPoint → Prop
  | .notStarted => False
  | .getFuture => Up c [] ∧ c.futureRetrieved = false
  | .wait => Up c []
  | .shutdownImpl => Up c []
  | .shuttingDown todo => Down c todo
  | .finished => Ended c

/-- What is true of the core at the points of the main thread. -/
def Flow (s : System) : Prop :=
  match s.main with
  | .body todo => s.task = .notStarted ∧ Up s.core (stagesOf todo) ∧ s.core.futureRetrieved = false
  | .getFuture => s.task = .notStarted ∧ Up s.core [] ∧ s.core.futureRetrieved = false
  | .wait => s.task = .notStarted ∧ Up s.core []
  | .shutdownImpl => s.task = .notStarted ∧ Up s.core []
  | .shuttingDown todo => s.task = .notStarted ∧ Down s.core todo
  | .startTask => s.task = .notStarted ∧ Up s.core [] ∧ s.core.futureRetrieved = false
  | .shutdown => TaskFlow s.core s.task
  | .setValue => TaskFlow s.core s.task
  | .waitTask => TaskFlow s.core s.task
  | .destructor =>
    (s.task = .notStarted ∧ s.core.shutdownImplFlag = false ∧ s.core.log <+: upStages) ∨
      (s.task = .notStarted ∨ s.task = .finished) ∧ Ended s.core
  | .destructing todo => s.task = .notStarted ∧ Down s.core todo
  | .destroyed => (s.task = .notStarted ∨ s.task = .finished) ∧ Ended s.core

/-- The promise gets its value from the one call of `Shutdown` that has found the flag not set. -/
structure Promised (s : System) : Prop where
  setters : (if s.main = .setValue then 1 else 0) + s.calls.count .setValue =
    if s.core.shutdownFlag && !s.core.promiseSet then 1 else 0
  flag_of_set : s.core.promiseSet = true → s.core.shutdownFlag = true
  flag_of_call : ∀ call ∈ s.calls, call ≠ .shutdown → s.core.shutdownFlag = true
  flag_of_main : s.main = .setValue ∨ s.main = .waitTask → s.core.shutdownFlag = true
  once : s.setTwice = 0

structure Inv (s : System) : Prop where
  flow : Flow s
  promised : Promised s
  recorded : Recorded s.core

theorem inv_init (flags : Flags) : Inv (init flags) := by
  refine ⟨⟨rfl, ⟨rfl, ?_⟩, rfl⟩, ⟨rfl, fun h => h, (fun _ h => by cases h), fun h => ?_, rfl⟩, recorded_init⟩
  · exact stagesOf_mainBody flags
  · rcases h with h | h <;> cases h

/-- A step of the main thread that has nothing to do with the promise. -/
theorem Promised.main (h : Promised s) (hmain : s.main ≠ .setValue) {c : AimRTCore} {m : MainPoint} {t : TaskPoint}
    (hflag : c.shutdownFlag = s.core.shutdownFlag) (hset : c.promiseSet = s.core.promiseSet)
    (hm : m ≠ .setValue) (hwait : m = .waitTask → s.core.shutdownFlag = true) :
    Promised { s with core := c, main := m, task := t } := by
  refine ⟨?_, ?_, ?_, ?_, h.once⟩
  · have hsetters := h.setters
    rw [if_neg hmain] at hsetters
    show (if m = .setValue then 1 else 0) + _ = if c.shutdownFlag && !c.promiseSet then 1 else 0
    rw [if_neg hm, hflag, hset]
    exact hsetters
  · show c.promiseSet = true → c.shutdownFlag = true
    rw [hflag, hset]
    exact h.flag_of_set
  · show ∀ call ∈ s.calls, call ≠ .shutdown → c.shutdownFlag = true
    rw [hflag]
    exact h.flag_of_call
  · show m = .setValue ∨ m = .waitTask → c.shutdownFlag = true
    rw [hflag]
    rintro (heq | heq)
    · exact absurd heq hm
    · exact hwait heq

/-- The main thread gives the promise its value. -/
theorem Promised.setPromise (h : Promised s) (hmain : s.main = .setValue) :
    s.core.promiseSet = false ∧ Promised { s.setPromise with main := .waitTask } := by
  have hsetters := h.setters
  rw [if_pos hmain] at hsetters
  have hflag : s.core.shutdownFlag = true ∧ s.core.promiseSet = false ∧ s.calls.count .setValue = 0 := by
    cases hf : s.core.shutdownFlag <;> cases hp : s.core.promiseSet <;> simp [hf, hp] at hsetters ⊢
    exact hsetters
  obtain ⟨hf, hp, hcount⟩ := hflag
  refine ⟨hp, ?_⟩
  have heq : s.setPromise = { s with core := { s.core with promiseSet := true } } := by
    rw [System.setPromise, hp]
    rfl
  rw [heq]
  refine ⟨?_, fun _ => hf, fun _ _ _ => hf, fun _ => hf, h.once⟩
  show 0 + _ = if s.core.shutdownFlag && !true then 1 else 0
  rw [Nat.zero_add, Bool.not_true, Bool.and_false]
  exact hcount

/-- The main thread exchanges the flag. -/
theorem Promised.exchange (h : Promised s) (hmain : s.main = .shutdown) :
    Promised { s.exchangeShutdown.1 with main := if s.core.shutdownFlag then .waitTask else .setValue } := by
  have hsetters := h.setters
  rw [if_neg (by rw [hmain]; decide)] at hsetters
  refine ⟨?_, fun _ => rfl, fun _ _ _ => rfl, fun _ => rfl, h.once⟩
  show (if (if s.core.shutdownFlag then MainPoint.waitTask else MainPoint.setValue) = .setValue then 1 else 0) +
    s.calls.count .setValue = if true && !s.core.promiseSet then 1 else 0
  cases hf : s.core.shutdownFlag with
  | false =>
    have hp : s.core.promiseSet = false := by
      by_contra hp
      have := h.flag_of_set (by simpa using hp)
      rw [hf] at this
      cases this
    rw [hf, hp] at hsetters
    simpa [hp] using hsetters
  | true =>
    rw [hf] at hsetters
    simpa using hsetters

theorem Up.congr {c c' : AimRTCore} {rest : List Stage} (h : Up c rest) (hflag : c'.shutdownImplFlag = c.shutdownImplFlag)
    (hlog : c'.log = c.log) : Up c' rest := ⟨hflag.trans h.1, by rw [hlog]; exact h.2⟩

theorem TaskFlow.congr {c c' : AimRTCore} {t : TaskPoint} (h : TaskFlow c t)
    (hflag : c'.shutdownImplFlag = c.shutdownImplFlag) (hlog : c'.log = c.log) (hthrew : c'.threw = c.threw)
    (hretrieved : c'.futureRetrieved = c.futureRetrieved) : TaskFlow c' t := by
  cases t with
  | notStarted => exact h
  | getFuture => exact ⟨Up.congr h.1 hflag hlog, hretrieved.trans h.2⟩
  | wait => exact Up.congr h hflag hlog
  | shutdownImpl => exact Up.congr h hflag hlog
  | shuttingDown todo =>
    obtain ⟨hf, hrest⟩ := h
    exact ⟨hflag.trans hf, by rw [hlog]; exact hrest⟩
  | finished =>
    obtain ⟨hf, hrest⟩ := h
    exact ⟨hflag.trans hf, by rw [hlog, hthrew]; exact hrest⟩

/-- One instruction on the way up. -/
theorem Up.runInstr {c : AimRTCore} {instr : Instr} {todo : List Instr} (h : Up c (stagesOf (instr :: todo)))
    (hrecorded : Recorded c) (answer : Answer) :
    Up (runInstr c answer instr).1 (stagesOf todo) ∧ Recorded (runInstr c answer instr).1 ∧
      (runInstr c answer instr).1.shutdownFlag = c.shutdownFlag ∧
      (runInstr c answer instr).1.promiseSet = c.promiseSet ∧
      (runInstr c answer instr).1.futureRetrieved = c.futureRetrieved := by
  cases instr with
  | stage stage =>
    have hran := runStage_ran c answer stage
    have hup : Up c (stage :: stagesOf todo) := h
    exact ⟨hup.ran hran, hrecorded.up hup hran, hran.shutdownFlag, hran.promiseSet, hran.futureRetrieved⟩
  | checkCfgFile => exact ⟨h, hrecorded, rfl, rfl, rfl⟩
  | genInitializationReport => exact ⟨h, hrecorded, rfl, rfl, rfl⟩

/-- **A step of the main thread.** -/
theorem Inv.stepMain (h : Inv s) (hs : s.stepMain answer = some s') : Inv s' := by
  have hflow := h.flow
  have hpromised := h.promised
  unfold Flow at hflow
  unfold System.stepMain at hs
  have hother : s.main ≠ .setValue → ∀ {c : AimRTCore} {m : MainPoint} {t : TaskPoint},
      c.shutdownFlag = s.core.shutdownFlag → c.promiseSet = s.core.promiseSet → m ≠ .setValue → m ≠ .waitTask →
      Promised { s with core := c, main := m, task := t } := fun hne _ _ _ hflag hset hm hwait =>
    hpromised.main hne hflag hset hm fun heq => absurd heq hwait
  cases hmain : s.main with
  | body todo =>
    have hother := fun {c m t} => @hother (by rw [hmain]; exact MainPoint.noConfusion) c m t
    rw [hmain] at hs hflow
    obtain ⟨htask, hup, hfuture⟩ := hflow
    cases todo with
    | nil =>
      obtain rfl := Option.some.inj hs
      cases hduration : s.flags.runningDuration <;>
        exact ⟨⟨htask, hup, hfuture⟩, hother rfl rfl (by simp) (by simp), h.recorded⟩
    | cons instr todo =>
      obtain ⟨hup', hrecorded, hflag, hset, hfuture'⟩ := Up.runInstr hup h.recorded answer
      dsimp only at hs
      generalize runInstr s.core answer instr = r at hs hup' hrecorded hflag hset hfuture'
      obtain ⟨c', thrown⟩ := r
      cases thrown with
      | true =>
        obtain rfl := Option.some.inj hs
        exact ⟨Or.inl ⟨htask, hup'.1, hup'.log_upStages⟩, hother hflag hset (by simp) (by simp), hrecorded⟩
      | false =>
        obtain rfl := Option.some.inj hs
        exact ⟨⟨htask, hup', hfuture'.trans hfuture⟩, hother hflag hset (by simp) (by simp), hrecorded⟩
  | getFuture =>
    have hother := fun {c m t} => @hother (by rw [hmain]; exact MainPoint.noConfusion) c m t
    rw [hmain] at hs hflow
    obtain ⟨htask, hup, hfuture⟩ := hflow
    simp only [hfuture] at hs
    obtain rfl := Option.some.inj hs
    exact ⟨⟨htask, hup⟩, hother rfl rfl (by simp) (by simp), ⟨h.recorded.1, h.recorded.2, h.recorded.3, h.recorded.4⟩⟩
  | wait =>
    have hother := fun {c m t} => @hother (by rw [hmain]; exact MainPoint.noConfusion) c m t
    rw [hmain] at hs hflow
    simp only at hs
    split_ifs at hs
    obtain rfl := Option.some.inj hs
    exact ⟨hflow, hother rfl rfl (by simp) (by simp), h.recorded⟩
  | shutdownImpl =>
    have hother := fun {c m t} => @hother (by rw [hmain]; exact MainPoint.noConfusion) c m t
    rw [hmain] at hs hflow
    obtain ⟨htask, hup⟩ := hflow
    simp only [hup.1] at hs
    obtain rfl := Option.some.inj hs
    exact ⟨⟨htask, down_of_upStages hup.log_upStages⟩, hother rfl rfl (by simp) (by simp),
      ⟨h.recorded.1, h.recorded.2, h.recorded.3, h.recorded.4⟩⟩
  | shuttingDown todo =>
    have hother := fun {c m t} => @hother (by rw [hmain]; exact MainPoint.noConfusion) c m t
    rw [hmain] at hs hflow
    obtain ⟨htask, hdown⟩ := hflow
    cases todo with
    | nil =>
      obtain rfl := Option.some.inj hs
      exact ⟨Or.inr ⟨.inl htask, hdown.ended⟩, hother rfl rfl (by simp) (by simp), h.recorded⟩
    | cons stage todo =>
      have hran := runStage_ran s.core answer stage
      have hrecorded := h.recorded.down hdown hran
      dsimp only at hs
      generalize s.core.runStage answer stage = r at hs hran hrecorded
      obtain ⟨c', thrown⟩ := r
      cases thrown with
      | true =>
        obtain rfl := Option.some.inj hs
        exact ⟨Or.inr ⟨.inl htask, hdown.ended_of_thrown hran⟩,
          hother hran.shutdownFlag hran.promiseSet (by simp) (by simp), hrecorded⟩
      | false =>
        obtain rfl := Option.some.inj hs
        exact ⟨⟨htask, hdown.ran hran⟩, hother hran.shutdownFlag hran.promiseSet (by simp) (by simp), hrecorded⟩
  | startTask =>
    have hother := fun {c m t} => @hother (by rw [hmain]; exact MainPoint.noConfusion) c m t
    rw [hmain] at hs hflow
    obtain ⟨-, hup, hfuture⟩ := hflow
    obtain rfl := Option.some.inj hs
    exact ⟨⟨hup, hfuture⟩, hother rfl rfl (by simp) (by simp), h.recorded⟩
  | shutdown =>
    rw [hmain] at hs hflow
    have hexchange := hpromised.exchange hmain
    obtain rfl := Option.some.inj hs
    refine ⟨?_, hexchange, ⟨h.recorded.1, h.recorded.2, h.recorded.3, h.recorded.4⟩⟩
    have htask : TaskFlow { s.core with shutdownFlag := true } s.task := TaskFlow.congr hflow rfl rfl rfl rfl
    cases hflag : s.core.shutdownFlag <;> simpa [Flow, System.exchangeShutdown, hflag] using htask
  | setValue =>
    rw [hmain] at hs hflow
    obtain ⟨hset, hpromised'⟩ := hpromised.setPromise hmain
    simp only [hset] at hs
    obtain rfl := Option.some.inj hs
    have heq : s.setPromise = { s with core := { s.core with promiseSet := true } } := by
      rw [System.setPromise, hset]
      rfl
    refine ⟨?_, hpromised', ?_⟩
    · rw [heq]
      exact TaskFlow.congr hflow rfl rfl rfl rfl
    · rw [heq]
      exact ⟨h.recorded.1, h.recorded.2, h.recorded.3, h.recorded.4⟩
  | waitTask =>
    have hother := fun {c m t} => @hother (by rw [hmain]; exact MainPoint.noConfusion) c m t
    rw [hmain] at hs hflow
    simp only at hs
    split_ifs at hs with htask
    obtain rfl := Option.some.inj hs
    rw [htask] at hflow
    exact ⟨Or.inr ⟨.inr htask, hflow⟩, hother rfl rfl (by simp) (by simp), h.recorded⟩
  | destructor =>
    have hother := fun {c m t} => @hother (by rw [hmain]; exact MainPoint.noConfusion) c m t
    rw [hmain] at hs hflow
    rcases hflow with ⟨htask, hflag, hbegin⟩ | ⟨htask, hended⟩
    · simp only [hflag] at hs
      obtain rfl := Option.some.inj hs
      exact ⟨⟨htask, down_of_upStages hbegin⟩, hother rfl rfl (by simp) (by simp),
        ⟨h.recorded.1, h.recorded.2, h.recorded.3, h.recorded.4⟩⟩
    · simp only [hended.1] at hs
      obtain rfl := Option.some.inj hs
      exact ⟨⟨htask, hended⟩, hother rfl rfl (by simp) (by simp), h.recorded⟩
  | destructing todo =>
    have hother := fun {c m t} => @hother (by rw [hmain]; exact MainPoint.noConfusion) c m t
    rw [hmain] at hs hflow
    obtain ⟨htask, hdown⟩ := hflow
    cases todo with
    | nil =>
      obtain rfl := Option.some.inj hs
      exact ⟨⟨.inl htask, hdown.ended⟩, hother rfl rfl (by simp) (by simp), h.recorded⟩
    | cons stage todo =>
      have hran := runStage_ran s.core answer stage
      have hrecorded := h.recorded.down hdown hran
      dsimp only at hs
      generalize s.core.runStage answer stage = r at hs hran hrecorded
      obtain ⟨c', thrown⟩ := r
      cases thrown with
      | true =>
        obtain rfl := Option.some.inj hs
        exact ⟨⟨.inl htask, hdown.ended_of_thrown hran⟩,
          hother hran.shutdownFlag hran.promiseSet (by simp) (by simp), hrecorded⟩
      | false =>
        obtain rfl := Option.some.inj hs
        exact ⟨⟨htask, hdown.ran hran⟩, hother hran.shutdownFlag hran.promiseSet (by simp) (by simp), hrecorded⟩
  | destroyed =>
    rw [hmain] at hs
    cases hs

/-! ### The other steps -/

/-- Nothing of the flow depends on the promise. -/
theorem Flow.congr (h : Flow s) {c : AimRTCore} {calls : List CallPoint} {n : ℕ}
    (hflag : c.shutdownImplFlag = s.core.shutdownImplFlag) (hlog : c.log = s.core.log) (hthrew : c.threw = s.core.threw)
    (hretrieved : c.futureRetrieved = s.core.futureRetrieved) :
    Flow { s with core := c, calls := calls, setTwice := n } := by
  have hup : ∀ {rest}, Up s.core rest → Up c rest := fun hup => Up.congr hup hflag hlog
  have hdown : ∀ {rest}, Down s.core rest → Down c rest := fun hdown =>
    TaskFlow.congr (t := .shuttingDown _) hdown hflag hlog hthrew hretrieved
  have hended : Ended s.core → Ended c := fun hended =>
    TaskFlow.congr (t := .finished) hended hflag hlog hthrew hretrieved
  unfold Flow at h ⊢
  dsimp only
  cases hmain : s.main with
  | body todo =>
    rw [hmain] at h
    exact ⟨h.1, hup h.2.1, hretrieved.trans h.2.2⟩
  | getFuture =>
    rw [hmain] at h
    exact ⟨h.1, hup h.2.1, hretrieved.trans h.2.2⟩
  | wait =>
    rw [hmain] at h
    exact ⟨h.1, hup h.2⟩
  | shutdownImpl =>
    rw [hmain] at h
    exact ⟨h.1, hup h.2⟩
  | shuttingDown todo =>
    rw [hmain] at h
    exact ⟨h.1, hdown h.2⟩
  | startTask =>
    rw [hmain] at h
    exact ⟨h.1, hup h.2.1, hretrieved.trans h.2.2⟩
  | shutdown =>
    rw [hmain] at h
    exact TaskFlow.congr h hflag hlog hthrew hretrieved
  | setValue =>
    rw [hmain] at h
    exact TaskFlow.congr h hflag hlog hthrew hretrieved
  | waitTask =>
    rw [hmain] at h
    exact TaskFlow.congr h hflag hlog hthrew hretrieved
  | destructor =>
    rw [hmain] at h
    rcases h with ⟨htask, hf, hbegin⟩ | ⟨htask, h⟩
    · exact .inl ⟨htask, hflag.trans hf, hlog ▸ hbegin⟩
    · exact .inr ⟨htask, hended h⟩
  | destructing todo =>
    rw [hmain] at h
    exact ⟨h.1, hdown h.2⟩
  | destroyed =>
    rw [hmain] at h
    exact ⟨h.1, hended h.2⟩

/-- While the thread of `AsyncStart` runs, `main` shuts the core down or waits. -/
theorem Flow.task (h : Flow s) (hstarted : s.task ≠ .notStarted) (hrunning : s.task ≠ .finished) :
    TaskFlow s.core s.task ∧ ∀ {c t}, TaskFlow c t → Flow { s with core := c, task := t } := by
  unfold Flow at h ⊢
  dsimp only
  cases hmain : s.main with
  | shutdown =>
    rw [hmain] at h
    exact ⟨h, fun ht => ht⟩
  | setValue =>
    rw [hmain] at h
    exact ⟨h, fun ht => ht⟩
  | waitTask =>
    rw [hmain] at h
    exact ⟨h, fun ht => ht⟩
  | destructor =>
    rw [hmain] at h
    rcases h with ⟨htask, -⟩ | ⟨htask | htask, -⟩
    · exact absurd htask hstarted
    · exact absurd htask hstarted
    · exact absurd htask hrunning
  | destroyed =>
    rw [hmain] at h
    rcases h with ⟨htask | htask, -⟩
    · exact absurd htask hstarted
    · exact absurd htask hrunning
  | _ =>
    rw [hmain] at h
    exact absurd h.1 hstarted

theorem Promised.task (h : Promised s) {c : AimRTCore} {t : TaskPoint} (hflag : c.shutdownFlag = s.core.shutdownFlag)
    (hset : c.promiseSet = s.core.promiseSet) : Promised { s with core := c, task := t } := by
  refine ⟨?_, ?_, ?_, ?_, h.once⟩
  · show _ = if c.shutdownFlag && !c.promiseSet then 1 else 0
    rw [hflag, hset]
    exact h.setters
  · show c.promiseSet = true → c.shutdownFlag = true
    rw [hflag, hset]
    exact h.flag_of_set
  · show ∀ call ∈ s.calls, call ≠ .shutdown → c.shutdownFlag = true
    rw [hflag]
    exact h.flag_of_call
  · show _ → c.shutdownFlag = true
    rw [hflag]
    exact h.flag_of_main

/-- **A step of the thread of `AsyncStart`.** -/
theorem Inv.stepTask (h : Inv s) (hs : s.stepTask answer = some s') : Inv s' := by
  have hstarted : s.task ≠ .notStarted := fun heq => by simp [System.stepTask, heq] at hs
  have hrunning : s.task ≠ .finished := fun heq => by simp [System.stepTask, heq] at hs
  obtain ⟨htask, hflow⟩ := h.flow.task hstarted hrunning
  unfold System.stepTask at hs
  cases hpoint : s.task with
  | notStarted => exact absurd hpoint hstarted
  | finished => exact absurd hpoint hrunning
  | getFuture =>
    rw [hpoint] at hs htask
    simp only [htask.2] at hs
    obtain rfl := Option.some.inj hs
    exact ⟨hflow htask.1, h.promised.task rfl rfl, ⟨h.recorded.1, h.recorded.2, h.recorded.3, h.recorded.4⟩⟩
  | wait =>
    rw [hpoint] at hs htask
    dsimp only at hs
    split_ifs at hs
    obtain rfl := Option.some.inj hs
    exact ⟨hflow htask, h.promised.task rfl rfl, h.recorded⟩
  | shutdownImpl =>
    rw [hpoint] at hs htask
    have hup : Up s.core [] := htask
    simp only [hup.1] at hs
    obtain rfl := Option.some.inj hs
    exact ⟨hflow (down_of_upStages hup.log_upStages), h.promised.task rfl rfl,
      ⟨h.recorded.1, h.recorded.2, h.recorded.3, h.recorded.4⟩⟩
  | shuttingDown todo =>
    rw [hpoint] at hs htask
    have hdown : Down s.core todo := htask
    cases todo with
    | nil =>
      obtain rfl := Option.some.inj hs
      exact ⟨hflow hdown.ended, h.promised.task rfl rfl, h.recorded⟩
    | cons stage todo =>
      have hran := runStage_ran s.core answer stage
      have hrecorded := h.recorded.down hdown hran
      dsimp only at hs
      generalize s.core.runStage answer stage = r at hs hran hrecorded
      obtain ⟨c', thrown⟩ := r
      cases thrown with
      | true =>
        obtain rfl := Option.some.inj hs
        exact ⟨hflow (hdown.ended_of_thrown hran), h.promised.task hran.shutdownFlag hran.promiseSet, hrecorded⟩
      | false =>
        obtain rfl := Option.some.inj hs
        exact ⟨hflow (hdown.ran hran), h.promised.task hran.shutdownFlag hran.promiseSet, hrecorded⟩

/-- **A step of a call of `Shutdown`.** -/
theorem Inv.stepCall (h : Inv s) {i : ℕ} (hs : s.stepCall i = some s') : Inv s' := by
  have hpromised := h.promised
  have hrecorded := h.recorded
  unfold System.stepCall at hs
  cases hcall : s.calls[i]? with
  | none =>
    rw [hcall] at hs
    cases hs
  | some call =>
    have hmem := List.mem_of_getElem? hcall
    rw [hcall] at hs
    cases call with
    | returned => cases hs
    | shutdown =>
      obtain rfl := Option.some.inj hs
      refine ⟨h.flow.congr rfl rfl rfl rfl, ⟨?_, fun _ => rfl, fun _ _ _ => rfl, fun _ => rfl, hpromised.once⟩,
        ⟨hrecorded.1, hrecorded.2, hrecorded.3, hrecorded.4⟩⟩
      have hsetters := hpromised.setters
      have hcount := Lib.Places.count_set
        (q := if s.core.shutdownFlag then .returned else .setValue) CallPoint.setValue hcall
      show (if s.main = .setValue then 1 else 0) +
        (s.calls.set i (if s.core.shutdownFlag then .returned else .setValue)).count .setValue =
          if true && !s.core.promiseSet then 1 else 0
      cases hflag : s.core.shutdownFlag with
      | true =>
        rw [hflag] at hsetters hcount
        rw [← hsetters]
        exact congrArg _ hcount
      | false =>
        have hset : s.core.promiseSet = false := by
          by_contra hp
          have hf := hpromised.flag_of_set (by simpa using hp)
          rw [hflag] at hf
          cases hf
        rw [hflag] at hsetters hcount
        rw [hset] at hsetters ⊢
        have hone : (s.calls.set i .setValue).count .setValue = s.calls.count .setValue + 1 := hcount
        have hzero : (if s.main = .setValue then 1 else 0) + s.calls.count .setValue = 0 := hsetters
        show (if s.main = .setValue then 1 else 0) + (s.calls.set i .setValue).count .setValue = 1
        omega
    | setValue =>
      obtain rfl := Option.some.inj hs
      have hsetters := hpromised.setters
      have hcount := Lib.Places.count_set (q := .returned) CallPoint.setValue hcall
      have hflag := hpromised.flag_of_call _ hmem (by decide)
      have hpos : 0 < s.calls.count .setValue := List.count_pos_iff.2 hmem
      have hset : s.core.promiseSet = false := by
        by_contra hp
        rw [hflag, (by simpa using hp : s.core.promiseSet = true)] at hsetters
        have hzero : (if s.main = .setValue then 1 else 0) + s.calls.count .setValue = 0 := hsetters
        omega
      have heq : s.setPromise = { s with core := { s.core with promiseSet := true } } := by
        rw [System.setPromise, hset]
        rfl
      rw [heq]
      refine ⟨h.flow.congr rfl rfl rfl rfl,
        ⟨?_, fun _ => hflag, fun _ _ _ => hflag, fun _ => hflag, hpromised.once⟩,
        ⟨hrecorded.1, hrecorded.2, hrecorded.3, hrecorded.4⟩⟩
      rw [hflag, hset] at hsetters
      have hone : (s.calls.set i .returned).count .setValue + 1 = s.calls.count .setValue := hcount
      have hsum : (if s.main = .setValue then 1 else 0) + s.calls.count .setValue = 1 := hsetters
      show (if s.main = .setValue then 1 else 0) + (s.calls.set i .returned).count .setValue =
        if s.core.shutdownFlag && !true then 1 else 0
      rw [hflag]
      show (if s.main = .setValue then 1 else 0) + (s.calls.set i .returned).count .setValue = 0
      omega

theorem Inv.newCall (h : Inv s) : Inv { s with calls := s.calls ++ [.shutdown] } := by
  refine ⟨h.flow.congr rfl rfl rfl rfl, ⟨?_, h.promised.flag_of_set, fun call hmem hne => ?_, h.promised.flag_of_main,
    h.promised.once⟩, h.recorded⟩
  · show _ + (s.calls ++ [CallPoint.shutdown]).count CallPoint.setValue = _
    rw [List.count_append]
    exact h.promised.setters
  · rw [List.mem_append, List.mem_singleton] at hmem
    exact h.promised.flag_of_call call (hmem.resolve_right hne) hne

theorem Inv.registerHook (h : Inv s) (hooks : State → ℕ) : Inv { s with core := { s.core with hooks := hooks } } :=
  ⟨h.flow.congr rfl rfl rfl rfl,
    ⟨h.promised.setters, h.promised.flag_of_set, h.promised.flag_of_call, h.promised.flag_of_main, h.promised.once⟩,
    ⟨h.recorded.1, h.recorded.2, h.recorded.3, h.recorded.4⟩⟩

theorem Inv.step (h : Inv s) (op : Op) : Inv (s.step op) := by
  unfold System.step
  cases hs : s.step? op with
  | none => exact h
  | some s' =>
    show Inv s'
    unfold System.step? at hs
    split_ifs at hs
    cases op with
    | main answer => exact h.stepMain hs
    | task answer => exact h.stepTask hs
    | call i => exact h.stepCall hs
    | newCall =>
      obtain rfl := Option.some.inj hs
      exact h.newCall
    | registerHook state =>
      obtain rfl := Option.some.inj hs
      exact h.registerHook _

theorem inv_run (flags : Flags) (ops : List Op) : Inv (run flags ops) :=
  (Lib.Run.allHold_of_inv Inv (fun h => h) (fun h op => h.step op) (inv_init flags) ops).last

/-! ### Whole runs -/

theorem Flow.orderly (h : Flow s) : Orderly s.core.log := by
  have htask : ∀ {t}, TaskFlow s.core t → Orderly s.core.log := by
    intro t ht
    cases t with
    | notStarted => exact ht.elim
    | getFuture => exact ht.1.orderly
    | wait => exact Up.orderly ht
    | shutdownImpl => exact Up.orderly ht
    | shuttingDown todo => exact Down.orderly ht
    | finished => exact Ended.orderly ht
  unfold Flow at h
  cases hmain : s.main with
  | body todo =>
    rw [hmain] at h
    exact h.2.1.orderly
  | getFuture =>
    rw [hmain] at h
    exact h.2.1.orderly
  | wait =>
    rw [hmain] at h
    exact h.2.orderly
  | shutdownImpl =>
    rw [hmain] at h
    exact h.2.orderly
  | shuttingDown todo =>
    rw [hmain] at h
    exact h.2.orderly
  | startTask =>
    rw [hmain] at h
    exact h.2.1.orderly
  | shutdown =>
    rw [hmain] at h
    exact htask h
  | setValue =>
    rw [hmain] at h
    exact htask h
  | waitTask =>
    rw [hmain] at h
    exact htask h
  | destructor =>
    rw [hmain] at h
    rcases h with ⟨-, -, hbegin⟩ | ⟨-, hended⟩
    · exact orderly_of_upStages hbegin
    · exact hended.orderly
  | destructing todo =>
    rw [hmain] at h
    exact h.2.orderly
  | destroyed =>
    rw [hmain] at h
    exact h.2.orderly

/-- **The stages that were begun are the first ones of the way up, and behind them the first ones of the way down.**  No
part refuses a call. -/
theorem orderly_run (flags : Flags) (ops : List Op) :
    Orderly (run flags ops).core.log ∧ (run flags ops).core.log.Nodup ∧ (run flags ops).core.refused = [] := by
  have hinv := inv_run flags ops
  have horderly := hinv.flow.orderly
  refine ⟨horderly, ?_, hinv.recorded.refused⟩
  exact (pairwise_lifecycle.imp fun h => ne_of_canFollow h).sublist horderly.sublist

theorem partOf_shutdown {log : List Stage} (h : ∀ part, .shutdown part ∈ log) (part : Part) :
    partOf log part = PartState.shutdown := if_pos (h part)

theorem shutdown_mem (part : Part) : Stage.shutdown part ∈ shutdownStages := by
  cases part <;> decide

/-- **When the core is gone, it has been shut down** from wherever it was, unless something threw on the way down. -/
theorem destroyed_shutDown (flags : Flags) (ops : List Op) (h : (run flags ops).main = .destroyed) :
    ((∃ front, front <+: upStages ∧ (run flags ops).core.log = front ++ shutdownStages) ∧
        ∀ part, (run flags ops).core.partStates part = PartState.shutdown) ∨
      ∃ stage ∈ shutdownStages, stage ∈ (run flags ops).core.threw := by
  have hinv := inv_run flags ops
  have hflow := hinv.flow
  unfold Flow at hflow
  rw [h] at hflow
  obtain ⟨-, -, front, back, hfront, hlog, -, hback | hthrew⟩ := hflow
  · rw [hback] at hlog
    refine .inl ⟨⟨front, hfront, hlog⟩, fun part => ?_⟩
    rw [hinv.recorded.partStates]
    refine partOf_shutdown (fun part => ?_) part
    rw [hlog]
    exact List.mem_append_right front (shutdown_mem part)
  · exact .inr hthrew

/-- The configurator throws in `Initialize`, and then nothing throws any more. -/
theorem destroyed_shutDown_of_throwing :
    let ops : List Op := [.main ⟨none, false⟩, .main ⟨none, false⟩, .main ⟨none, true⟩] ++
      List.replicate 37 (.main ⟨none, false⟩)
    (run ⟨false, false⟩ ops).main = .destroyed ∧
      (((∃ front, front <+: upStages ∧ (run ⟨false, false⟩ ops).core.log = front ++ shutdownStages) ∧
          ∀ part, (run ⟨false, false⟩ ops).core.partStates part = PartState.shutdown) ∨
        ∃ stage ∈ shutdownStages, stage ∈ (run ⟨false, false⟩ ops).core.threw) := by
  have h : (run ⟨false, false⟩ ([.main ⟨none, false⟩, .main ⟨none, false⟩, .main ⟨none, true⟩] ++
      List.replicate 37 (.main ⟨none, false⟩))).main = .destroyed := by decide +kernel
  exact ⟨h, destroyed_shutDown ⟨false, false⟩ _ h⟩

end System

end AimRT.Core.Lifecycle
