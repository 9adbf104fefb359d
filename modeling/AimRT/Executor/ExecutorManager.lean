import AimRT.Lib.Binding
import AimRT.Lib.Checks

/-!
# The executor manager

`ExecutorManager::Initialize` makes the executors of the options one after the other.  A strand is made on the context
of an `asio_thread` executor, a time wheel or a time manipulator may hand its tasks on to another executor, and what an
executor is bound to has to be there before it.

* `initializeExecutors_isOk_iff`: which options are accepted;
* `threadSafe_target`: an executor takes over `ThreadSafe` from the one at which its tasks end.
-/

namespace AimRT.Executor

open Lib.Binding Lib.Checks

/-! ### The executors -/

/-- What `Initialize` leaves of the executors of each type.  The executor it is bound to, or whose context it takes, is
the one at that place of `executor_vec_`; `queue_threshold` counts as long as `threshold_alarm_interval_ms` is not
negative. -/
inductive ExecutorKind where
  | asioThread (threadNum : ℕ)
  | asioStrand (context : ℕ)
  | tbbThread (threadNum : ℕ) (queueThreshold : Option ℕ)
  | simpleThread (queueThreshold : Option ℕ)
  | timeWheel (bindExecutor : Option ℕ) (threadSafe : Bool)
  | timeManipulator (bindExecutor : ℕ) (threadSafe : Bool)
  deriving DecidableEq, Repr

structure ExecutorBase where
  name : String
  kind : ExecutorKind
  deriving DecidableEq, Repr

namespace ExecutorKind

def type : ExecutorKind → String
  | asioThread _ => "asio_thread"
  | asioStrand _ => "asio_strand"
  | tbbThread _ _ => "tbb_thread"
  | simpleThread _ => "simple_thread"
  | timeWheel _ _ => "time_wheel"
  | timeManipulator _ _ => "time_manipulator"

theorem type_eq_asioThread_iff {kind : ExecutorKind} :
    kind.type = "asio_thread" ↔ ∃ threadNum, kind = asioThread threadNum := by
  cases kind <;> simp [type]

def threadSafe : ExecutorKind → Bool
  | asioThread threadNum => threadNum == 1
  | asioStrand _ => true
  | tbbThread threadNum _ => threadNum == 1
  | simpleThread _ => true
  | timeWheel _ threadSafe => threadSafe
  | timeManipulator _ threadSafe => threadSafe

def supportTimerSchedule : ExecutorKind → Bool
  | tbbThread _ _ => false
  | simpleThread _ => false
  | _ => true

/-- `bind_executor_ref_`. -/
def bindExecutor : ExecutorKind → Option ℕ
  | timeWheel bindExecutor _ => bindExecutor
  | timeManipulator bindExecutor _ => some bindExecutor
  | _ => none

/-- What was checked of an executor that has been made behind those of `before`. -/
def Ok (before : List ExecutorBase) : ExecutorKind → Prop
  | asioThread threadNum => 0 < threadNum
  | asioStrand context => ∃ e threadNum, before[context]? = some e ∧ e.kind = asioThread threadNum
  | tbbThread threadNum _ => 0 < threadNum
  | simpleThread _ => True
  | timeWheel none threadSafe => threadSafe = true
  | timeWheel (some j) threadSafe => ∃ e, before[j]? = some e ∧ e.kind.threadSafe = threadSafe
  | timeManipulator j threadSafe => ∃ e, before[j]? = some e ∧ e.kind.threadSafe = threadSafe

end ExecutorKind

/-- The manager by its `executor_vec_`. -/
@[ext]
structure ExecutorManager where
  executorVec : List ExecutorBase
  ok : ∀ {i : ℕ} {e : ExecutorBase}, executorVec[i]? = some e → e.kind.Ok (executorVec.take i)

/-- `Options::ExecutorOptions`, and of the node `options` what is read of it here. -/
structure ExecutorOptions where
  name : String
  type : String
  threadNum : Option ℕ := none
  queueThreshold : Option ℕ := none
  thresholdAlarmIntervalMs : Option ℤ := none
  bindAsioThreadExecutorName : Option String := none
  bindExecutor : Option String := none
  deriving DecidableEq, Repr

/-- The types of which `executor_gen_func_map_` has a function; the last one is that of a plugin. -/
inductive ExecutorType where
  | asioThread
  | asioStrand
  | tbbThread
  | simpleThread
  | timeWheel
  | timeManipulator
  deriving DecidableEq, Repr

def ExecutorType.name : ExecutorType → String
  | asioThread => "asio_thread"
  | asioStrand => "asio_strand"
  | tbbThread => "tbb_thread"
  | simpleThread => "simple_thread"
  | timeWheel => "time_wheel"
  | timeManipulator => "time_manipulator"

/-- The names that the core has taken, and whether the time manipulator plugin is there. -/
structure ExecutorEnv where
  usedExecutorNames : List String
  timeManipulator : Bool

/-! ### Their initialization -/

def ExecutorOptions.threshold (options : ExecutorOptions) : Option ℕ :=
  if 0 ≤ options.thresholdAlarmIntervalMs.getD 1000 then some (options.queueThreshold.getD 10000) else none

/-- `GetExecutor`: `executor_proxy_map_` has the executors that are in `executor_vec_`. -/
def getExecutor (executorVec : List ExecutorBase) (name : String) : Option (Fin executorVec.length) :=
  executorVec.findFinIdx? fun e => decide (e.name = name)

def getAsioHandle (executorVec : List ExecutorBase) (name : String) : Option (Fin executorVec.length) :=
  executorVec.findFinIdx? fun e => decide (e.kind.type = "asio_thread" ∧ e.name = name)

def initializeAsioThread (options : ExecutorOptions) : Except String ExecutorKind :=
  if options.threadNum.getD 1 = 0 then .error "Invalide asio thread executor options, thread num is zero."
  else .ok (.asioThread (options.threadNum.getD 1))

def initializeAsioStrand (executorVec : List ExecutorBase) (options : ExecutorOptions) : Except String ExecutorKind :=
  let name := options.bindAsioThreadExecutorName.getD ""
  if name = "" then .error "Invalide bind asio thread executor name, name is empty."
  else
    match getAsioHandle executorVec name with
    | none => .error "Invalide bind asio thread executor name, can not get asio io context."
    | some context => .ok (.asioStrand context)

def initializeTBBThread (options : ExecutorOptions) : Except String ExecutorKind :=
  if options.threadNum.getD 1 = 0 then .error "Invalide tbb thread executor options, thread num is zero."
  else .ok (.tbbThread (options.threadNum.getD 1) options.threshold)

def initializeSimpleThread (options : ExecutorOptions) : Except String ExecutorKind :=
  .ok (.simpleThread options.threshold)

def initializeTimeWheel (executorVec : List ExecutorBase) (options : ExecutorOptions) : Except String ExecutorKind :=
  let name := options.bindExecutor.getD ""
  if name = "" then .ok (.timeWheel none true)
  else
    match getExecutor executorVec name with
    | none => .error ("Can not get executor " ++ name ++ ".")
    | some j =>
      if executorVec[j].name = options.name then .error ("Bind executor '" ++ name ++ "' is self!")
      else .ok (.timeWheel (some j) executorVec[j].kind.threadSafe)

def initializeTimeManipulator (executorVec : List ExecutorBase) (options : ExecutorOptions) :
    Except String ExecutorKind :=
  let name := options.bindExecutor.getD ""
  if name = "" then .error "Invalide bind executor name, name is empty."
  else
    match getExecutor executorVec name with
    | none => .error ("Can not get executor " ++ name ++ ".")
    | some j => .ok (.timeManipulator j executorVec[j].kind.threadSafe)

/-- `Initialize` of a new executor of the type. -/
def ExecutorType.initializeExecutor (executorVec : List ExecutorBase) (options : ExecutorOptions) :
    ExecutorType → Except String ExecutorKind
  | asioThread => initializeAsioThread options
  | asioStrand => initializeAsioStrand executorVec options
  | tbbThread => initializeTBBThread options
  | simpleThread => initializeSimpleThread options
  | timeWheel => initializeTimeWheel executorVec options
  | timeManipulator => initializeTimeManipulator executorVec options

/-- The lookup in `executor_gen_func_map_`. -/
def executorGenFunc (env : ExecutorEnv) (type : String) : Option ExecutorType :=
  if type = "asio_thread" then some .asioThread
  else if type = "asio_strand" then some .asioStrand
  else if type = "tbb_thread" then some .tbbThread
  else if type = "simple_thread" then some .simpleThread
  else if type = "time_wheel" then some .timeWheel
  else if type = "time_manipulator" ∧ env.timeManipulator then some .timeManipulator
  else none

section Checked

variable {executorVec : List ExecutorBase} {options : ExecutorOptions} {kind : ExecutorKind}

theorem getElem?_getAsioHandle {name : String} {context : Fin executorVec.length}
    (h : getAsioHandle executorVec name = some context) :
    ∃ e threadNum, executorVec[(context : ℕ)]? = some e ∧ e.kind = .asioThread threadNum := by
  have hfound := of_decide_eq_true (List.findFinIdx?_eq_some_iff.1 h).1
  obtain ⟨threadNum, hkind⟩ := ExecutorKind.type_eq_asioThread_iff.1 hfound.1
  exact ⟨executorVec[context], threadNum, List.getElem?_eq_getElem context.isLt, hkind⟩

/-- Each initialization makes an executor of its type, and checks what has to hold of it. -/
theorem kind_of_initializeExecutor {type : ExecutorType}
    (h : type.initializeExecutor executorVec options = .ok kind) : kind.type = type.name ∧ kind.Ok executorVec := by
  cases type with
  | asioThread =>
    simp only [ExecutorType.initializeExecutor, initializeAsioThread] at h
    split_ifs at h with hnum
    cases h
    exact ⟨rfl, Nat.pos_of_ne_zero hnum⟩
  | asioStrand =>
    simp only [ExecutorType.initializeExecutor, initializeAsioStrand] at h
    split_ifs at h
    split at h
    · cases h
    · cases h
      rename_i context hcontext
      exact ⟨rfl, getElem?_getAsioHandle hcontext⟩
  | tbbThread =>
    simp only [ExecutorType.initializeExecutor, initializeTBBThread] at h
    split_ifs at h with hnum
    cases h
    exact ⟨rfl, Nat.pos_of_ne_zero hnum⟩
  | simpleThread =>
    cases h
    exact ⟨rfl, trivial⟩
  | timeWheel =>
    simp only [ExecutorType.initializeExecutor, initializeTimeWheel] at h
    split_ifs at h
    · cases h
      exact ⟨rfl, rfl⟩
    · split at h
      · cases h
      · split_ifs at h
        cases h
        exact ⟨rfl, _, List.getElem?_eq_getElem (Fin.isLt _), rfl⟩
  | timeManipulator =>
    simp only [ExecutorType.initializeExecutor, initializeTimeManipulator] at h
    split_ifs at h
    split at h
    · cases h
    · cases h
      exact ⟨rfl, _, List.getElem?_eq_getElem (Fin.isLt _), rfl⟩

theorem ok_of_initializeExecutor {type : ExecutorType}
    (h : type.initializeExecutor executorVec options = .ok kind) : kind.Ok executorVec :=
  (kind_of_initializeExecutor h).2

end Checked

namespace ExecutorManager

def empty : ExecutorManager := ⟨[], nofun⟩

/-- `executor_vec_.emplace_back`. -/
def emplaceBack (m : ExecutorManager) (e : ExecutorBase) (h : e.kind.Ok m.executorVec) : ExecutorManager where
  executorVec := m.executorVec ++ [e]
  ok := (forall_getElem?_append_singleton_iff (P := fun before (e : ExecutorBase) => e.kind.Ok before)).2 ⟨m.ok, h⟩

/-- One round of the loop of `Initialize`. -/
def addExecutor (env : ExecutorEnv) (m : ExecutorManager) (options : ExecutorOptions) :
    Except String ExecutorManager :=
  if options.name ∈ m.executorVec.map ExecutorBase.name ∨ options.name ∈ env.usedExecutorNames then
    .error ("Duplicate executor name '" ++ options.name ++ "'.")
  else
    match executorGenFunc env options.type with
    | none => .error ("Invalid executor type '" ++ options.type ++ "'.")
    | some type =>
      match h : type.initializeExecutor m.executorVec options with
      | .error e => .error e
      | .ok kind => .ok (m.emplaceBack ⟨options.name, kind⟩ (ok_of_initializeExecutor h))

def initializeExecutors (env : ExecutorEnv) (executorsOptions : List ExecutorOptions) : Except String ExecutorManager :=
  executorsOptions.foldlM (addExecutor env) empty

end ExecutorManager

/-! ### Which options are accepted -/

/-- What the options of an executor have to be, behind those of `before`. -/
def ExecutorType.Accepts (before : List ExecutorOptions) (options : ExecutorOptions) : ExecutorType → Prop
  | asioThread => options.threadNum ≠ some 0
  | asioStrand => ∃ name ≠ "", options.bindAsioThreadExecutorName = some name ∧
      (name, "asio_thread") ∈ before.map fun o => (o.name, o.type)
  | tbbThread => options.threadNum ≠ some 0
  | simpleThread => True
  | timeWheel => ∀ name ≠ "", options.bindExecutor = some name → name ∈ before.map ExecutorOptions.name
  | timeManipulator => ∃ name ≠ "", options.bindExecutor = some name ∧ name ∈ before.map ExecutorOptions.name

/-- The names are new, the types are there, and what an executor is bound to comes before it. -/
structure ExecutorsAccepted (env : ExecutorEnv) (executorsOptions : List ExecutorOptions) : Prop where
  names : (executorsOptions.map ExecutorOptions.name).Nodup
  unused : ∀ options ∈ executorsOptions, options.name ∉ env.usedExecutorNames
  options : ∀ {i : ℕ} {options : ExecutorOptions}, executorsOptions[i]? = some options →
    ∃ type, executorGenFunc env options.type = some type ∧ type.Accepts (executorsOptions.take i) options

/-- The executors that have been made have the names and the types of the options. -/
def Represents (executorVec : List ExecutorBase) (executorsOptions : List ExecutorOptions) : Prop :=
  executorVec.map (fun e => (e.name, e.kind.type)) = executorsOptions.map fun o => (o.name, o.type)

section Accepted

variable {env : ExecutorEnv} {executorVec : List ExecutorBase} {executorsOptions : List ExecutorOptions}
  {options : ExecutorOptions} {name : String}

theorem Represents.names (h : Represents executorVec executorsOptions) :
    executorVec.map ExecutorBase.name = executorsOptions.map ExecutorOptions.name := by
  have hmap := congrArg (List.map Prod.fst) h
  rw [List.map_map, List.map_map] at hmap
  exact hmap

theorem getExecutor_eq_none_iff :
    getExecutor executorVec name = none ↔ name ∉ executorVec.map ExecutorBase.name := by
  rw [getExecutor, List.findFinIdx?_eq_none_iff, List.mem_map, not_exists]
  exact forall_congr' fun e => ⟨fun h he => h he.1 (decide_eq_true he.2), fun h he hp => h ⟨he, of_decide_eq_true hp⟩⟩

theorem getAsioHandle_eq_none_iff : getAsioHandle executorVec name = none ↔
    (name, "asio_thread") ∉ executorVec.map fun e => (e.name, e.kind.type) := by
  rw [getAsioHandle, List.findFinIdx?_eq_none_iff, List.mem_map, not_exists]
  refine forall_congr' fun e => ⟨fun h he => h he.1 (decide_eq_true ?_), fun h he hp => h ⟨he, ?_⟩⟩
  · exact ⟨congrArg Prod.snd he.2, congrArg Prod.fst he.2⟩
  · obtain ⟨htype, hname⟩ := of_decide_eq_true hp
    rw [htype, hname]

theorem getD_eq_zero_iff {threadNum : Option ℕ} : threadNum.getD 1 = 0 ↔ threadNum = some 0 := by
  cases threadNum with
  | none => exact ⟨nofun, nofun⟩
  | some n => exact ⟨congrArg some, fun h => Option.some.inj h⟩

theorem eq_some_of_getD_ne {bound : Option String} (h : bound.getD "" ≠ "") : bound = some (bound.getD "") := by
  cases bound with
  | none => exact absurd rfl h
  | some name => rfl

theorem name_of_getExecutor {j : Fin executorVec.length} (h : getExecutor executorVec name = some j) :
    executorVec[j].name = name :=
  of_decide_eq_true (List.findFinIdx?_eq_some_iff.1 h).1

/-- When the initialization of an executor goes through; no executor is bound to itself, as its name is new. -/
theorem exists_initializeExecutor_iff (h : Represents executorVec executorsOptions)
    (hnew : options.name ∉ executorsOptions.map ExecutorOptions.name) (type : ExecutorType) :
    (∃ kind, type.initializeExecutor executorVec options = .ok kind) ↔ type.Accepts executorsOptions options := by
  have hnone : ∀ {bound : Option String}, bound.getD "" = "" → ¬ ∃ name ≠ "", bound = some name := by
    rintro _ hempty ⟨name, hne, rfl⟩
    exact hne hempty
  have hget : ∀ name, getExecutor executorVec name = none ↔ name ∉ executorsOptions.map ExecutorOptions.name :=
    fun name => h.names ▸ getExecutor_eq_none_iff
  cases type with
  | asioThread =>
    simp only [ExecutorType.initializeExecutor, initializeAsioThread]
    split_ifs with hnum
    · exact ⟨nofun, fun haccepts => absurd (getD_eq_zero_iff.1 hnum) haccepts⟩
    · exact ⟨fun _ hzero => hnum (getD_eq_zero_iff.2 hzero), fun _ => ⟨_, rfl⟩⟩
  | asioStrand =>
    simp only [ExecutorType.initializeExecutor, initializeAsioStrand]
    split_ifs with hempty
    · exact ⟨nofun, fun ⟨name, hne, hname, _⟩ => absurd ⟨name, hne, hname⟩ (hnone hempty)⟩
    · cases hcontext : getAsioHandle executorVec (options.bindAsioThreadExecutorName.getD "") with
      | none =>
        rw [getAsioHandle_eq_none_iff, h] at hcontext
        refine ⟨nofun, fun ⟨name, _, hname, hmem⟩ => absurd ?_ hcontext⟩
        rw [hname]
        exact hmem
      | some context =>
        refine ⟨fun _ => ⟨_, hempty, eq_some_of_getD_ne hempty, ?_⟩, fun _ => ⟨_, rfl⟩⟩
        by_contra hmem
        rw [← h, ← getAsioHandle_eq_none_iff, hcontext] at hmem
        cases hmem
  | tbbThread =>
    simp only [ExecutorType.initializeExecutor, initializeTBBThread]
    split_ifs with hnum
    · exact ⟨nofun, fun haccepts => absurd (getD_eq_zero_iff.1 hnum) haccepts⟩
    · exact ⟨fun _ hzero => hnum (getD_eq_zero_iff.2 hzero), fun _ => ⟨_, rfl⟩⟩
  | simpleThread => exact ⟨fun _ => trivial, fun _ => ⟨_, rfl⟩⟩
  | timeWheel =>
    simp only [ExecutorType.initializeExecutor, initializeTimeWheel]
    split_ifs with hempty
    · exact ⟨fun _ name hne hname => absurd ⟨name, hne, hname⟩ (hnone hempty), fun _ => ⟨_, rfl⟩⟩
    · cases hbind : getExecutor executorVec (options.bindExecutor.getD "") with
      | none =>
        exact ⟨nofun, fun haccepts => absurd (haccepts _ hempty (eq_some_of_getD_ne hempty)) ((hget _).1 hbind)⟩
      | some j =>
        have hmem : options.bindExecutor.getD "" ∈ executorsOptions.map ExecutorOptions.name := by
          by_contra hmem
          rw [(hget _).2 hmem] at hbind
          cases hbind
        have hself : executorVec[j].name ≠ options.name := fun hself => by
          rw [name_of_getExecutor hbind] at hself
          exact hnew (hself ▸ hmem)
        dsimp only
        rw [if_neg hself]
        refine ⟨fun _ name _ hname => ?_, fun _ => ⟨_, rfl⟩⟩
        rw [hname] at hmem
        exact hmem
  | timeManipulator =>
    simp only [ExecutorType.initializeExecutor, initializeTimeManipulator]
    split_ifs with hempty
    · exact ⟨nofun, fun ⟨name, hne, hname, _⟩ => absurd ⟨name, hne, hname⟩ (hnone hempty)⟩
    · cases hbind : getExecutor executorVec (options.bindExecutor.getD "") with
      | none =>
        refine ⟨nofun, fun ⟨name, _, hname, hmem⟩ => absurd ?_ ((hget _).1 hbind)⟩
        rw [hname]
        exact hmem
      | some j =>
        refine ⟨fun _ => ⟨_, hempty, eq_some_of_getD_ne hempty, ?_⟩, fun _ => ⟨_, rfl⟩⟩
        by_contra hmem
        rw [(hget _).2 hmem] at hbind
        cases hbind

theorem executorsAccepted_append_singleton_iff : ExecutorsAccepted env (executorsOptions ++ [options]) ↔
    ExecutorsAccepted env executorsOptions ∧
      (options.name ∉ executorsOptions.map ExecutorOptions.name ∧ options.name ∉ env.usedExecutorNames) ∧
        ∃ type, executorGenFunc env options.type = some type ∧ type.Accepts executorsOptions options := by
  have hoptions_iff := forall_getElem?_append_singleton_iff (l := executorsOptions) (a := options)
    (P := fun before (o : ExecutorOptions) => ∃ type, executorGenFunc env o.type = some type ∧ type.Accepts before o)
  constructor
  · rintro ⟨hnames, hunused, hoptions⟩
    rw [List.map_append, List.nodup_append] at hnames
    rw [List.forall_mem_append] at hunused
    obtain ⟨hbefore, haccepts⟩ := hoptions_iff.1 hoptions
    refine ⟨⟨hnames.1, hunused.1, hbefore⟩, ⟨fun hmem => ?_, hunused.2 _ List.mem_cons_self⟩, haccepts⟩
    exact hnames.2.2 _ hmem _ List.mem_cons_self rfl
  · rintro ⟨⟨hnames, hunused, hoptions⟩, ⟨hnew, hnotUsed⟩, haccepts⟩
    refine ⟨?_, List.forall_mem_append.2 ⟨hunused, List.forall_mem_singleton.2 hnotUsed⟩,
      hoptions_iff.2 ⟨hoptions, haccepts⟩⟩
    rw [List.map_append, List.nodup_append]
    refine ⟨hnames, List.nodup_singleton _, fun name hname name' hname' heq => ?_⟩
    rw [heq, List.mem_singleton.1 hname'] at hname
    exact hnew hname

theorem eq_name_of_executorGenFunc {type : ExecutorType} (h : executorGenFunc env name = some type) :
    name = type.name := by
  unfold executorGenFunc at h
  split_ifs at h with h₁ h₂ h₃ h₄ h₅ h₆
  all_goals cases h
  · exact h₁
  · exact h₂
  · exact h₃
  · exact h₄
  · exact h₅
  · exact h₆.1

end Accepted

namespace ExecutorManager

variable {env : ExecutorEnv} {executorsOptions : List ExecutorOptions}

theorem addExecutor_eq_ok_iff {m m' : ExecutorManager} {options : ExecutorOptions} :
    addExecutor env m options = .ok m' ↔
      (options.name ∉ m.executorVec.map ExecutorBase.name ∧ options.name ∉ env.usedExecutorNames) ∧
        ∃ type kind, executorGenFunc env options.type = some type ∧
          type.initializeExecutor m.executorVec options = .ok kind ∧
            m'.executorVec = m.executorVec ++ [⟨options.name, kind⟩] := by
  unfold addExecutor
  split_ifs with hdup
  · exact ⟨nofun, fun ⟨hnew, _⟩ => absurd hdup (not_or.2 hnew)⟩
  · rw [iff_true_intro (not_or.1 hdup), true_and]
    cases hgen : executorGenFunc env options.type with
    | none => exact ⟨nofun, nofun⟩
    | some type =>
      dsimp only
      split
      · rename_i hinit
        refine ⟨nofun, fun ⟨_, _, htype, hok, _⟩ => ?_⟩
        cases htype
        rw [hinit] at hok
        cases hok
      · rename_i kind hinit
        constructor
        · intro h
          cases h
          exact ⟨type, kind, rfl, hinit, rfl⟩
        · rintro ⟨_, _, htype, hok, hvec⟩
          cases htype
          rw [hinit] at hok
          cases hok
          exact congrArg Except.ok (ExecutorManager.ext hvec.symm)

theorem represents_of_initializeExecutors {m : ExecutorManager}
    (h : initializeExecutors env executorsOptions = .ok m) : Represents m.executorVec executorsOptions := by
  induction executorsOptions using List.reverseRecOn generalizing m with
  | nil =>
    cases h
    rfl
  | append_singleton executorsOptions options ih =>
    obtain ⟨m₀, hm₀, hadd⟩ := foldlM_append_singleton_eq_ok_iff.1 h
    obtain ⟨-, type, kind, hgen, hinit, hvec⟩ := addExecutor_eq_ok_iff.1 hadd
    rw [Represents, hvec, List.map_append, List.map_append, ih hm₀, List.map_singleton, List.map_singleton,
      (kind_of_initializeExecutor hinit).1, eq_name_of_executorGenFunc hgen]

/-- **The options that are accepted.** -/
theorem initializeExecutors_isOk_iff (env : ExecutorEnv) (executorsOptions : List ExecutorOptions) :
    (∃ m, initializeExecutors env executorsOptions = .ok m) ↔ ExecutorsAccepted env executorsOptions := by
  induction executorsOptions using List.reverseRecOn with
  | nil => exact ⟨fun _ => ⟨List.nodup_nil, nofun, nofun⟩, fun _ => ⟨_, rfl⟩⟩
  | append_singleton executorsOptions options ih =>
    rw [executorsAccepted_append_singleton_iff, ← ih]
    simp only [initializeExecutors, foldlM_append_singleton_eq_ok_iff, addExecutor_eq_ok_iff]
    constructor
    · rintro ⟨_, m, hm, hnew, type, kind, hgen, hinit, -⟩
      have hrep := represents_of_initializeExecutors hm
      rw [hrep.names] at hnew
      exact ⟨⟨m, hm⟩, hnew, type, hgen, (exists_initializeExecutor_iff hrep hnew.1 type).1 ⟨kind, hinit⟩⟩
    · rintro ⟨⟨m, hm⟩, hnew, type, hgen, haccepts⟩
      have hrep := represents_of_initializeExecutors hm
      obtain ⟨kind, hinit⟩ := (exists_initializeExecutor_iff hrep hnew.1 type).2 haccepts
      rw [← hrep.names] at hnew
      exact ⟨m.emplaceBack ⟨options.name, kind⟩ (ok_of_initializeExecutor hinit), m, hm, hnew, type, kind, hgen, hinit,
        rfl⟩

/-! ### What an executor is bound to -/

variable (m : ExecutorManager)

def kind (i : ℕ) : Option ExecutorKind := m.executorVec[i]?.map ExecutorBase.kind

def bindExecutor (i : ℕ) : Option ℕ := (m.kind i).bind ExecutorKind.bindExecutor

def threadSafe (i : ℕ) : Bool := (m.kind i).any ExecutorKind.threadSafe

variable {m} {i j : ℕ}

theorem ok_kind {kind : ExecutorKind} (h : m.kind i = some kind) : kind.Ok (m.executorVec.take i) := by
  obtain ⟨e, he, rfl⟩ := Option.map_eq_some_iff.1 h
  exact m.ok he

theorem kind_of_take {e : ExecutorBase} (h : (m.executorVec.take i)[j]? = some e) : j < i ∧ m.kind j = some e.kind := by
  rw [List.getElem?_take] at h
  split_ifs at h with hlt
  exact ⟨hlt, congrArg (Option.map ExecutorBase.kind) h⟩

/-- An executor is bound to one that was made before it, and has asked it for `ThreadSafe`. -/
theorem kind_of_bindExecutor (h : m.bindExecutor i = some j) :
    j < i ∧ (m.kind j).isSome = true ∧ m.threadSafe i = m.threadSafe j := by
  obtain ⟨kind, hkind, hbind⟩ := Option.bind_eq_some_iff.1 h
  have hok := ok_kind hkind
  have hfrom : ∀ {safe : Bool}, (∃ e, (m.executorVec.take i)[j]? = some e ∧ e.kind.threadSafe = safe) →
      kind.threadSafe = safe → j < i ∧ (m.kind j).isSome = true ∧ m.threadSafe i = m.threadSafe j := by
    rintro safe ⟨e, he, rfl⟩ hsafe
    obtain ⟨hlt, hj⟩ := kind_of_take he
    refine ⟨hlt, hj ▸ rfl, ?_⟩
    rw [threadSafe, threadSafe, hkind, hj]
    exact hsafe
  cases kind with
  | timeWheel bindExecutor safe =>
    obtain rfl : bindExecutor = some j := hbind
    exact hfrom hok rfl
  | timeManipulator bindExecutor safe =>
    obtain rfl : bindExecutor = j := Option.some.inj hbind
    exact hfrom hok rfl
  | _ => cases hbind

theorem earlier (m : ExecutorManager) : Earlier m.bindExecutor := fun h => (kind_of_bindExecutor h).1

/-- **`ThreadSafe`** is that of the executor at which the tasks end. -/
theorem threadSafe_target (i : ℕ) : m.threadSafe i = m.threadSafe (target m.bindExecutor i) :=
  eq_target m.earlier (fun h => (kind_of_bindExecutor h).2.2) i

end ExecutorManager

end AimRT.Executor
