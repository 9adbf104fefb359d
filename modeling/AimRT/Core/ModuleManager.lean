import Mathlib.Data.List.AList
import Mathlib.Tactic

/-!
# The module manager

`ModuleManager` initializes the modules that are registered and those of the libraries, starts them in this
order and shuts them down in the opposite one.  `Initialize` and `Start` may be stopped at any module.

A module that is initialized is put into the wrapper map and into the initialization order at once, and its
name is a new one.  So all along the names in the order are those of the modules that were initialized
(`Inv.order`), and each of them is found in the map (`Inv.wrapper`).
-/

namespace AimRT.Core.ModuleManager

/-! ### Modules and libraries -/

/-- `aimrt_module_base_t`: its address, and the name that it tells. -/
structure ModuleBase where
  impl : ℕ
  name : String
  deriving DecidableEq, Repr

/-- What is called of a module, and what its `initialize` returned. -/
inductive Call where
  | init (module : ModuleBase) (ret : Bool)
  | start (module : ModuleBase)
  | shutdown (module : ModuleBase)
  deriving DecidableEq, Repr

namespace Call

def module : Call → ModuleBase
  | init p _ => p
  | start p => p
  | shutdown p => p

end Call

/-- The modules whose `initialize` returned true, in this order. -/
def inited (calls : List Call) : List ModuleBase :=
  calls.filterMap fun
    | .init p true => some p
    | _ => none

def started (calls : List Call) : List ModuleBase :=
  calls.filterMap fun
    | .start p => some p
    | _ => none

def shut (calls : List Call) : List ModuleBase :=
  calls.filterMap fun
    | .shutdown p => some p
    | _ => none

section

variable (calls : List Call) (p : ModuleBase) (ret : Bool)

theorem inited_append_singleton (call : Call) : inited (calls ++ [call]) = inited calls ++ inited [call] :=
  List.filterMap_append

theorem started_append_singleton (call : Call) : started (calls ++ [call]) = started calls ++ started [call] :=
  List.filterMap_append

theorem shut_append_singleton (call : Call) : shut (calls ++ [call]) = shut calls ++ shut [call] :=
  List.filterMap_append

@[simp] theorem inited_append_false : inited (calls ++ [Call.init p false]) = inited calls :=
  (inited_append_singleton ..).trans (List.append_nil _)

@[simp] theorem inited_append_true : inited (calls ++ [Call.init p true]) = inited calls ++ [p] :=
  inited_append_singleton ..

@[simp] theorem inited_append_start : inited (calls ++ [Call.start p]) = inited calls :=
  (inited_append_singleton ..).trans (List.append_nil _)

@[simp] theorem inited_append_shutdown : inited (calls ++ [Call.shutdown p]) = inited calls :=
  (inited_append_singleton ..).trans (List.append_nil _)

@[simp] theorem started_append_init : started (calls ++ [Call.init p ret]) = started calls :=
  (started_append_singleton ..).trans (List.append_nil _)

@[simp] theorem started_append_start : started (calls ++ [Call.start p]) = started calls ++ [p] :=
  started_append_singleton ..

@[simp] theorem started_append_shutdown : started (calls ++ [Call.shutdown p]) = started calls :=
  (started_append_singleton ..).trans (List.append_nil _)

@[simp] theorem shut_append_init : shut (calls ++ [Call.init p ret]) = shut calls :=
  (shut_append_singleton ..).trans (List.append_nil _)

@[simp] theorem shut_append_start : shut (calls ++ [Call.start p]) = shut calls :=
  (shut_append_singleton ..).trans (List.append_nil _)

@[simp] theorem shut_append_shutdown : shut (calls ++ [Call.shutdown p]) = shut calls ++ [p] :=
  shut_append_singleton ..

theorem mem_inited {calls : List Call} {p : ModuleBase} : p ∈ inited calls ↔ .init p true ∈ calls := by
  rw [inited, List.mem_filterMap]
  constructor
  · rintro ⟨c, hc, e⟩
    split at e
    next q => exact Option.some.inj e ▸ hc
    next => cases e
  · exact fun h => ⟨_, h, rfl⟩

end

/-- What `LoadPkg` gets of a dynamic library; `none` when it cannot be loaded or a symbol is missing. -/
structure DynamicLib where
  fullPath : String
  moduleNames : Option (List String)
  createModule : String → Option ModuleBase

/-- `Options::PkgLoaderOptions`. -/
structure PkgLoaderOptions where
  path : String
  disableModules : List String
  enableModules : List String
  deriving DecidableEq, Repr

/-- `Options::ModuleOptions`. -/
structure ModuleOptions where
  name : String
  enable : Bool
  logLvl : ℕ
  useDefaultLogLvl : Bool
  cfgFilePath : String
  deriving DecidableEq, Repr

/-- The part of `ModuleDetailInfo` that `InitModule` sets. -/
structure ModuleDetailInfo where
  name : String
  pkgPath : String
  logLvl : ℕ
  useDefaultLogLvl : Bool
  cfgFilePath : String
  deriving DecidableEq, Repr

structure ModuleWrapper where
  info : ModuleDetailInfo
  modulePtr : Option ModuleBase
  deriving DecidableEq, Repr

/-- `ModuleLoader`, after `LoadPkg`. -/
structure ModuleLoader where
  loadedModuleNameVec : List String
  modulePtrMap : List (String × ModuleBase)
  deriving DecidableEq, Repr

def ModuleLoader.getModule (loader : ModuleLoader) (name : String) : Option ModuleBase :=
  loader.modulePtrMap.lookup name

/-- `enable_or_disable_for_pkg_`, and what it says of a module: a list of enabled modules makes the one of
disabled modules void. -/
def PkgLoaderOptions.selects (pkg : PkgLoaderOptions) (name : String) : Bool :=
  if pkg.enableModules.isEmpty then name ∉ pkg.disableModules else name ∈ pkg.enableModules

/-- The second loop of `LoadPkg`; `none` is an exception. -/
def loadModules (lib : DynamicLib) (pkg : PkgLoaderOptions) : List String → ModuleLoader → Option ModuleLoader
  | [], loader => some loader
  | name :: names, loader =>
    if pkg.selects name then
      match lib.createModule name with
      | none => none
      | some p =>
        if p.name = name then
          loadModules lib pkg names
            ⟨loader.loadedModuleNameVec ++ [name], loader.modulePtrMap ++ [(name, p)]⟩
        else none
    else loadModules lib pkg names loader

/-- `LoadPkg`. -/
def loadPkg (lib : DynamicLib) (pkg : PkgLoaderOptions) : Option ModuleLoader :=
  match lib.moduleNames with
  | none => none
  | some names =>
    if names = [] ∨ "" ∈ names ∨ ¬names.Nodup then none
    else loadModules lib pkg names ⟨[], []⟩

/-- What the modules, the libraries and the configurator do; `loaderOrder` is the order of the `unordered_map`
of the loaders. -/
structure Env where
  init : ModuleBase → Bool
  start : ModuleBase → Bool
  /-- False where the configurator throws. -/
  configure : ModuleDetailInfo → Bool
  lib : String → DynamicLib
  loaderOrder : List (String × ModuleLoader) → List (String × ModuleLoader)
  loaderOrder_perm : ∀ l, (loaderOrder l).Perm l

/-! ### The manager -/

inductive State where
  | preInit
  | init
  | start
  | shutdown
  deriving DecidableEq, Repr

/-- `ModuleManager`, with the calls that were made. -/
structure Manager where
  state : State
  moduleProxyConfigurator : Bool
  pkgsOptions : List PkgLoaderOptions
  modulesOptions : List ModuleOptions
  registeredModuleVec : List (String × Option ModuleBase)
  moduleInitOrder : List String
  moduleLoaderMap : List (String × ModuleLoader)
  moduleWrapperMap : AList (fun _ : String => ModuleWrapper)
  moduleDetailInfoVec : List ModuleDetailInfo
  calls : List Call

/-- What a call leaves; `false` is an exception. -/
abbrev Result := Bool × Manager

def Result.andThen (r : Result) (f : Manager → Result) : Result :=
  match r with
  | (true, m) => f m
  | (false, m) => (false, m)

/-- A loop that an exception ends. -/
def forEach {A : Type} (f : A → Manager → Result) : List A → Manager → Result
  | [], m => (true, m)
  | a :: as, m => (f a m).andThen (forEach f as)

/-- `GetModuleOptions`. -/
def getModuleOptions (m : Manager) (name : String) : Option ModuleOptions :=
  m.modulesOptions.find? (·.name = name)

variable (env : Env)

/-- `InitModule`, and the info of the wrapper after it. -/
def initModule (w : ModuleWrapper) (m : Manager) : Result × ModuleDetailInfo :=
  let info := match getModuleOptions m w.info.name with
    | some o => { w.info with
        logLvl := o.logLvl, useDefaultLogLvl := o.useDefaultLogLvl, cfgFilePath := o.cfgFilePath }
    | none => w.info
  let m := match getModuleOptions m w.info.name with
    | some _ => m
    | none => { m with modulesOptions := m.modulesOptions ++
        [⟨w.info.name, true, w.info.logLvl, w.info.useDefaultLogLvl, w.info.cfgFilePath⟩] }
  if env.configure info then
    match w.modulePtr with
    | none => ((true, m), info)
    | some p => ((env.init p, { m with calls := m.calls ++ [.init p (env.init p)] }), info)
  else ((false, m), info)

/-- The end of both loops of `Initialize`: the wrapper is made, initialized and put into the containers. -/
def addModule (name pkgPath : String) (p : ModuleBase) (m : Manager) : Result :=
  match initModule env ⟨⟨name, pkgPath, 0, true, ""⟩, some p⟩ m with
  | ((false, m), _) => (false, m)
  | ((true, m), info) => (true, { m with
      moduleInitOrder := m.moduleInitOrder ++ [name]
      moduleDetailInfoVec := m.moduleDetailInfoVec ++ [info]
      moduleWrapperMap := m.moduleWrapperMap.insert name ⟨info, some p⟩ })

/-- One module that is registered. -/
def initRegistered (item : String × Option ModuleBase) (m : Manager) : Result :=
  match item.2 with
  | none => (false, m)
  | some p =>
    if (getModuleOptions m p.name).any (!·.enable) then (true, m)
    else if p.name ∈ m.moduleWrapperMap then (false, m)
    else addModule env p.name item.1 p m

/-- One module of a library. -/
def initLoaded (pkgPath : String) (loader : ModuleLoader) (name : String) (m : Manager) : Result :=
  if (getModuleOptions m name).any (!·.enable) then (true, m)
  else if name ∈ m.moduleWrapperMap then (false, m)
  else
    match loader.getModule name with
    | none => (false, m)
    | some p => addModule env name pkgPath p m

/-- One library: `emplace` keeps the loader that is there. -/
def loadLib (pkg : PkgLoaderOptions) (m : Manager) : Result :=
  match loadPkg (env.lib pkg.path) pkg with
  | none => (false, m)
  | some loader =>
    let path := (env.lib pkg.path).fullPath
    if path ∈ m.moduleLoaderMap.map Prod.fst then (true, m)
    else (true, { m with moduleLoaderMap := m.moduleLoaderMap ++ [(path, loader)] })

/-- `Initialize`, with the options of the configuration. -/
def initializeManager (pkgs : List PkgLoaderOptions) (modules : List ModuleOptions) (m : Manager) : Result :=
  if !m.moduleProxyConfigurator then (false, m)
  else if m.state ≠ .preInit then (false, { m with state := .init })
  else
    let libs := forEach (loadLib env) pkgs
      { m with state := .init, pkgsOptions := pkgs, modulesOptions := modules }
    let registered := libs.andThen fun m => forEach (initRegistered env) m.registeredModuleVec m
    registered.andThen fun m =>
      forEach (fun item => forEach (initLoaded env item.1 item.2) item.2.loadedModuleNameVec)
        (env.loaderOrder m.moduleLoaderMap) m

/-- One module of `Start`. -/
def startModule (name : String) (m : Manager) : Result :=
  match m.moduleWrapperMap.lookup name with
  | none => (false, m)
  | some w =>
    match w.modulePtr with
    | none => (false, m)
    | some p => (env.start p, { m with calls := m.calls ++ [.start p] })

/-- `Start`. -/
def start (m : Manager) : Result :=
  if m.state ≠ .init then (false, { m with state := .start })
  else forEach (startModule env) m.moduleInitOrder { m with state := .start }

/-- One module of `Shutdown`; one that is not found is left out. -/
def shutdownModule (m : Manager) (name : String) : Manager :=
  match m.moduleWrapperMap.lookup name with
  | none => m
  | some w =>
    match w.modulePtr with
    | none => m
    | some p => { m with calls := m.calls ++ [.shutdown p] }

/-- `Shutdown`. -/
def shutdown (m : Manager) : Manager :=
  if m.state = .shutdown then m
  else
    let m := m.moduleInitOrder.reverse.foldl shutdownModule { m with state := .shutdown }
    { m with
      moduleWrapperMap := ∅, moduleInitOrder := [], registeredModuleVec := []
      moduleProxyConfigurator := false }

/-- `RegisterModule`, for all the modules, and the configurator. -/
def registered (configurator : Bool) (modules : List (String × ModuleBase)) : Manager where
  state := .preInit
  moduleProxyConfigurator := configurator
  pkgsOptions := []
  modulesOptions := []
  registeredModuleVec := modules.map fun item => (item.1, some item.2)
  moduleInitOrder := []
  moduleLoaderMap := []
  moduleWrapperMap := ∅
  moduleDetailInfoVec := []
  calls := []

inductive Op where
  | start
  | shutdown
  deriving DecidableEq, Repr

def step (m : Manager) : Op → Manager
  | .start => (start env m).2
  | .shutdown => shutdown m

/-- The life of a manager: `Initialize` comes first, and its exceptions do not end it. -/
def run (configurator : Bool) (registeredModules : List (String × ModuleBase)) (pkgs : List PkgLoaderOptions)
    (modules : List ModuleOptions) (ops : List Op) : Manager :=
  ops.foldl (step env) (initializeManager env pkgs modules (registered configurator registeredModules)).2

/-! ### What the configuration enables -/

/-- The first entry of the name says that it is not enabled. -/
def Disabled (modules : List ModuleOptions) (name : String) : Prop :=
  (modules.find? (·.name = name)).any (!·.enable) = true

/-- The module is one that is registered, or one that a library made and its package selects. -/
def Offered (registeredModules : List (String × ModuleBase)) (pkgs : List PkgLoaderOptions)
    (p : ModuleBase) : Prop :=
  (∃ pkgPath, (pkgPath, p) ∈ registeredModules) ∨
    ∃ pkg ∈ pkgs, pkg.selects p.name = true ∧ (env.lib pkg.path).createModule p.name = some p

/-! ### The invariant -/

/-- A module is only started after its `initialize` returned true. -/
def StartedAfterInit (calls : List Call) : Prop :=
  ∀ before p after, calls = before ++ .start p :: after → .init p true ∈ before

/-- What holds of the calls all along. -/
structure Orderly (Enabled : ModuleBase → Prop) (calls : List Call) : Prop where
  nodupInited : ((inited calls).map ModuleBase.name).Nodup
  nodupStarted : ((started calls).map ModuleBase.name).Nodup
  after : StartedAfterInit calls
  enabled : ∀ c ∈ calls, Enabled c.module

/-- **The invariant of a manager that was not shut down.** -/
structure Live (Enabled : ModuleBase → Prop) (m : Manager) : Prop where
  orderly : Orderly Enabled m.calls
  noShut : shut m.calls = []
  order : m.moduleInitOrder = (inited m.calls).map ModuleBase.name
  wrapper : ∀ p ∈ inited m.calls,
    ∃ w, m.moduleWrapperMap.lookup p.name = some w ∧ w.modulePtr = some p
  fresh : m.state = .init → started m.calls = []
  running : m.state ≠ .shutdown

/-- The manager after a shutdown. -/
structure Done (Enabled : ModuleBase → Prop) (m : Manager) : Prop where
  orderly : Orderly Enabled m.calls
  allShut : shut m.calls = (inited m.calls).reverse
  order : m.moduleInitOrder = []
  state : m.state ≠ .init

/-- What holds in addition while the modules are initialized. -/
structure Loading (registeredModules : List (String × ModuleBase)) (pkgs : List PkgLoaderOptions)
    (modules : List ModuleOptions) (m : Manager) : Prop where
  options : ∃ extra : List ModuleOptions, m.modulesOptions = modules ++ extra ∧ ∀ o ∈ extra, o.enable = true
  loaders : ∀ item ∈ m.moduleLoaderMap, ∀ name p, item.2.getModule name = some p →
    p.name = name ∧ Offered env registeredModules pkgs p
  registered : ∀ item ∈ m.registeredModuleVec, ∀ p, item.2 = some p → (item.1, p) ∈ registeredModules
  state : m.state = .init

variable {env} {Enabled : ModuleBase → Prop} {calls : List Call}

theorem StartedAfterInit.append {c : Call} (h : StartedAfterInit calls)
    (hc : ∀ p, c = .start p → .init p true ∈ calls) : StartedAfterInit (calls ++ [c]) := by
  intro before p after e
  rcases List.eq_nil_or_concat after with rfl | ⟨after', c', rfl⟩
  · obtain ⟨rfl, hlast⟩ := List.append_inj' e rfl
    exact hc p (List.singleton_inj.1 hlast)
  · rw [List.concat_eq_append, ← List.cons_append, ← List.append_assoc] at e
    obtain ⟨e', -⟩ := List.append_inj' e rfl
    exact h before p after' e'

theorem nodup_concat_names {l : List ModuleBase} {p : ModuleBase} (h : (l.map ModuleBase.name).Nodup)
    (hnew : p.name ∉ l.map ModuleBase.name) : ((l ++ [p]).map ModuleBase.name).Nodup := by
  rw [List.map_append, List.nodup_append]
  refine ⟨h, List.nodup_singleton _, ?_⟩
  intro a ha b hb e
  rw [List.map_singleton, List.mem_singleton] at hb
  exact hnew (hb ▸ e ▸ ha)

theorem Orderly.init_false (h : Orderly Enabled calls) {p : ModuleBase} (hp : Enabled p) :
    Orderly Enabled (calls ++ [Call.init p false]) where
  nodupInited := by simpa using h.nodupInited
  nodupStarted := by simpa using h.nodupStarted
  after := h.after.append fun q e => by cases e
  enabled := List.forall_mem_append.2 ⟨h.enabled, List.forall_mem_singleton.2 hp⟩

theorem Orderly.init_true (h : Orderly Enabled calls) {p : ModuleBase} (hp : Enabled p)
    (hnew : p.name ∉ (inited calls).map ModuleBase.name) : Orderly Enabled (calls ++ [Call.init p true]) where
  nodupInited := by
    rw [inited_append_true]
    exact nodup_concat_names h.nodupInited hnew
  nodupStarted := by simpa using h.nodupStarted
  after := h.after.append fun q e => by cases e
  enabled := List.forall_mem_append.2 ⟨h.enabled, List.forall_mem_singleton.2 hp⟩

theorem Orderly.start (h : Orderly Enabled calls) {p : ModuleBase} (hp : p ∈ inited calls)
    (hnew : p.name ∉ (started calls).map ModuleBase.name) : Orderly Enabled (calls ++ [Call.start p]) where
  nodupInited := by simpa using h.nodupInited
  nodupStarted := by
    rw [started_append_start]
    exact nodup_concat_names h.nodupStarted hnew
  after := h.after.append fun q e => by
    cases e
    exact mem_inited.1 hp
  enabled := by
    have henabled : Enabled p := h.enabled _ (mem_inited.1 hp)
    exact List.forall_mem_append.2 ⟨h.enabled, List.forall_mem_singleton.2 henabled⟩

theorem Orderly.shutdown (h : Orderly Enabled calls) {p : ModuleBase} (hp : p ∈ inited calls) :
    Orderly Enabled (calls ++ [Call.shutdown p]) where
  nodupInited := by simpa using h.nodupInited
  nodupStarted := by simpa using h.nodupStarted
  after := h.after.append fun q e => by cases e
  enabled := by
    have henabled : Enabled p := h.enabled _ (mem_inited.1 hp)
    exact List.forall_mem_append.2 ⟨h.enabled, List.forall_mem_singleton.2 henabled⟩

/-! ### Initialization -/

theorem Result.andThen_inv {P : Manager → Prop} {r : Result} {f : Manager → Result} (hr : P r.2)
    (hf : ∀ m, P m → P (f m).2) : P (r.andThen f).2 := by
  obtain ⟨ok, m⟩ := r
  cases ok with
  | false => exact hr
  | true => exact hf m hr

theorem forEach_inv {A : Type} {f : A → Manager → Result} {P : Manager → Prop} {as : List A}
    (hf : ∀ a ∈ as, ∀ m, P m → P (f a m).2) {m : Manager} (h : P m) : P (forEach f as m).2 := by
  induction as generalizing m with
  | nil => exact h
  | cons a as ih =>
    rw [List.forall_mem_cons] at hf
    exact Result.andThen_inv (hf.1 m h) fun m' hm' => ih hf.2 hm'

/-- What `addModule` does: nothing to the containers when the configurator throws or `initialize` returns
false. -/
theorem addModule_cases (env : Env) (name pkgPath : String) (p : ModuleBase) (m : Manager) :
    ∃ extra : List ModuleOptions, (∀ o ∈ extra, o.enable = true) ∧
      ((addModule env name pkgPath p m).2 = { m with modulesOptions := m.modulesOptions ++ extra } ∨
        (addModule env name pkgPath p m).2 = { m with
          modulesOptions := m.modulesOptions ++ extra, calls := m.calls ++ [Call.init p false] } ∨
        ∃ info, (addModule env name pkgPath p m).2 = { m with
          modulesOptions := m.modulesOptions ++ extra, calls := m.calls ++ [Call.init p true]
          moduleInitOrder := m.moduleInitOrder ++ [name]
          moduleDetailInfoVec := m.moduleDetailInfoVec ++ [info]
          moduleWrapperMap := m.moduleWrapperMap.insert name ⟨info, some p⟩ }) := by
  unfold addModule initModule
  cases ho : getModuleOptions m name with
  | some o =>
    refine ⟨[], by simp, ?_⟩
    simp only [List.append_nil]
    split_ifs with hc
    · cases env.init p with
      | false => exact Or.inr (Or.inl rfl)
      | true => exact Or.inr (Or.inr ⟨_, rfl⟩)
    · exact Or.inl rfl
  | none =>
    refine ⟨[⟨name, true, 0, true, ""⟩], by simp, ?_⟩
    simp only
    split_ifs with hc
    · cases env.init p with
      | false => exact Or.inr (Or.inl rfl)
      | true => exact Or.inr (Or.inr ⟨_, rfl⟩)
    · exact Or.inl rfl

section Loading

variable {registeredModules : List (String × ModuleBase)} {pkgs : List PkgLoaderOptions}
  {modules : List ModuleOptions}

theorem Loading.disabled_iff {m : Manager} (h : Loading env registeredModules pkgs modules m) (name : String) :
    (getModuleOptions m name).any (!·.enable) = true ↔ Disabled modules name := by
  obtain ⟨extra, hoptions, hextra⟩ := h.options
  rw [getModuleOptions, hoptions, List.find?_append, Disabled]
  cases hfind : modules.find? (·.name = name) with
  | some o => rfl
  | none =>
    rw [Option.none_or]
    cases hfindExtra : extra.find? (·.name = name) with
    | none => rfl
    | some o => simp [hextra o (List.mem_of_find?_eq_some hfindExtra)]

/-- The modules that the configuration leaves. -/
def EnabledModule (env : Env) (registeredModules : List (String × ModuleBase)) (pkgs : List PkgLoaderOptions)
    (modules : List ModuleOptions) (p : ModuleBase) : Prop :=
  ¬Disabled modules p.name ∧ Offered env registeredModules pkgs p

/-- What holds between two modules of `Initialize`. -/
def Initializing (env : Env) (registeredModules : List (String × ModuleBase)) (pkgs : List PkgLoaderOptions)
    (modules : List ModuleOptions) (m : Manager) : Prop :=
  Loading env registeredModules pkgs modules m ∧ Live (EnabledModule env registeredModules pkgs modules) m

theorem addModule_inv {m : Manager} {p : ModuleBase} (pkgPath : String)
    (h : Initializing env registeredModules pkgs modules m)
    (hp : EnabledModule env registeredModules pkgs modules p) (hnew : p.name ∉ m.moduleWrapperMap) :
    Initializing env registeredModules pkgs modules (addModule env p.name pkgPath p m).2 := by
  obtain ⟨hload, hlive⟩ := h
  obtain ⟨before, hoptions, hbefore⟩ := hload.options
  obtain ⟨extra, hextra, hcases⟩ := addModule_cases env p.name pkgPath p m
  have hoptions' : ∃ extra' : List ModuleOptions, m.modulesOptions ++ extra = modules ++ extra' ∧
      ∀ o ∈ extra', o.enable = true := by
    refine ⟨before ++ extra, by rw [hoptions, List.append_assoc], ?_⟩
    exact List.forall_mem_append.2 ⟨hbefore, hextra⟩
  have hname : p.name ∉ (inited m.calls).map ModuleBase.name := by
    intro hmem
    obtain ⟨q, hq, e⟩ := List.mem_map.1 hmem
    obtain ⟨w, hw, -⟩ := hlive.wrapper q hq
    rw [e] at hw
    exact hnew (AList.lookup_isSome.1 (by rw [hw]; rfl))
  rcases hcases with e | e | ⟨info, e⟩
  · rw [e]
    exact ⟨⟨hoptions', hload.loaders, hload.registered, hload.state⟩,
      ⟨hlive.orderly, hlive.noShut, hlive.order, hlive.wrapper, hlive.fresh, hlive.running⟩⟩
  · rw [e]
    refine ⟨⟨hoptions', hload.loaders, hload.registered, hload.state⟩, ?_⟩
    exact {
      orderly := hlive.orderly.init_false hp
      noShut := by simpa using hlive.noShut
      order := by simpa using hlive.order
      wrapper := by simpa using hlive.wrapper
      fresh := by simpa using hlive.fresh
      running := hlive.running }
  · rw [e]
    refine ⟨⟨hoptions', hload.loaders, hload.registered, hload.state⟩, ?_⟩
    exact {
      orderly := hlive.orderly.init_true hp hname
      noShut := by simpa using hlive.noShut
      order := by simp [hlive.order]
      wrapper := by
        intro q hq
        rw [inited_append_true, List.mem_append, List.mem_singleton] at hq
        rcases hq with hq | rfl
        · have hne : q.name ≠ p.name := fun e => hname (e ▸ List.mem_map_of_mem hq)
          obtain ⟨w, hw, hptr⟩ := hlive.wrapper q hq
          exact ⟨w, by rw [AList.lookup_insert_ne hne, hw], hptr⟩
        · exact ⟨_, AList.lookup_insert _, rfl⟩
      fresh := by simpa using hlive.fresh
      running := hlive.running }

theorem initRegistered_inv {m : Manager} {item : String × Option ModuleBase}
    (hitem : ∀ p, item.2 = some p → (item.1, p) ∈ registeredModules)
    (h : Initializing env registeredModules pkgs modules m) :
    Initializing env registeredModules pkgs modules (initRegistered env item m).2 := by
  unfold initRegistered
  cases hp : item.2 with
  | none => exact h
  | some p =>
    simp only
    split_ifs with hdisabled hdup
    · exact h
    · exact h
    · refine addModule_inv item.1 h ⟨?_, Or.inl ⟨item.1, hitem p hp⟩⟩ hdup
      exact fun hd => hdisabled ((h.1.disabled_iff p.name).2 hd)

theorem initLoaded_inv {m : Manager} {pkgPath : String} {loader : ModuleLoader} {name : String}
    (hloader : ∀ p, loader.getModule name = some p → p.name = name ∧ Offered env registeredModules pkgs p)
    (h : Initializing env registeredModules pkgs modules m) :
    Initializing env registeredModules pkgs modules (initLoaded env pkgPath loader name m).2 := by
  unfold initLoaded
  split_ifs with hdisabled hdup
  · exact h
  · exact h
  · cases hp : loader.getModule name with
    | none => exact h
    | some p =>
      obtain ⟨rfl, hoffered⟩ := hloader p hp
      refine addModule_inv pkgPath h ⟨?_, hoffered⟩ hdup
      exact fun hd => hdisabled ((h.1.disabled_iff p.name).2 hd)

/-- A package only has modules that it selects. -/
theorem loadModules_offered {lib : DynamicLib} {pkg : PkgLoaderOptions} {names : List String}
    {loader loader' : ModuleLoader} (h : loadModules lib pkg names loader = some loader')
    (hloader : ∀ item ∈ loader.modulePtrMap, item.2.name = item.1 ∧ pkg.selects item.1 = true ∧
      lib.createModule item.1 = some item.2) :
    ∀ item ∈ loader'.modulePtrMap, item.2.name = item.1 ∧ pkg.selects item.1 = true ∧
      lib.createModule item.1 = some item.2 := by
  induction names generalizing loader with
  | nil =>
    obtain rfl : loader = loader' := Option.some.inj h
    exact hloader
  | cons name names ih =>
    rw [loadModules] at h
    split_ifs at h with hselect
    · cases hp : lib.createModule name with
      | none => simp [hp] at h
      | some p =>
        simp only [hp] at h
        split_ifs at h with hname
        refine ih h (List.forall_mem_append.2 ⟨hloader, List.forall_mem_singleton.2 ?_⟩)
        exact ⟨hname, hselect, hp⟩
    · exact ih h hloader

theorem loadLib_inv {m : Manager} {pkg : PkgLoaderOptions} (hpkg : pkg ∈ pkgs)
    (h : Initializing env registeredModules pkgs modules m) :
    Initializing env registeredModules pkgs modules (loadLib env pkg m).2 := by
  unfold loadLib
  cases hl : loadPkg (env.lib pkg.path) pkg with
  | none => exact h
  | some loader =>
    simp only
    split_ifs
    · exact h
    · obtain ⟨hload, hlive⟩ := h
      refine ⟨⟨hload.options, ?_, hload.registered, hload.state⟩,
        ⟨hlive.orderly, hlive.noShut, hlive.order, hlive.wrapper, hlive.fresh, hlive.running⟩⟩
      refine List.forall_mem_append.2 ⟨hload.loaders, List.forall_mem_singleton.2 ?_⟩
      intro name p hp
      have hmem : (name, p) ∈ loader.modulePtrMap := by
        obtain ⟨l₁, l₂, e, -⟩ := List.lookup_eq_some_iff.1 hp
        rw [e]
        simp
      unfold loadPkg at hl
      split at hl
      · cases hl
      · split_ifs at hl
        obtain ⟨hname, hselect, hcreate⟩ := loadModules_offered hl (by simp) _ hmem
        exact ⟨hname, Or.inr ⟨pkg, hpkg, hname ▸ hselect, hname ▸ hcreate⟩⟩

theorem orderly_nil : Orderly Enabled [] :=
  ⟨List.nodup_nil, List.nodup_nil, fun before p after e => by simp at e, by simp⟩

theorem initializeManager_live (configurator : Bool) :
    Live (EnabledModule env registeredModules pkgs modules)
      (initializeManager env pkgs modules (registered configurator registeredModules)).2 := by
  have hbefore : Live (EnabledModule env registeredModules pkgs modules)
      (registered configurator registeredModules) :=
    ⟨orderly_nil, rfl, rfl, fun p hp => absurd hp List.not_mem_nil, fun _ => rfl, by simp [registered]⟩
  unfold initializeManager
  split_ifs with hconf hstate
  · exact hbefore
  · exact absurd rfl hstate
  · have hstart : Initializing env registeredModules pkgs modules
        { registered configurator registeredModules with
          state := .init, pkgsOptions := pkgs, modulesOptions := modules } := by
      refine ⟨⟨⟨[], by simp, by simp⟩, fun item hitem => absurd hitem List.not_mem_nil, ?_, rfl⟩,
        ⟨orderly_nil, rfl, rfl, fun p hp => absurd hp List.not_mem_nil, fun _ => rfl, by simp⟩⟩
      intro item hitem p hp
      obtain ⟨⟨pkgPath, q⟩, hq, rfl⟩ := List.mem_map.1 hitem
      exact Option.some.inj hp ▸ hq
    refine (show Initializing env registeredModules pkgs modules _ from ?_).2
    refine Result.andThen_inv (Result.andThen_inv ?_ ?_) ?_
    · exact forEach_inv (fun pkg hpkg m hm => loadLib_inv hpkg hm) hstart
    · intro m hm
      exact forEach_inv (fun item hitem m' hm' => initRegistered_inv (hm.1.registered item hitem) hm') hm
    · intro m hm
      refine forEach_inv (fun item hitem m' hm' => ?_) hm
      have hitem := (env.loaderOrder_perm _).mem_iff.1 hitem
      exact forEach_inv (fun name _ m'' hm'' => initLoaded_inv (hm.1.loaders item hitem name) hm'') hm'

end Loading

/-! ### Start and shutdown -/

theorem Live.mem_order_iff {m : Manager} (h : Live Enabled m) {name : String} (hname : name ∈ m.moduleInitOrder) :
    ∃ p ∈ inited m.calls, p.name = name ∧
      ∃ w, m.moduleWrapperMap.lookup name = some w ∧ w.modulePtr = some p := by
  rw [h.order] at hname
  obtain ⟨p, hp, rfl⟩ := List.mem_map.1 hname
  exact ⟨p, hp, rfl, h.wrapper p hp⟩

/-- The loop of `Start`; the names that are left are not among those that were started. -/
theorem forEach_startModule_live {names : List String} {m : Manager} (h : Live Enabled m)
    (hstate : m.state ≠ .init) (hnames : ∀ n ∈ names, n ∈ m.moduleInitOrder)
    (hnodup : ((started m.calls).map ModuleBase.name ++ names).Nodup) :
    Live Enabled (forEach (startModule env) names m).2 := by
  induction names generalizing m with
  | nil => exact h
  | cons name names ih =>
    rw [List.forall_mem_cons] at hnames
    obtain ⟨p, hp, rfl, w, hw, hptr⟩ := h.mem_order_iff hnames.1
    have hnew : p.name ∉ (started m.calls).map ModuleBase.name := by
      intro hmem
      exact (List.nodup_append.1 hnodup).2.2 _ hmem _ List.mem_cons_self rfl
    have hlive : Live Enabled { m with calls := m.calls ++ [Call.start p] } := {
      orderly := h.orderly.start hp hnew
      noShut := by simpa using h.noShut
      order := by simpa using h.order
      wrapper := by simpa using h.wrapper
      fresh := fun hinit => absurd hinit hstate
      running := h.running }
    have hstep : startModule env p.name m = (env.start p, { m with calls := m.calls ++ [Call.start p] }) := by
      simp [startModule, hw, hptr]
    rw [forEach, hstep]
    cases env.start p with
    | false => exact hlive
    | true =>
      refine ih hlive hstate hnames.2 ?_
      rw [started_append_start, List.map_append, List.append_assoc]
      exact hnodup

theorem start_live {m : Manager} (h : Live Enabled m) : Live Enabled (start env m).2 := by
  have hstart : Live Enabled { m with state := .start } :=
    ⟨h.orderly, h.noShut, h.order, h.wrapper, by simp, by simp⟩
  unfold start
  split_ifs with hstate
  · exact hstart
  · refine forEach_startModule_live hstart (by simp) (fun n hn => hn) ?_
    have hfresh := h.fresh (not_not.1 hstate)
    simp only [hfresh, List.map_nil, List.nil_append, h.order]
    exact h.orderly.nodupInited

/-- The loop of `Shutdown`: the containers are not touched, and one module after the other is shut down. -/
theorem foldl_shutdownModule (ps : List ModuleBase) {m : Manager}
    (hps : ∀ p ∈ ps, ∃ w, m.moduleWrapperMap.lookup p.name = some w ∧ w.modulePtr = some p) :
    (ps.map ModuleBase.name).foldl shutdownModule m =
      { m with calls := m.calls ++ ps.map Call.shutdown } := by
  induction ps generalizing m with
  | nil => simp
  | cons p ps ih =>
    rw [List.forall_mem_cons] at hps
    obtain ⟨⟨w, hw, hptr⟩, hrest⟩ := hps
    have hstep : shutdownModule m p.name = { m with calls := m.calls ++ [Call.shutdown p] } := by
      simp [shutdownModule, hw, hptr]
    have hrun := ih (m := { m with calls := m.calls ++ [Call.shutdown p] }) hrest
    rw [List.map_cons, List.foldl_cons, hstep, hrun, List.map_cons, List.append_assoc, List.singleton_append]

theorem Orderly.shutdowns {calls : List Call} (h : Orderly Enabled calls) (ps : List ModuleBase)
    (hps : ∀ p ∈ ps, p ∈ inited calls) :
    Orderly Enabled (calls ++ ps.map Call.shutdown) ∧ inited (calls ++ ps.map Call.shutdown) = inited calls ∧
      shut (calls ++ ps.map Call.shutdown) = shut calls ++ ps := by
  induction ps generalizing calls with
  | nil => simpa using h
  | cons p ps ih =>
    rw [List.forall_mem_cons] at hps
    obtain ⟨horderly, hinited, hshut⟩ := ih (h.shutdown hps.1) (by simpa using hps.2)
    rw [List.append_assoc, List.singleton_append, ← List.map_cons] at horderly hinited hshut
    refine ⟨horderly, hinited.trans (by simp), hshut.trans (by simp)⟩

theorem shutdown_done {m : Manager} (h : Live Enabled m) : Done Enabled (shutdown m) := by
  have hloop : ((inited m.calls).reverse.map ModuleBase.name).foldl shutdownModule { m with state := .shutdown } =
      { m with state := .shutdown, calls := m.calls ++ (inited m.calls).reverse.map Call.shutdown } :=
    foldl_shutdownModule _ fun p hp => h.wrapper p (List.mem_reverse.1 hp)
  rw [List.map_reverse, ← h.order] at hloop
  obtain ⟨horderly, hinited, hshut⟩ := h.orderly.shutdowns (inited m.calls).reverse
    fun p hp => List.mem_reverse.1 hp
  unfold shutdown
  rw [if_neg h.running, hloop]
  refine ⟨horderly, ?_, rfl, by simp⟩
  rw [hshut, hinited, h.noShut, List.nil_append]

theorem Done.start {m : Manager} (h : Done Enabled m) : Done Enabled (start env m).2 := by
  rw [ModuleManager.start, if_pos h.state]
  exact ⟨h.orderly, h.allShut, h.order, by simp⟩

theorem Done.shutdown {m : Manager} (h : Done Enabled m) : Done Enabled (shutdown m) := by
  unfold ModuleManager.shutdown
  split_ifs with hstate
  · exact h
  · rw [h.order]
    exact ⟨h.orderly, h.allShut, rfl, by simp⟩

theorem run_done {m : Manager} (h : Done Enabled m) (ops : List Op) : Done Enabled (ops.foldl (step env) m) := by
  induction ops generalizing m with
  | nil => exact h
  | cons op ops ih =>
    cases op with
    | start => exact ih h.start
    | shutdown => exact ih h.shutdown

theorem run_cases {m : Manager} (h : Live Enabled m) (ops : List Op) :
    (Op.shutdown ∉ ops → Live Enabled (ops.foldl (step env) m)) ∧
      (Op.shutdown ∈ ops → Done Enabled (ops.foldl (step env) m)) := by
  induction ops generalizing m with
  | nil => exact ⟨fun _ => h, fun hmem => absurd hmem List.not_mem_nil⟩
  | cons op ops ih =>
    cases op with
    | start =>
      obtain ⟨hlive, hdone⟩ := ih (start_live h)
      refine ⟨fun hnot => hlive fun hmem => hnot (List.mem_cons_of_mem _ hmem), fun hmem => hdone ?_⟩
      rcases List.mem_cons.1 hmem with e | hmem
      · cases e
      · exact hmem
    | shutdown => exact ⟨fun hnot => absurd List.mem_cons_self hnot, fun _ => run_done (shutdown_done h) ops⟩

/-- **The lifecycle of the modules.**  Wherever `Initialize` and `Start` are stopped, and whatever calls of
`Start` and `Shutdown` follow: a shutdown shuts down the modules whose `initialize` returned true, each once,
in the opposite order; no module is started twice or before it is initialized; and none is called that the
configuration disables. -/
theorem lifecycle (env : Env) (configurator : Bool) (registeredModules : List (String × ModuleBase))
    (pkgs : List PkgLoaderOptions) (modules : List ModuleOptions) (ops : List Op) :
    let calls := (run env configurator registeredModules pkgs modules ops).calls
    shut calls = (if Op.shutdown ∈ ops then (inited calls).reverse else []) ∧ (inited calls).Nodup ∧
      (started calls).Nodup ∧ StartedAfterInit calls ∧
      ∀ c ∈ calls, ¬Disabled modules c.module.name ∧ Offered env registeredModules pkgs c.module := by
  intro calls
  have hinit : Live (EnabledModule env registeredModules pkgs modules)
      (initializeManager env pkgs modules (registered configurator registeredModules)).2 :=
    initializeManager_live configurator
  obtain ⟨hlive, hdone⟩ := run_cases hinit ops
  have horderly : Orderly (EnabledModule env registeredModules pkgs modules) calls := by
    by_cases hmem : Op.shutdown ∈ ops
    · exact (hdone hmem).orderly
    · exact (hlive hmem).orderly
  refine ⟨?_, horderly.nodupInited.of_map, horderly.nodupStarted.of_map, horderly.after, horderly.enabled⟩
  split_ifs with hmem
  · exact (hdone hmem).allShut
  · exact (hlive hmem).noShut

end AimRT.Core.ModuleManager
