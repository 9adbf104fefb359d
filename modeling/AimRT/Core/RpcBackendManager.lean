import AimRT.Core.BackendRules
import AimRT.Core.FilterChain

/-!
# The rpc backend manager

`Invoke` sends a call through the filters of its function to one backend.  The backends of a function
are looked up by the rules when a client of it is registered; which of them gets the call is decided
behind the filters, by the address in the context.

Filters and backends are programs.  A filter hands a call on, with a callback of its own if it likes, or
completes it; a backend completes it.  So whatever is completed ends in the callback of the user.
-/

namespace AimRT.Core

open AimRT.Lib AimRT.Lib.Chain AimRT.Util AimRT.Rpc

variable {A : Type}

/-! ### The manager -/

/-- What the manager does with a call: it calls a backend, or the callback of the wrapper because there
is none, with the address of the call; or the callback of the user. -/
inductive RpcEvent where
  | invoke (backend : ℕ) (toAddr : Bytes)
  | invokeCallBack (status : Status) (toAddr : Bytes)
  | callback (status : Status)
  deriving DecidableEq, Repr

/-- The acts of the manager, and those of filters and backends. -/
abbrev RpcAct (A : Type) := RpcEvent ⊕ A

/-- The events among the acts. -/
def rpcEvent : RpcAct A → Option RpcEvent := Sum.getLeft?

structure RpcBackend (A : Type) where
  name : Bytes
  registerClientFunc : FuncInfo → Bool
  invoke : Handler (InvokeWrapper (RpcAct A)) Unit (RpcAct A)

/-- `RpcRegistry::Key`. -/
structure FuncKey where
  funcName : Bytes
  pkgPath : Bytes
  moduleName : Bytes
  deriving DecidableEq, Repr

def FuncInfo.key (info : FuncInfo) : FuncKey := ⟨info.funcName, info.pkgPath, info.moduleName⟩

/-- `RegisterClientFuncProxyInfoWrapper`; a type support may be null. -/
structure RegisterClientFuncProxyInfoWrapper where
  info : FuncInfo
  reqTypeSupport : Bool
  rspTypeSupport : Bool

structure InvokeProxyInfoWrapper where
  key : FuncKey
  ctx : RpcContext
  reqPtr : ℕ
  rspPtr : ℕ

/-- What becomes of a call: an exception, the callback of the user at once, or a chain of filters. -/
inductive Invocation (A : Type) : Type
  | thrown
  | completed (status : Status)
  | filtered (c : FrameworkAsyncRpcFilterCollector (RpcAct A))
      (h : Handler (InvokeWrapper (RpcAct A)) Unit (RpcAct A)) (w : InvokeWrapper (RpcAct A))

structure RpcBackendManager (A : Type) where
  state : State
  clientFilterManager : FrameworkAsyncRpcFilterManager (RpcAct A)
  clientsFiltersRules : Rules
  clientsBackendsRules : Rules
  rpcBackendIndexVec : List (RpcBackend A)
  rpcBackendIndexMap : AList fun _ : Bytes => ℕ
  /-- The clients of the registry. -/
  clientFuncWrapperMap : AList fun _ : FuncKey => FuncInfo
  clientsBackendIndexMap : AList fun _ : Bytes => List ℕ
  requestIdMap : AList fun _ : Bytes => UInt32

def RpcContext.getMetaValue (ctx : RpcContext) (key : Bytes) : Bytes := ctx.metaData.getMetaValue key

def RpcContext.setMetaValue (ctx : RpcContext) (key val : Bytes) : RpcContext :=
  { ctx with metaData := ctx.metaData.setMetaValue key val }

def RpcContext.getToAddr (ctx : RpcContext) : Bytes := ctx.getMetaValue kToAddr

/-- What is before the first `://`. -/
def addrBackend : Bytes → Option Bytes
  | 58 :: 47 :: 47 :: _ => some []
  | b :: bs => (addrBackend bs).map (b :: ·)
  | [] => none

namespace RpcBackendManager

def new : RpcBackendManager A := ⟨.preInit, FilterManager.new, [], [], [], ∅, ∅, ∅, ∅⟩

def backendNames (m : RpcBackendManager A) : List Bytes := m.rpcBackendIndexVec.map RpcBackend.name

/-! ### Configuration -/

/-- The methods that throw when the state is not `PreInit`. -/
def inPreInit (m m' : RpcBackendManager A) : RpcBackendManager A := if m.state = .preInit then m' else m

def setClientsFiltersRules (m : RpcBackendManager A) (rules : Rules) : RpcBackendManager A :=
  m.inPreInit { m with clientsFiltersRules := rules }

def setClientsBackendsRules (m : RpcBackendManager A) (rules : Rules) : RpcBackendManager A :=
  m.inPreInit { m with clientsBackendsRules := rules }

def registerRpcBackend (m : RpcBackendManager A) (backend : RpcBackend A) : RpcBackendManager A :=
  let rpcBackendIndexMap :=
    Table.emplace m.rpcBackendIndexMap backend.name m.rpcBackendIndexVec.length
  m.inPreInit { m with rpcBackendIndexVec := m.rpcBackendIndexVec ++ [backend], rpcBackendIndexMap }

/-- `RpcManager::RegisterClientFilter`. -/
def registerClientFilter (m : RpcBackendManager A) (name : Bytes)
    (filter : Filter (InvokeWrapper (RpcAct A)) Unit (RpcAct A)) : RpcBackendManager A :=
  m.inPreInit { m with clientFilterManager := (m.clientFilterManager.registerFilter name filter).1 }

/-- `Initialize`; `atomic_exchange` sets the state also where a method throws. -/
def initManager (m : RpcBackendManager A) : RpcBackendManager A := { m with state := .init }

def start (m : RpcBackendManager A) : RpcBackendManager A := { m with state := .start }

def shutdown (m : RpcBackendManager A) : RpcBackendManager A := { m with state := .shutdown }

/-! ### Registration and calls -/

section

variable (regexMatch : RegexMatch)

def registerClientFunc (m : RpcBackendManager A) (wrapper : RegisterClientFuncProxyInfoWrapper) :
    RpcBackendManager A × Except FilterError Bool :=
  let info := wrapper.info
  let funcName := info.funcName
  if m.state ≠ .init then (m, .ok false)
  else if !wrapper.reqTypeSupport || !wrapper.rspTypeSupport then (m, .ok false)
  else
    let m := { m with requestIdMap := Table.emplace m.requestIdMap funcName 0 }
    let filterNameVec := getFilterRules regexMatch funcName m.clientsFiltersRules
    let (clientFilterManager, created) :=
      m.clientFilterManager.createFilterCollectorIfNotExist funcName filterNameVec
    let m := { m with clientFilterManager }
    match created with
    | .error e => (m, .error e)
    | .ok () =>
      match m.clientFuncWrapperMap.lookup info.key with
      | some _ => (m, .ok false)
      | none =>
        let clientFuncWrapperMap := m.clientFuncWrapperMap.insert info.key info
        let clientsBackendIndexMap := Table.emplace m.clientsBackendIndexMap funcName
          (getBackendsByRules regexMatch m.backendNames funcName m.clientsBackendsRules)
        let backends := (clientsBackendIndexMap.lookup funcName).getD []
        let ret := (backends.filterMap (m.rpcBackendIndexVec[·]?)).all fun b => b.registerClientFunc info
        ({ m with clientFuncWrapperMap, clientsBackendIndexMap }, .ok ret)

end

/-- `InvokeCallBack`. -/
def invokeCallBack (w : InvokeWrapper (RpcAct A)) (status : Status) : Prog Empty Unit (RpcAct A) :=
  .act (.inl (.invokeCallBack status w.ctx.getToAddr)) (w.callback status)

/-- `backend_ptr->Invoke`. -/
def invokeBackend (m : RpcBackendManager A) (i : ℕ) (w : InvokeWrapper (RpcAct A)) :
    Prog Empty Unit (RpcAct A) :=
  match m.rpcBackendIndexVec[i]? with
  | none => .ret ()
  | some backend => .act (.inl (.invoke i w.ctx.getToAddr)) (backend.invoke w)

/-- The choice of the backend, in the lambda of `Invoke`. -/
def route (m : RpcBackendManager A) (w : InvokeWrapper (RpcAct A)) : Prog Empty Unit (RpcAct A) :=
  match m.clientsBackendIndexMap.lookup w.info.funcName with
  | none => invokeCallBack w .cliNoBackendToHandle
  | some [] => invokeCallBack w .cliNoBackendToHandle
  | some (backend :: backends) =>
    let toAddr := w.ctx.getToAddr
    if toAddr ≠ [] then
      match (addrBackend toAddr).bind m.rpcBackendIndexMap.lookup with
      | none => invokeCallBack w .cliInvalidAddr
      | some i =>
        if i ∈ backend :: backends then m.invokeBackend i w else invokeCallBack w .cliInvalidAddr
    else
      let name := (m.backendNames[backend]?).getD []
      m.invokeBackend backend { w with ctx := w.ctx.setMetaValue kBackend name }

/-- The lambda of `Invoke`, behind the filters. -/
def handle (m : RpcBackendManager A) : Handler (InvokeWrapper (RpcAct A)) Unit (RpcAct A) := fun w =>
  let timeoutNs := if w.ctx.timeoutNs = 0 then 5000000000 else w.ctx.timeoutNs
  m.route { w with ctx := { w.ctx with timeoutNs } }

/-- The request id that `Invoke` puts into the context. -/
def setRequestId (m : RpcBackendManager A) (funcName : Bytes) (ctx : RpcContext) :
    RpcBackendManager A × RpcContext :=
  match m.requestIdMap.lookup funcName with
  | none => (m, ctx)
  | some id => ({ m with requestIdMap := m.requestIdMap.insert funcName (id + 1) },
    ctx.setMetaValue kRequestId (ascii (toString (id + 1).toNat)))

/-- The serialization type that `Invoke` puts into a context without one. -/
def setSerializationType (info : FuncInfo) (ctx : RpcContext) : RpcContext :=
  if ctx.getMetaValue kSerializationType = [] then
    ctx.setMetaValue kSerializationType (info.reqSerializationTypes.headD [])
  else ctx

/-- `Invoke`, with what becomes of the context before the call is sent. -/
def invoke (m : RpcBackendManager A) (wrapper : InvokeProxyInfoWrapper) :
    RpcBackendManager A × RpcContext × Invocation A :=
  let funcName := wrapper.key.funcName
  if m.state ≠ .start then (m, wrapper.ctx, .thrown)
  else
    match m.clientFuncWrapperMap.lookup wrapper.key with
    | none => (m, wrapper.ctx, .completed .cliFuncNotRegistered)
    | some info =>
      if wrapper.ctx.type ≠ .client || wrapper.ctx.used then
        (m, wrapper.ctx, .completed .cliInvalidContext)
      else
        let (m, ctx) := m.setRequestId funcName { wrapper.ctx with used := true }
        let ctx := setSerializationType info ctx
        let callback := fun status => .act (.inl (.callback status)) (.ret ())
        (m, ctx, .filtered (m.clientFilterManager.getFilterCollector funcName) m.handle
          ⟨info, wrapper.reqPtr, wrapper.rspPtr, ctx, callback⟩)

/-! ### Runs of the manager -/

inductive Op (A : Type) : Type
  | setClientsFiltersRules (rules : Rules)
  | setClientsBackendsRules (rules : Rules)
  | registerRpcBackend (backend : RpcBackend A)
  | registerClientFilter (name : Bytes) (filter : Filter (InvokeWrapper (RpcAct A)) Unit (RpcAct A))
  | initManager
  | start
  | shutdown
  | registerClientFunc (wrapper : RegisterClientFuncProxyInfoWrapper)
  | invoke (wrapper : InvokeProxyInfoWrapper)

def step (regexMatch : RegexMatch) (m : RpcBackendManager A) : Op A → RpcBackendManager A
  | .setClientsFiltersRules rules => m.setClientsFiltersRules rules
  | .setClientsBackendsRules rules => m.setClientsBackendsRules rules
  | .registerRpcBackend backend => m.registerRpcBackend backend
  | .registerClientFilter name filter => m.registerClientFilter name filter
  | .initManager => m.initManager
  | .start => m.start
  | .shutdown => m.shutdown
  | .registerClientFunc wrapper => (m.registerClientFunc regexMatch wrapper).1
  | .invoke wrapper => (m.invoke wrapper).1

def run (regexMatch : RegexMatch) (ops : List (Op A)) : RpcBackendManager A :=
  ops.foldl (step regexMatch) new

/-- **The invariant of the manager**: the backends of a function are those of the rules, and every
registered function has an entry. -/
structure Inv (regexMatch : RegexMatch) (m : RpcBackendManager A) : Prop where
  indexMap : ∀ name, m.rpcBackendIndexMap.lookup name = findBackend m.backendNames name
  backends : ∀ {funcName l}, m.clientsBackendIndexMap.lookup funcName = some l →
    l = getBackendsByRules regexMatch m.backendNames funcName m.clientsBackendsRules
  registered : ∀ {key info}, m.clientFuncWrapperMap.lookup key = some info →
    info.key = key ∧ ∃ l, m.clientsBackendIndexMap.lookup key.funcName = some l
  preInit : m.state = .preInit → m.clientsBackendIndexMap = ∅
  filters : m.clientFilterManager.Sound

variable {regexMatch : RegexMatch} {m : RpcBackendManager A}

theorem new_inv : Inv regexMatch (new : RpcBackendManager A) where
  indexMap := fun _ => rfl
  backends := fun h => by cases h
  registered := fun h => by cases h
  preInit := fun _ => rfl
  filters := FilterManager.new_sound

theorem Inv.setClientsBackendsRules (hm : m.Inv regexMatch) (rules : Rules) :
    (m.setClientsBackendsRules rules).Inv regexMatch := by
  unfold RpcBackendManager.setClientsBackendsRules inPreInit
  split
  next hstate =>
    refine ⟨hm.indexMap, fun h => ?_, hm.registered, hm.preInit, hm.filters⟩
    rw [hm.preInit hstate] at h
    cases h
  · exact hm

theorem Inv.registerRpcBackend (hm : m.Inv regexMatch) (backend : RpcBackend A) :
    (m.registerRpcBackend backend).Inv regexMatch := by
  unfold RpcBackendManager.registerRpcBackend inPreInit
  split
  next hstate =>
    refine ⟨fun name => ?_, fun h => ?_, hm.registered, hm.preInit, hm.filters⟩
    · have hname := hm.indexMap name
      have hlen : m.backendNames.length = m.rpcBackendIndexVec.length := by simp [backendNames]
      simp only [findBackend, backendNames, List.map_append, List.map_cons, List.map_nil,
        List.findIdx?_append] at hname ⊢
      cases hold : (m.rpcBackendIndexVec.map RpcBackend.name).findIdx? (· == name) with
      | some i =>
        rw [hold] at hname
        rw [Table.lookup_emplace_of_lookup hname]
        rfl
      | none =>
        rw [hold] at hname
        by_cases hb : backend.name = name
        · subst hb
          rw [Table.lookup_emplace hname]
          simp
        · have hnone : (Table.emplace m.rpcBackendIndexMap backend.name
              m.rpcBackendIndexVec.length).lookup name = none := by
            refine Option.eq_none_iff_forall_ne_some.2 fun i hi => ?_
            rcases Table.lookup_emplace_cases hi with hi | ⟨e, -⟩
            · rw [hname] at hi
              cases hi
            · exact hb e.symm
          rw [hnone]
          simp [hb]
    · rw [hm.preInit hstate] at h
      cases h
  · exact hm

/-- What `RegisterClientFunc` changes. -/
theorem registerClientFunc_cases (regexMatch : RegexMatch) (hm : m.clientFilterManager.Sound)
    (wrapper : RegisterClientFuncProxyInfoWrapper) :
    ∃ clientFilterManager requestIdMap, clientFilterManager.Sound ∧
      clientFilterManager.filterMap = m.clientFilterManager.filterMap ∧
      ((m.registerClientFunc regexMatch wrapper).1 = { m with clientFilterManager, requestIdMap } ∨
        m.state = .init ∧ m.clientFuncWrapperMap.lookup wrapper.info.key = none ∧
        (m.registerClientFunc regexMatch wrapper).1 = { m with
          clientFilterManager
          requestIdMap
          clientFuncWrapperMap := m.clientFuncWrapperMap.insert wrapper.info.key wrapper.info
          clientsBackendIndexMap := Table.emplace m.clientsBackendIndexMap wrapper.info.funcName
            (getBackendsByRules regexMatch m.backendNames wrapper.info.funcName
              m.clientsBackendsRules) }) := by
  have hcreate := FilterManager.createFilterCollectorIfNotExist_sound hm wrapper.info.funcName
    (getFilterRules regexMatch wrapper.info.funcName m.clientsFiltersRules)
  unfold registerClientFunc
  by_cases hstate : m.state = .init
  · rw [if_neg (not_not_intro hstate)]
    split
    · exact ⟨_, m.requestIdMap, hm, rfl, Or.inl rfl⟩
    · refine ⟨_, Table.emplace m.requestIdMap wrapper.info.funcName 0, hcreate.1, hcreate.2, ?_⟩
      dsimp only
      split
      · exact Or.inl rfl
      · split
        · exact Or.inl rfl
        next hfree => exact Or.inr ⟨hstate, hfree, rfl⟩
  · rw [if_pos hstate]
    exact ⟨_, m.requestIdMap, hm, rfl, Or.inl rfl⟩

theorem Inv.registerClientFunc (hm : m.Inv regexMatch) (wrapper : RegisterClientFuncProxyInfoWrapper) :
    (m.registerClientFunc regexMatch wrapper).1.Inv regexMatch := by
  obtain ⟨fm, ids, hfm, -, e | ⟨hstate, hfree, e⟩⟩ :=
    registerClientFunc_cases regexMatch hm.filters wrapper
  · rw [e]
    exact ⟨hm.indexMap, hm.backends, hm.registered, hm.preInit, hfm⟩
  · rw [e]
    refine ⟨hm.indexMap, fun {funcName l} hl => ?_, fun {key info} hinfo => ?_, fun h => ?_, hfm⟩
    · rcases Table.lookup_emplace_cases hl with hl | ⟨rfl, rfl, -⟩
      · exact hm.backends hl
      · rfl
    · -- the entry of a function is made with its first client, and kept
      have hentry : ∀ {funcName l}, m.clientsBackendIndexMap.lookup funcName = some l →
          ∃ l, (Table.emplace m.clientsBackendIndexMap wrapper.info.funcName
            (getBackendsByRules regexMatch m.backendNames wrapper.info.funcName
              m.clientsBackendsRules)).lookup funcName = some l :=
        fun hl => ⟨_, Table.lookup_emplace_of_lookup hl⟩
      by_cases hkey : key = wrapper.info.key
      · subst hkey
        obtain rfl : wrapper.info = info := by simpa using hinfo
        refine ⟨rfl, ?_⟩
        cases hl : m.clientsBackendIndexMap.lookup wrapper.info.funcName with
        | some l => exact hentry hl
        | none => exact ⟨_, Table.lookup_emplace hl⟩
      · have hinfo : m.clientFuncWrapperMap.lookup key = some info := by
          simpa [AList.lookup_insert_ne hkey] using hinfo
        obtain ⟨e, l, hl⟩ := hm.registered hinfo
        exact ⟨e, hentry hl⟩
    · cases hstate.symm.trans h

theorem setRequestId_fst (m : RpcBackendManager A) (funcName : Bytes) (ctx : RpcContext) :
    ∃ requestIdMap, (m.setRequestId funcName ctx).1 = { m with requestIdMap } := by
  unfold setRequestId
  split
  · exact ⟨_, rfl⟩
  · exact ⟨_, rfl⟩

theorem invoke_fst (m : RpcBackendManager A) (wrapper : InvokeProxyInfoWrapper) :
    ∃ requestIdMap, (m.invoke wrapper).1 = { m with requestIdMap } := by
  unfold invoke
  split
  · exact ⟨_, rfl⟩
  · split
    · exact ⟨_, rfl⟩
    · split
      · exact ⟨_, rfl⟩
      · exact m.setRequestId_fst _ _

/-- **One step keeps the invariant.** -/
theorem Inv.step (hm : m.Inv regexMatch) (op : Op A) : (m.step regexMatch op).Inv regexMatch := by
  cases op with
  | setClientsFiltersRules rules =>
    simp only [RpcBackendManager.step, setClientsFiltersRules, inPreInit]
    split
    · exact ⟨hm.indexMap, hm.backends, hm.registered, hm.preInit, hm.filters⟩
    · exact hm
  | setClientsBackendsRules rules => exact hm.setClientsBackendsRules rules
  | registerRpcBackend backend => exact hm.registerRpcBackend backend
  | registerClientFilter name filter =>
    simp only [RpcBackendManager.step, registerClientFilter, inPreInit]
    split
    · exact ⟨hm.indexMap, hm.backends, hm.registered, hm.preInit, hm.filters.registerFilter name filter⟩
    · exact hm
  | initManager => exact ⟨hm.indexMap, hm.backends, hm.registered, fun h => (by cases h), hm.filters⟩
  | start => exact ⟨hm.indexMap, hm.backends, hm.registered, fun h => (by cases h), hm.filters⟩
  | shutdown => exact ⟨hm.indexMap, hm.backends, hm.registered, fun h => (by cases h), hm.filters⟩
  | registerClientFunc wrapper => exact hm.registerClientFunc wrapper
  | invoke wrapper =>
    obtain ⟨ids, e⟩ := m.invoke_fst wrapper
    simp only [RpcBackendManager.step, e]
    exact ⟨hm.indexMap, hm.backends, hm.registered, hm.preInit, hm.filters⟩

theorem run_inv (ops : List (Op A)) : (run regexMatch ops).Inv regexMatch := by
  have hfold : ∀ m : RpcBackendManager A, m.Inv regexMatch →
      (ops.foldl (RpcBackendManager.step regexMatch) m).Inv regexMatch := by
    induction ops with
    | nil => exact fun m hm => hm
    | cons op ops ih => exact fun m hm => ih _ (hm.step op)
  exact hfold _ new_inv

end RpcBackendManager

/-! ### Addresses -/

/-- `name` is the part of an address before its first `://`. -/
def Names (toAddr name : Bytes) : Prop :=
  (∃ rest, toAddr = name ++ ascii "://" ++ rest) ∧
    ∀ name' rest', toAddr = name' ++ ascii "://" ++ rest' → name.length ≤ name'.length

theorem Names.unique {toAddr name name' : Bytes} (h : Names toAddr name) (h' : Names toAddr name') :
    name = name' := by
  obtain ⟨⟨rest, e⟩, hmin⟩ := h
  obtain ⟨⟨rest', e'⟩, hmin'⟩ := h'
  have hlen : name.length = name'.length := le_antisymm (hmin _ _ e') (hmin' _ _ e)
  rw [e, List.append_assoc, List.append_assoc] at e'
  exact (List.append_inj e' hlen).1

theorem ascii_scheme : ascii "://" = [58, 47, 47] := by decide

theorem addrBackend_names {toAddr name : Bytes} (h : addrBackend toAddr = some name) :
    Names toAddr name := by
  induction toAddr using addrBackend.induct generalizing name with
  | case1 rest =>
    obtain rfl := Option.some.inj h
    exact ⟨⟨rest, by rw [ascii_scheme]; rfl⟩, fun name' rest' e => Nat.zero_le _⟩
  | case2 b bs hne ih =>
    rw [addrBackend.eq_2 b bs hne, Option.map_eq_some_iff] at h
    obtain ⟨name, hname, rfl⟩ := h
    obtain ⟨⟨rest, rfl⟩, hmin⟩ := ih hname
    refine ⟨⟨rest, rfl⟩, fun name' rest' e => ?_⟩
    cases name' with
    | nil =>
      rw [ascii_scheme] at e hne
      obtain ⟨hb, hbs⟩ := List.cons.inj e
      exact (hne _ hb hbs).elim
    | cons b' name' => exact Nat.succ_le_succ (hmin name' rest' (List.cons.inj e).2)
  | case3 => cases h

theorem addrBackend_ne_none (name rest : Bytes) : addrBackend (name ++ ascii "://" ++ rest) ≠ none := by
  rw [ascii_scheme]
  induction name with
  | nil => simp [addrBackend]
  | cons b name ih =>
    rw [List.cons_append, List.cons_append, addrBackend.eq_def]
    split
    · simp
    next b' bs _ e =>
      obtain ⟨-, rfl⟩ := List.cons.inj e
      simpa using ih
    next e => cases e

theorem addrBackend_eq_some {toAddr name : Bytes} : addrBackend toAddr = some name ↔ Names toAddr name := by
  refine ⟨addrBackend_names, fun h => ?_⟩
  cases hname : addrBackend toAddr with
  | some name' => rw [(addrBackend_names hname).unique h]
  | none =>
    obtain ⟨⟨rest, rfl⟩, -⟩ := h
    exact (addrBackend_ne_none name rest hname).elim

/-! ### What a call does -/

section Routing

variable {m : RpcBackendManager A} {regexMatch : RegexMatch} {listed : List ℕ} {addrs : Set Bytes}
  {C : Set (List RpcEvent)}

/-- **What the manager may do with a call** whose address is one of `addrs`: send it to the first backend
that is listed, or to the one that the address names, and refuse it otherwise. -/
inductive Routed (names : List Bytes) (listed : List ℕ) (addrs : Set Bytes) : RpcEvent → Prop
  | first {i : ℕ} : [] ∈ addrs → listed.head? = some i → Routed names listed addrs (.invoke i [])
  | named {i : ℕ} {toAddr name : Bytes} : toAddr ∈ addrs → toAddr ≠ [] → Names toAddr name →
    i ∈ listed → names[i]? = some name → Routed names listed addrs (.invoke i toAddr)
  | noBackend {toAddr : Bytes} : toAddr ∈ addrs → listed = [] →
    Routed names listed addrs (.invokeCallBack .cliNoBackendToHandle toAddr)
  | invalidAddr {toAddr : Bytes} : toAddr ∈ addrs → toAddr ≠ [] → listed ≠ [] →
    (∀ i ∈ listed, ∀ name, names[i]? = some name → ¬Names toAddr name) →
    Routed names listed addrs (.invokeCallBack .cliInvalidAddr toAddr)

/-- Whatever the status, the callback leaves a word of `C`. -/
def Completion (w : InvokeWrapper (RpcAct A)) (C : Set (List RpcEvent)) : Prop :=
  ∀ status, (w.callback status).Emits (acts rpcEvent) C

/-- A backend calls the callback of a call once. -/
def CompletesOnce (h : Handler (InvokeWrapper (RpcAct A)) Unit (RpcAct A)) : Prop :=
  ∀ w C, Completion w C → (h w).Emits (acts rpcEvent) C

/-- A filter calls its continuation at most once, and the callback of the call once if it does not.  The
callback it hands on calls that of the call once; the address it leaves is one of `addrs`. -/
def PassesOrCompletes (addrs : Set Bytes) (f : Filter (InvokeWrapper (RpcAct A)) Unit (RpcAct A)) :
    Prop :=
  (∀ w, (f w).CallsAtMostOnce) ∧ ∀ w C, w.ctx.getToAddr ∈ addrs → Completion w C →
    (f w).Emits (passes rpcEvent) {l | (∃ u ∈ C, l = u.map .inl) ∨
      ∃ w', w'.info = w.info ∧ w'.ctx.getToAddr ∈ addrs ∧ Completion w' C ∧ l = [.inr w']}

/-- The words of `C`, or one of them behind an event of `E`. -/
def orBehind (E : RpcEvent → Prop) (C : Set (List RpcEvent)) : Set (List RpcEvent) :=
  {l | ∃ c ∈ C, l = c ∨ ∃ e, E e ∧ l = e :: c}

theorem emits_event {E : RpcEvent → Prop} {e : RpcEvent} {p : Prog Empty Unit (RpcAct A)} (he : E e)
    (hp : p.Emits (acts rpcEvent) C) :
    Prog.Emits (acts rpcEvent) (orBehind E C) (.act (.inl e) p) :=
  hp.mono fun c hc => ⟨c, hc, Or.inr ⟨e, he, rfl⟩⟩

theorem nest_routed {info : FuncInfo} {E : RpcEvent → Prop}
    {fs : List (Filter (InvokeWrapper (RpcAct A)) Unit (RpcAct A))}
    {h : Handler (InvokeWrapper (RpcAct A)) Unit (RpcAct A)} (hfs : ∀ f ∈ fs, PassesOrCompletes addrs f)
    (hh : ∀ w C, w.info = info → w.ctx.getToAddr ∈ addrs → Completion w C →
      (h w).Emits (acts rpcEvent) (orBehind E C)) :
    ∀ w C, w.info = info → w.ctx.getToAddr ∈ addrs → Completion w C →
      (nest h fs w).Emits (acts rpcEvent) (orBehind E C) := by
  induction fs with
  | nil => exact hh
  | cons f fs ih =>
    rw [List.forall_mem_cons] at hfs
    intro w C hinfo haddr hw
    refine Prog.Emits.calling ((hfs.1.2 w C haddr hw).mono ?_)
    rintro l (⟨u, hu, rfl⟩ | ⟨w', hinfo', haddr', hw', rfl⟩)
    · exact Or.inl ⟨u, ⟨u, hu, Or.inl rfl⟩, rfl⟩
    · exact Or.inr ⟨[], w', ih hfs.2 w' C (hinfo'.trans hinfo) haddr' hw', rfl⟩

theorem getToAddr_setMetaValue {ctx : RpcContext} {key val : Bytes} (hkey : key ≠ kToAddr) :
    (ctx.setMetaValue key val).getToAddr = ctx.getToAddr := by
  simp only [RpcContext.getToAddr, RpcContext.getMetaValue, RpcContext.setMetaValue,
    Context.getMetaValue, Context.setMetaValue, AList.lookup_insert_ne hkey.symm]

namespace RpcBackendManager

theorem getToAddr_setRequestId (m : RpcBackendManager A) (funcName : Bytes) (ctx : RpcContext) :
    (m.setRequestId funcName ctx).2.getToAddr = ctx.getToAddr := by
  unfold setRequestId
  split
  · rfl
  · exact getToAddr_setMetaValue (by decide)

theorem getToAddr_setSerializationType (info : FuncInfo) (ctx : RpcContext) :
    (setSerializationType info ctx).getToAddr = ctx.getToAddr := by
  unfold setSerializationType
  split
  · exact getToAddr_setMetaValue (by decide)
  · rfl

/-- A listed backend has the name under which it is found. -/
theorem Inv.listed_backend (hm : m.Inv regexMatch) {funcName : Bytes}
    (hl : Listed regexMatch m.backendNames funcName m.clientsBackendsRules listed) {i : ℕ} (hi : i ∈ listed) :
    ∃ backend, m.rpcBackendIndexVec[i]? = some backend ∧ m.backendNames[i]? = some backend.name ∧
      m.rpcBackendIndexMap.lookup backend.name = some i := by
  obtain ⟨name, hname⟩ := hl.exists_name hi
  have hbackend := findBackend_eq_some hname
  obtain ⟨backend, hvec, rfl⟩ : ∃ backend, m.rpcBackendIndexVec[i]? = some backend ∧
      backend.name = name := by
    simpa [backendNames] using hbackend
  exact ⟨backend, hvec, hbackend, (hm.indexMap _).trans hname⟩

theorem Inv.exists_listed (hm : m.Inv regexMatch) {funcName : Bytes} {l : List ℕ}
    (hl : m.clientsBackendIndexMap.lookup funcName = some l) :
    Listed regexMatch m.backendNames funcName m.clientsBackendsRules l := by
  rw [hm.backends hl]
  exact listed_getBackendsByRules

theorem invokeBackend_emits (hbackends : ∀ b ∈ m.rpcBackendIndexVec, CompletesOnce b.invoke) {i : ℕ}
    {backend : RpcBackend A} (hi : m.rpcBackendIndexVec[i]? = some backend)
    {w : InvokeWrapper (RpcAct A)} {E : RpcEvent → Prop} (he : E (.invoke i w.ctx.getToAddr))
    (hw : Completion w C) : (m.invokeBackend i w).Emits (acts rpcEvent) (orBehind E C) := by
  rw [invokeBackend, hi]
  exact emits_event he (hbackends backend (List.mem_of_getElem? hi) w C hw)

/-- **The choice of the backend** makes one event of the routing, and completes the call. -/
theorem route_emits (hm : m.Inv regexMatch)
    (hbackends : ∀ b ∈ m.rpcBackendIndexVec, CompletesOnce b.invoke) {w : InvokeWrapper (RpcAct A)}
    (hlisted : m.clientsBackendIndexMap.lookup w.info.funcName = some listed)
    (haddr : w.ctx.getToAddr ∈ addrs) (hw : Completion w C) :
    (m.route w).Emits (acts rpcEvent) (orBehind (Routed m.backendNames listed addrs) C) := by
  have hl := hm.exists_listed hlisted
  rw [route, hlisted]
  cases listed with
  | nil => exact emits_event (.noBackend haddr rfl) (hw _)
  | cons b bs =>
    dsimp only
    split
    next hne =>
      have hinvalid : (∀ i ∈ b :: bs, ∀ name, m.backendNames[i]? = some name →
          ¬Names w.ctx.getToAddr name) → Prog.Emits (acts rpcEvent)
            (orBehind (Routed m.backendNames (b :: bs) addrs) C) (invokeCallBack w .cliInvalidAddr) :=
        fun h => emits_event (.invalidAddr haddr hne (by simp) h) (hw _)
      -- a listed backend that the address names is the one that is found
      have hfound : ∀ {i name}, i ∈ b :: bs → m.backendNames[i]? = some name →
          Names w.ctx.getToAddr name →
          (addrBackend w.ctx.getToAddr).bind m.rpcBackendIndexMap.lookup = some i := by
        intro i name hi hname hto
        obtain ⟨backend, -, hbackend, hlookup⟩ := hm.listed_backend hl hi
        obtain rfl : backend.name = name := Option.some.inj (hbackend.symm.trans hname)
        rw [addrBackend_eq_some.2 hto]
        exact hlookup
      split
      next hnone =>
        refine hinvalid fun i hi name hname hto => ?_
        cases hnone.symm.trans (hfound hi hname hto)
      next i hsome =>
        split
        next hi =>
          obtain ⟨backend, hbackend, -⟩ := hm.listed_backend hl hi
          obtain ⟨name, hto, hlookup⟩ := Option.bind_eq_some_iff.1 hsome
          have hname := findBackend_eq_some ((hm.indexMap name).symm.trans hlookup)
          exact invokeBackend_emits hbackends hbackend
            (.named haddr hne (addrBackend_names hto) hi hname) hw
        next hi =>
          refine hinvalid fun j hj name hname hto => hi ?_
          obtain rfl := Option.some.inj (hsome.symm.trans (hfound hj hname hto))
          exact hj
    next he =>
      have he : w.ctx.getToAddr = [] := by simpa using he
      obtain ⟨backend, hbackend, -⟩ := hm.listed_backend hl (List.mem_cons_self (a := b) (l := bs))
      have hto : (w.ctx.setMetaValue kBackend ((m.backendNames[b]?).getD [])).getToAddr = [] :=
        (getToAddr_setMetaValue (by decide)).trans he
      refine invokeBackend_emits hbackends hbackend ?_ hw
      change Routed _ _ _ (.invoke b (w.ctx.setMetaValue kBackend _).getToAddr)
      rw [hto]
      exact .first (he ▸ haddr) rfl

theorem handle_emits (hm : m.Inv regexMatch)
    (hbackends : ∀ b ∈ m.rpcBackendIndexVec, CompletesOnce b.invoke) {w : InvokeWrapper (RpcAct A)}
    (hlisted : m.clientsBackendIndexMap.lookup w.info.funcName = some listed)
    (haddr : w.ctx.getToAddr ∈ addrs) (hw : Completion w C) :
    (m.handle w).Emits (acts rpcEvent) (orBehind (Routed m.backendNames listed addrs) C) :=
  m.route_emits hm hbackends hlisted haddr hw

/-- The words of a call: the callback of the user, alone or behind one event of the routing. -/
def callWords (names : List Bytes) (listed : List ℕ) (addrs : Set Bytes) : Set (List RpcEvent) :=
  {l | ∃ status, l = [.callback status] ∨ ∃ e, Routed names listed addrs e ∧ l = [e, .callback status]}

theorem invocation_events (hm : m.Inv regexMatch) (addrs : Set Bytes)
    (hfilters : ∀ {name f}, m.clientFilterManager.filterMap.lookup name = some f →
      PassesOrCompletes addrs f)
    (hbackends : ∀ b ∈ m.rpcBackendIndexVec, CompletesOnce b.invoke) {funcName : Bytes}
    (hlisted : m.clientsBackendIndexMap.lookup funcName = some listed) {w : InvokeWrapper (RpcAct A)}
    (hinfo : w.info.funcName = funcName) (haddr : w.ctx.getToAddr ∈ addrs)
    (hw : ∀ status, w.callback status = .act (.inl (.callback status)) (.ret ())) :
    (m.clientFilterManager.getFilterCollector funcName).Logs m.handle w rpcEvent
      (callWords m.backendNames listed addrs) := by
  obtain ⟨fs, e, hfs⟩ := hm.filters.getFilterCollector funcName
  have hfs : ∀ f ∈ fs, PassesOrCompletes addrs f := fun f hf => (hfs f hf).elim fun _ h => hfilters h
  have hcallback : Completion w {l | ∃ status, l = [.callback status]} := by
    intro status
    rw [hw]
    exact ⟨status, rfl⟩
  have hhandle : ∀ w' C, w'.info = w.info → w'.ctx.getToAddr ∈ addrs → Completion w' C →
      (m.handle w').Emits (acts rpcEvent) (orBehind (Routed m.backendNames listed addrs) C) := by
    intro w' C hinfo' haddr' hw'
    rw [← hinfo, ← hinfo'] at hlisted
    exact m.handle_emits hm hbackends hlisted haddr' hw'
  have hnest := nest_routed (fun f hf => hfs f (List.mem_reverse.1 hf)) hhandle w _ rfl haddr hcallback
  have hproper : ∀ f ∈ fs, Proper true f := fun f hf => (hfs f hf).1
  rw [e]
  refine (FilterCollector.new_behaves hproper m.handle w).logs (hnest.mono ?_)
  rintro l ⟨c, ⟨status, rfl⟩, rfl | ⟨e, he, rfl⟩⟩
  · exact ⟨status, Or.inl rfl⟩
  · exact ⟨status, Or.inr ⟨e, he, rfl⟩⟩

end RpcBackendManager

/-- What is seen of a call: at any time the start of a word of `S`, and one of these words in the end,
which every run comes to. -/
def Invocation.Events : Invocation A → Set (List RpcEvent) → Prop
  | .thrown, _ => False
  | .completed status, S => [.callback status] ∈ S
  | .filtered c h w, S => c.Logs h w rpcEvent S

namespace RpcBackendManager

/-- A filter that hands a call on later. -/
def delayFilter : Filter (InvokeWrapper (RpcAct ℕ)) Unit (RpcAct ℕ) := fun w =>
  .fork (.next w .ret) (.ret ())

/-- A backend that completes a call with a status from outside. -/
def exampleBackend (name : Bytes) : RpcBackend ℕ where
  name := name
  registerClientFunc := fun _ => true
  invoke := fun w => .ask fun n => w.callback (UInt32.ofNat n)

def exampleRegex : RegexMatch := fun regex _ => if regex = ascii ".*" then some true else none

def exampleInfo : FuncInfo := ⟨ascii "pb:/a.B/F", ascii "pkg", ascii "module", [ascii "pb"]⟩

def exampleOps : List (Op ℕ) :=
  [.registerClientFilter (ascii "delay") delayFilter,
    .setClientsFiltersRules [(ascii ".*", [ascii "delay"])],
    .setClientsBackendsRules [(ascii ".*", [ascii "local", ascii "mqtt"])],
    .registerRpcBackend (exampleBackend (ascii "local")),
    .registerRpcBackend (exampleBackend (ascii "mqtt")),
    .initManager, .registerClientFunc ⟨exampleInfo, true, true⟩, .start]

def exampleCall : InvokeProxyInfoWrapper :=
  ⟨exampleInfo.key, ⟨.client, false, 0, (∅ : Context).setMetaValue kToAddr (ascii "mqtt://b")⟩, 0, 0⟩

end RpcBackendManager

end Routing

end AimRT.Core
