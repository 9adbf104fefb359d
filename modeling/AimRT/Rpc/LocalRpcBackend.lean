import AimRT.Rpc.RpcClientTool

/-!
# The local rpc backend

`LocalRpcBackend::Invoke` passes a call to a service of the same process.  In the same package the
service gets the request and the client's callback.  Otherwise the call is recorded, the request goes
through its serialization, and the callback of the service takes the record; with a timeout executor
the timeout task may take it before.

After the record, `Invoke` calls the callback itself where the serialization of the request or its
deserialization fails, and leaves the record in the table.
-/

namespace AimRT.Rpc

open AimRT.Lib AimRT.Util

variable {C : Type}

/-! ### The service of a call -/

/-- The protocol of a url, and the values of `pkg_path` and `module_name` in its query. -/
structure LocalUrl where
  protocol : Bytes
  pkgPath : Bytes
  moduleName : Bytes

/-- The modules of a package with a service, and the packages of a function, in the order of
iteration; registration leaves none empty. -/
abbrev Modules := { l : List Bytes // l ≠ [] }

abbrev Packages := { l : List (Bytes × Modules) // l ≠ [] }

/-- What `Invoke` reads of its backend; `hasServiceFunc` says where `GetServiceFuncWrapperPtr` finds
a service. -/
structure LocalRpcBackend where
  name : Bytes
  serviceFuncRegisterIndex : List (Bytes × Packages)
  hasServiceFunc : (funcName pkgPath moduleName : Bytes) → Bool
  parseUrl : Bytes → Option LocalUrl
  timeoutExecutor : Bool

/-- The function of a call, the package and the module of the client, and the client context. -/
structure ClientCall where
  funcName : Bytes
  pkgPath : Bytes
  moduleName : Bytes
  ctx : Context

namespace LocalRpcBackend

/-- The package and the module that a `to_addr` names. -/
def serviceAddr (b : LocalRpcBackend) (toAddr : Bytes) : Except Status (Bytes × Bytes) :=
  if toAddr = [] then return ([], [])
  else
    match b.parseUrl toAddr with
    | none => return ([], [])
    | some url =>
      if url.protocol ≠ b.name then throw .cliBackendInternalError
      else return (url.pkgPath, url.moduleName)

/-- The package and the module of the service; an error is the status of the callback. -/
def findService (b : LocalRpcBackend) (call : ClientCall) : Except Status (Bytes × Bytes) := do
  let (servicePkgPath, serviceModuleName) ← b.serviceAddr (call.ctx.getMetaValue kToAddr)
  let pkgs ← require (b.serviceFuncRegisterIndex.lookup call.funcName) .svrNotFound
  if servicePkgPath = [] then
    if serviceModuleName = [] then
      let (pkgPath, modules) := pkgs.1.head pkgs.2
      return (pkgPath, modules.1.head modules.2)
    else
      let itr := pkgs.1.find? fun itr => itr.2.1.contains serviceModuleName
      let pkgPath := (itr.map Prod.fst).getD []
      check (pkgPath ≠ []) .cliInvalidAddr
      return (pkgPath, serviceModuleName)
  else
    let modules ← require (pkgs.1.lookup servicePkgPath) .cliInvalidAddr
    if serviceModuleName = [] then
      return (servicePkgPath, modules.1.head modules.2)
    else
      check (modules.1.contains serviceModuleName) .cliInvalidAddr
      return (servicePkgPath, serviceModuleName)

/-- The context of the service. -/
def serviceCtx (b : LocalRpcBackend) (call : ClientCall) : Context :=
  let ctx := (Context.setMetaValues ∅ call.ctx.entries).setMetaValue kFunctionName call.funcName
  ((ctx.setMetaValue kBackend b.name).setMetaValue (ascii "aimrt-from_pkg") call.pkgPath).setMetaValue
    (ascii "aimrt-from_module") call.moduleName

end LocalRpcBackend

/-! ### Invoke -/

/-- What `Invoke` and the callback of the service ask outside code: the state, the serializations and
deserializations of the call, and the status with which the service calls its callback. -/
inductive LocalQuery (C : Type) where
  | state
  | trySerializeReq (c : C) (serializationType : Bytes)
  | deserializeReq (c : C) (serializationType buf : Bytes)
  | serviceFunc (c : C) (ctx : Context)
  | trySerializeRsp (c : C) (serializationType : Bytes)
  | deserializeRsp (c : C) (serializationType buf : Bytes)

abbrev LocalAnswer : LocalQuery C → Type
  | .state => State
  | .trySerializeReq .. => Option Bytes
  | .deserializeReq .. => Bool
  | .serviceFunc .. => Status
  | .trySerializeRsp .. => Option Bytes
  | .deserializeRsp .. => Bool

abbrev LocalCode (C α : Type) := RpcCode C Status (@LocalAnswer C) α

namespace LocalRpcBackend

/-- The timeout handle calls the callback and does not set it to empty. -/
def clientTool (b : LocalRpcBackend) : RpcClientTool C Status (@LocalAnswer C) where
  timeoutExecutor := b.timeoutExecutor
  timeoutHandle := fun c => Code.invoke c .timeout

/-- The service function calls its callback once, at any time. -/
def serviceFunc (c : C) (ctx : Context) (callback : Status → LocalCode C Unit) : LocalCode C Unit :=
  Code.spawn do
    let status ← Code.ask (.serviceFunc c ctx)
    callback status

/-- The callback of the service of another package, for the call `c`. -/
def callback (c : C) (curReqId : UInt32) (serializationType : Bytes) (status : Status) :
    LocalCode C Unit := do
  match ← RpcClientTool.getRecord curReqId with
  | none => return
  | some client =>
    let buf : Option Bytes ← Code.ask (LocalQuery.trySerializeRsp c serializationType)
    match buf with
    | none => invokeCallBack client .svrSerializationFailed
    | some buf =>
      let deserializeRet ← Code.ask (.deserializeRsp client serializationType buf)
      if !deserializeRet then
        invokeCallBack client .svrDeserializationFailed
        return
      invokeCallBack client status

/-- `Invoke` for a service of another package. -/
def invokeOtherPkg (b : LocalRpcBackend) (c : C) (call : ClientCall) : LocalCode C Unit := do
  let curReqId ← fetchReqId
  let ret ← b.clientTool.record curReqId c
  if !ret then
    invokeCallBack c .cliBackendInternalError
    return
  let serializationType := call.ctx.getMetaValue kSerializationType
  let buf : Option Bytes ← Code.ask (LocalQuery.trySerializeReq c serializationType)
  match buf with
  | none => invokeCallBack c .cliSerializationFailed
  | some buf =>
    let deserializeRet ← Code.ask (.deserializeReq c serializationType buf)
    if !deserializeRet then
      invokeCallBack c .cliDeserializationFailed
      return
    serviceFunc c (b.serviceCtx call) (callback c curReqId serializationType)

def invoke (b : LocalRpcBackend) (c : C) (call : ClientCall) : LocalCode C Unit :=
  Code.tryCatch
    (do
      if (← Code.ask .state) ≠ State.start then
        invokeCallBack c .cliBackendInternalError
        return
      match b.findService call with
      | .error status => invokeCallBack c status
      | .ok (servicePkgPath, serviceModuleName) =>
        if !b.hasServiceFunc call.funcName servicePkgPath serviceModuleName then
          invokeCallBack c .cliBackendInternalError
          return
        if servicePkgPath = call.pkgPath then
          serviceFunc c (b.serviceCtx call) (Code.invoke c)
          return
        b.invokeOtherPkg c call)
    (return)

/-- The backend with the calls `calls`; no messages arrive. -/
def system (b : LocalRpcBackend) (calls : C → ClientCall) :
    System C UInt32 Status (@LocalAnswer C) Empty where
  invoke := fun c => b.invoke c (calls c)
  handle := nofun

/-! ### Exactly once -/

/-- Requests can be serialized by the client and deserialized by the service. -/
def reqSerializes : Contract C UInt32 Status (@LocalAnswer C) Empty where
  answer
    | .trySerializeReq .., buf => buf.isSome
    | .deserializeReq .., ret => ret = true
    | _, _ => True
  message := nofun
  record := fun _ _ => True
  status := fun _ _ => True

variable {b : LocalRpcBackend} {c : C} {d : Duty C UInt32}

theorem keeps_callback {reqId : UInt32} {serializationType : Bytes} {status : Status}
    {collects : Option UInt32} (hcollects : ∀ j, collects = some j → j = reqId) :
    (callback c reqId serializationType status).toThread.Keeps reqSerializes
      { collects := collects } := by
  refine RpcClientTool.keeps_getRecord (h := .done) rfl hcollects ⟨rfl, rfl, rfl⟩ ?_
  intro client _ buf _
  cases buf with
  | none => exact keeps_invokeCallBack_done trivial rfl
  | some buf =>
    intro ret _
    cases ret with
    | false => exact keeps_invokeCallBack_done trivial rfl
    | true => exact keeps_invokeCallBack_done trivial rfl

theorem keeps_invokeOtherPkg {call : ClientCall} :
    (b.invokeOtherPkg c call (fun _ => .done) .done).Keeps reqSerializes { owes := some c } := by
  intro n
  refine RpcClientTool.keeps_record (h := .done) ?_ rfl rfl trivial ?_ ?_
  · intro _ c
    exact ⟨rfl, trivial, rfl, rfl, rfl⟩
  · exact keeps_invokeCallBack_done trivial rfl
  · intro buf hbuf
    obtain ⟨buf, rfl⟩ := Option.isSome_iff_exists.1 hbuf
    intro ret hret
    obtain rfl : ret = true := hret
    refine ⟨_, _, .collects, ?_, rfl, rfl, rfl⟩
    intro status _
    refine keeps_callback fun j hj => ?_
    change (if b.timeoutExecutor then none else some (UInt32.ofNat n)) = some j at hj
    split at hj
    · cases hj
    · exact (Option.some.inj hj).symm

theorem keeps_invoke {call : ClientCall} :
    (b.invoke c call).toThread.Keeps reqSerializes { owes := some c } := by
  intro state _
  refine Code.keeps_ite (fun _ => keeps_invokeCallBack_done trivial rfl) fun _ => ?_
  cases b.findService call with
  | error status => exact keeps_invokeCallBack_done trivial rfl
  | ok addr =>
    refine Code.keeps_ite (fun _ => keeps_invokeCallBack_done trivial rfl) fun _ => ?_
    refine Code.keeps_ite (fun _ => ?_) fun _ => keeps_invokeOtherPkg
    -- the service owes the call
    refine ⟨_, _, .owes, ?_, rfl, rfl, rfl⟩
    intro status _
    exact ⟨rfl, trivial, rfl, rfl, rfl⟩

theorem sound (b : LocalRpcBackend) (calls : C → ClientCall) :
    (b.system calls).Sound reqSerializes where
  invoke := fun _ => keeps_invoke
  handle := nofun

variable [DecidableEq C]

/-- **Main result.**  As long as every request can be serialized by the client and deserialized by the
service of the other package, every call is completed exactly once and leaves no record. -/
theorem localRpc_exactlyOnce (b : LocalRpcBackend) (calls : C → ClientCall)
    {moves : List (Move C Empty (@LocalAnswer C))} {P : Pool C UInt32 Status (@LocalAnswer C)}
    (hmoves : ∀ move ∈ moves, move.Allowed reqSerializes)
    (hrun : Pool.init.run (b.system calls) moves = some P) :
    P.ExactlyOnce ∧ ∀ f, P.Finishes (b.system calls) f :=
  ⟨((sound b calls).exactlyOnce hmoves hrun).1, fun f => P.finishes _ f⟩

/-! ### A call to another package -/

/-- A backend with a service of the function `f` in the package `p`. -/
def exampleBackend : LocalRpcBackend where
  name := ascii "local"
  serviceFuncRegisterIndex :=
    [(ascii "f", ⟨[(ascii "p", ⟨[ascii "m"], by simp⟩)], by simp⟩)]
  hasServiceFunc := fun _ _ _ => true
  parseUrl := fun _ => none
  timeoutExecutor := true

/-- Calls of `f` from another package. -/
def exampleCalls : ℕ → ClientCall := fun _ => ⟨ascii "f", ascii "q", ascii "n", ∅⟩

/-- Outside code succeeds, where the serialization of requests gives `buf`. -/
def exampleAnswers (buf : Option Bytes) : ∀ q : LocalQuery ℕ, LocalAnswer q
  | .state => State.start
  | .trySerializeReq .. => buf
  | .deserializeReq .. => true
  | .serviceFunc .. => Status.ok
  | .trySerializeRsp .. => some []
  | .deserializeRsp .. => true

/-- One call, and the threads that then make the steps of `schedule`. -/
def exampleMoves (buf : Option Bytes) (schedule : List ℕ) : List (Move ℕ Empty (@LocalAnswer ℕ)) :=
  .start 0 :: schedule.map fun i => .run i (exampleAnswers buf)

/-- The service completes the call, and the timeout task finds no record. -/
theorem localRpc_exactlyOnce_service : ∃ P,
    Pool.init.run (exampleBackend.system exampleCalls)
      (exampleMoves (some []) [0, 0, 0, 0, 1, 0, 0, 0, 0, 0, 0, 0, 0, 2]) = some P ∧
    P.shared.completions = [(0, Status.ok)] ∧ P.ExactlyOnce := by
  refine ⟨_, rfl, by decide, ?_⟩
  have hmoves : ∀ move ∈ exampleMoves (some []) [0, 0, 0, 0, 1, 0, 0, 0, 0, 0, 0, 0, 0, 2],
      move.Allowed reqSerializes := by
    intro move hmove
    rcases List.mem_cons.1 hmove with rfl | hmove
    · trivial
    · refine Move.allowed_of_mem_runs (fun q => ?_) _ move hmove
      cases q <;> first | rfl | trivial
  exact (localRpc_exactlyOnce exampleBackend exampleCalls hmoves rfl).1

/-- The request cannot be serialized: its call is completed, and its record is there for the timeout
task, which calls the empty callback. -/
theorem not_localRpc_exactlyOnce : ¬ ∀ (b : LocalRpcBackend) (calls : ℕ → ClientCall)
    (moves : List (Move ℕ Empty (@LocalAnswer ℕ))) (P : Pool ℕ UInt32 Status (@LocalAnswer ℕ)),
    Pool.init.run (b.system calls) moves = some P → P.ExactlyOnce := by
  intro h
  have hP := h exampleBackend exampleCalls (exampleMoves none [0, 0, 0, 0, 1, 0, 0, 1, 0]) _ rfl
  exact absurd hP.emptyCalls_eq (by decide)

end LocalRpcBackend

end AimRT.Rpc
