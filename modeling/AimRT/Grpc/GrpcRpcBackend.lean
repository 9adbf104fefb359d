import AimRT.Net.HttpRpcBackend

/-!
# Grpc rpc calls

`GrpcRpcBackend::Invoke` is built like that of the http backend, over http2.  Here each exception calls
the callback in the handler that catches it, in the coroutine as well as before it.
-/

namespace AimRT.Grpc

open AimRT.Lib AimRT.Util AimRT.Rpc AimRT.Net

variable {C : Type}

/-! ### Messages -/

structure GrpcMessagePrefix where
  compressionFlag : UInt8
  messageLength : UInt32

/-- The flag, and the length with the highest byte first. -/
def parseGrpcMessagePrefix : Bytes → Option GrpcMessagePrefix
  | flag :: b1 :: b2 :: b3 :: b4 :: _ => some ⟨flag, UInt32.ofNat (ofLe [b4, b3, b2, b1])⟩
  | _ => none

def encodeGrpcMessagePrefix (p : GrpcMessagePrefix) : Bytes :=
  p.compressionFlag :: (leBytes 4 p.messageLength.toNat).reverse

structure GrpcRequest where
  url : Url
  headers : List (Bytes × Bytes)
  body : Bytes

structure GrpcResponse where
  trailers : Bytes → Option Bytes
  body : Bytes

def grpcContentType (serializationType : Bytes) : Option Bytes :=
  if serializationType = ascii "json" then some (ascii "application/grpc+json")
  else if serializationType = ascii "pb" then some (ascii "application/grpc+proto")
  else if serializationType = ascii "ros2" then some (ascii "application/grpc+ros2")
  else none

/-- The timeout of a request, the largest one where the call has none. -/
def grpcTimeout (timeout : ℤ) : ℤ := if timeout ≤ 0 then 2 ^ 63 - 1 else timeout

/-- `FormatTimeout`. -/
def formatTimeout (timeout : ℤ) : Bytes := ascii (toString timeout ++ "n")

/-- The headers that are added before the serialization type is looked at. -/
def grpcHead (version : Bytes) (call : UrlCall) : List (Bytes × Bytes) :=
  [(ascii "te", ascii "trailers"), (ascii "user-agent", ascii "grpc-c++-aimrt/" ++ version),
    (ascii "grpc-timeout", formatTimeout (grpcTimeout call.timeout))] ++
    call.ctx.entries.map fun e => (e.1, e.2)

/-- The body behind the prefix of its length. -/
def grpcBody (buf : Bytes) : Bytes :=
  encodeGrpcMessagePrefix ⟨0, UInt32.ofNat buf.length⟩ ++ buf

def grpcRequest (version : Bytes) (call : UrlCall) (url : Url) (contentType buf : Bytes) :
    GrpcRequest where
  url := url
  headers := grpcHead version call ++ [(ascii "content-type", contentType)]
  body := grpcBody buf

/-- The message of a response; an error is the status of the callback. -/
def rspMessage (rsp : GrpcResponse) : Except Status Bytes := do
  check (rsp.trailers (ascii "grpc-status") = some (ascii "0")) .cliUnknown
  let rspPrefix ← require (parseGrpcMessagePrefix rsp.body) .cliBackendInternalError
  check (rspPrefix.compressionFlag = 0) .cliBackendInternalError
  check (rsp.body.length = (5 + rspPrefix.messageLength).toNat) .cliBackendInternalError
  return rsp.body.drop 5

/-! ### Invoke -/

/-- What `Invoke` asks outside code for a call; all but the state and the serialization may throw. -/
inductive GrpcQuery (C : Type) where
  | state (c : C)
  | parseUrl (c : C) (toAddr : Bytes)
  | getClient (c : C) (host service : Bytes)
  | addHeaders (c : C) (headers : List (Bytes × Bytes))
  | trySerializeReq (c : C) (serializationType : Bytes)
  | write (c : C) (body : Bytes)
  | httpSendRecvCo (c : C) (req : GrpcRequest) (timeout : ℤ)
  | deserializeRsp (c : C) (serializationType body : Bytes)

abbrev GrpcAnswer : GrpcQuery C → Type
  | .state _ => State
  | .parseUrl .. => Option (Option Url)
  | .getClient .. => Option Bool
  | .addHeaders .. => Option Unit
  | .trySerializeReq .. => Option Bytes
  | .write .. => Option Unit
  | .httpSendRecvCo .. => Option GrpcResponse
  | .deserializeRsp .. => Option Bool

abbrev GrpcCode (C α : Type) := RpcCode C Status (@GrpcAnswer C) α

/-- What `Invoke` reads of its backend, and the version of the library. -/
structure GrpcRpcBackend where
  clientServerUrlMap : Bytes → Option Bytes
  version : Bytes

namespace GrpcRpcBackend

/-- The `try` block of the coroutine. -/
def callCo (b : GrpcRpcBackend) (c : C) (call : UrlCall) (url : Url) : GrpcCode C Unit := do
  let clientPtr ← Code.orThrow (← Code.ask (GrpcQuery.getClient c url.host url.service))
  if clientPtr = false then
    invokeCallBack c .cliBackendInternalError
    return
  Code.orThrow (← Code.ask (GrpcQuery.addHeaders c (grpcHead b.version call)))
  let serializationType := call.ctx.getMetaValue kSerializationType
  match grpcContentType serializationType with
  | none => invokeCallBack c .cliInvalidSerializationType
  | some contentType =>
    Code.orThrow (← Code.ask (GrpcQuery.addHeaders c [(ascii "content-type", contentType)]))
    let buf ← Code.ask (GrpcQuery.trySerializeReq c serializationType)
    match (buf : Option Bytes) with
    | none => invokeCallBack c .cliSerializationFailed
    | some buf =>
      Code.orThrow (← Code.ask (GrpcQuery.write c (grpcBody buf)))
      let req := grpcRequest b.version call url contentType buf
      let rsp ← Code.orThrow (← Code.ask (GrpcQuery.httpSendRecvCo c req (grpcTimeout call.timeout)))
      match rspMessage rsp with
      | .error status => invokeCallBack c status
      | .ok body =>
        let deserializeRet ← Code.orThrow
          (← Code.ask (GrpcQuery.deserializeRsp c serializationType body))
        if deserializeRet = false then
          invokeCallBack c .cliDeserializationFailed
          return
        invokeCallBack c .ok

def invoke (b : GrpcRpcBackend) (c : C) (call : UrlCall) : GrpcCode C Unit :=
  Code.tryCatch
    (do
      if (← Code.ask (GrpcQuery.state c)) ≠ State.start then
        invokeCallBack c .cliBackendInternalError
        return
      match call.toAddr b.clientServerUrlMap with
      | none => invokeCallBack c .cliInvalidAddr
      | some toAddr =>
        let url ← Code.orThrow (← Code.ask (GrpcQuery.parseUrl c toAddr))
        match url with
        | none => invokeCallBack c .cliInvalidAddr
        | some url =>
          let url := if url.path = [] then { url with
              path := getFuncNameWithoutPrefix call.funcName }
            else url
          Code.spawn (Code.tryCatch (b.callCo c call url) (invokeCallBack c .cliBackendInternalError)))
    (invokeCallBack c .cliUnknown)

/-- The backend with the calls `calls`; there is no table, and no messages arrive. -/
def system (b : GrpcRpcBackend) (calls : C → UrlCall) :
    System C UInt32 Status (@GrpcAnswer C) Empty where
  invoke := fun c => b.invoke c (calls c)
  handle := nofun

/-! ### Exactly once -/

variable {b : GrpcRpcBackend} {c : C} {calls : C → UrlCall}

theorem keeps_callCo {call : UrlCall} {url : Url} :
    (Code.toThread (Code.tryCatch (b.callCo c call url)
      (invokeCallBack c .cliBackendInternalError))).Keeps
      (Contract.any : Contract C UInt32 Status (@GrpcAnswer C) Empty) { owes := some c } := by
  have hdone : ∀ status : Status, ∀ h, (invokeCallBack c status (fun _ => .done) h).Keeps
      (Contract.any : Contract C UInt32 Status (@GrpcAnswer C) Empty) { owes := some c } :=
    fun _ _ => keeps_invokeCallBack_done trivial rfl
  -- what follows an exception
  have hcatch := hdone .cliBackendInternalError .done
  intro clientPtr _
  refine Code.keeps_orThrow (fun clientPtr => ?_) hcatch
  refine Code.keeps_ite (fun _ => hdone _ _) fun _ => ?_
  intro ret _
  refine Code.keeps_orThrow (fun _ => ?_) hcatch
  dsimp only
  cases grpcContentType (call.ctx.getMetaValue kSerializationType) with
  | none => exact hdone _ _
  | some contentType =>
    intro ret _
    refine Code.keeps_orThrow (fun _ => ?_) hcatch
    intro buf _
    rcases buf with _ | buf
    · exact hdone _ _
    intro ret _
    refine Code.keeps_orThrow (fun _ => ?_) hcatch
    intro rsp _
    refine Code.keeps_orThrow (fun rsp => ?_) hcatch
    beta_reduce
    cases rspMessage rsp with
    | error status => exact hdone _ _
    | ok body =>
      intro deserializeRet _
      refine Code.keeps_orThrow (fun deserializeRet => ?_) hcatch
      exact Code.keeps_ite (fun _ => hdone _ _) fun _ => hdone _ _

theorem sound (b : GrpcRpcBackend) (calls : C → UrlCall) : (b.system calls).Sound Contract.any where
  invoke := by
    intro c state _
    refine Code.keeps_ite (fun _ => keeps_invokeCallBack_done trivial rfl) fun _ => ?_
    cases (calls c).toAddr b.clientServerUrlMap with
    | none => exact keeps_invokeCallBack_done trivial rfl
    | some toAddr =>
      intro url _
      refine Code.keeps_orThrow (fun url => ?_) (keeps_invokeCallBack_done trivial rfl)
      cases url with
      | none => exact keeps_invokeCallBack_done trivial rfl
      | some url => exact ⟨_, _, .owes, keeps_callCo, rfl, rfl, rfl⟩
  handle := nofun

end GrpcRpcBackend

/-! ### Both backends -/

variable [DecidableEq C]

/-- A call of the function `f` without an address in its context. -/
def exampleCalls : ℕ → UrlCall := fun _ => ⟨ascii "pb:/f", ∅, 0⟩

def exampleUrlMap : Bytes → Option Bytes := fun _ => some (ascii "http://h:80")

def exampleBackend : GrpcRpcBackend := ⟨exampleUrlMap, ascii "1.0.0"⟩

/-- A call, and the steps of its thread, to which the url parser throws. -/
def httpMoves : List (Move ℕ Empty (@HttpAnswer ℕ)) :=
  .start 0 :: [0, 0].map fun i => .run i fun
    | .state _ => State.start
    | .parseUrl .. => none
    | .getClient .. => none
    | .setFields .. => none
    | .trySerializeReq .. => none
    | .setBody .. => none
    | .httpSendRecvCo .. => none
    | .deserializeRsp .. => none

def grpcMoves : List (Move ℕ Empty (@GrpcAnswer ℕ)) :=
  .start 0 :: [0, 0, 0, 0].map fun i => .run i fun
    | .state _ => State.start
    | .parseUrl .. => none
    | .getClient .. => none
    | .addHeaders .. => none
    | .trySerializeReq .. => none
    | .write .. => none
    | .httpSendRecvCo .. => none
    | .deserializeRsp .. => none

end AimRT.Grpc
