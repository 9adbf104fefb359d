import AimRT.Rpc.RpcClientTool

/-!
# Http rpc calls

`HttpRpcBackend::Invoke` looks up and parses the address and makes the call in a coroutine.  Every exit
of the coroutine calls the callback, an exception by what follows its `try` block.  An exception
before the coroutine is only logged.
-/

namespace AimRT.Net

open AimRT.Lib AimRT.Util AimRT.Rpc

variable {C : Type}

/-! ### Addresses and requests -/

/-- The function of a call, its context and its timeout in nanoseconds. -/
structure UrlCall where
  funcName : Bytes
  ctx : Context
  timeout : ℤ

structure Url where
  host : Bytes
  service : Bytes
  path : Bytes
  deriving DecidableEq, Repr

/-- The address of a call: that of the context, or the one that is configured for the function. -/
def UrlCall.toAddr (call : UrlCall) (clientServerUrlMap : Bytes → Option Bytes) : Option Bytes :=
  let toAddr := call.ctx.getMetaValue kToAddr
  if toAddr = [] then clientServerUrlMap (getFuncNameWithoutPrefix call.funcName) else some toAddr

/-- `HttpHeaderEncode`, in upper case. -/
def httpHeaderEncode (str : Bytes) : Bytes := str.flatMap fun c =>
  if isalnum c || c = 45 then [c] else [37, toHex (c >>> 4), toHex (c &&& 15)]

/-- `fields` are the calls of `set`, in order. -/
structure HttpRequest where
  urlPath : Bytes
  fields : List (Bytes × Bytes)
  body : Bytes

structure HttpResponse where
  result : ℕ
  body : Bytes

def httpContentType (serializationType : Bytes) : Option Bytes :=
  if serializationType = ascii "json" then some (ascii "application/json")
  else if serializationType = ascii "pb" then some (ascii "application/protobuf")
  else if serializationType = ascii "ros2" then some (ascii "application/ros2")
  else none

/-- The timeout of a request, five seconds where the call has none. -/
def httpTimeout (timeout : ℤ) : ℤ := if timeout ≤ 0 then 5 * 10 ^ 9 else timeout

/-- The fields that are set before the serialization type is looked at. -/
def httpHead (call : UrlCall) (url : Url) : List (Bytes × Bytes) :=
  [(ascii "Host", url.host), (ascii "User-Agent", ascii "aimrt"),
    (ascii "Timeout", ascii (toString (httpTimeout call.timeout / 10 ^ 9)))]

/-- The content type and the encoded meta pairs. -/
def httpFields (call : UrlCall) (contentType : Bytes) : List (Bytes × Bytes) :=
  (ascii "Content-Type", contentType) ::
    call.ctx.entries.map fun e => (httpHeaderEncode e.1, httpHeaderEncode e.2)

def httpRequest (call : UrlCall) (url : Url) (contentType body : Bytes) : HttpRequest where
  urlPath := if url.path = [] then ascii "/rpc" ++ getFuncNameWithoutPrefix call.funcName else url.path
  fields := httpHead call url ++ httpFields call contentType
  body := body

/-! ### Invoke -/

/-- What `Invoke` asks outside code for a call; all but the state and the serialization may throw. -/
inductive HttpQuery (C : Type) where
  | state (c : C)
  | parseUrl (c : C) (toAddr : Bytes)
  | getClient (c : C) (host service : Bytes)
  | setFields (c : C) (fields : List (Bytes × Bytes))
  | trySerializeReq (c : C) (serializationType : Bytes)
  | setBody (c : C) (body : Bytes)
  | httpSendRecvCo (c : C) (req : HttpRequest) (timeout : ℤ)
  | deserializeRsp (c : C) (serializationType body : Bytes)

abbrev HttpAnswer : HttpQuery C → Type
  | .state _ => State
  | .parseUrl .. => Option (Option Url)
  | .getClient .. => Option Bool
  | .setFields .. => Option Unit
  | .trySerializeReq .. => Option Bytes
  | .setBody .. => Option Unit
  | .httpSendRecvCo .. => Option HttpResponse
  | .deserializeRsp .. => Option Bool

abbrev HttpCode (C α : Type) := RpcCode C Status (@HttpAnswer C) α

/-- What `Invoke` reads of its backend. -/
structure HttpRpcBackend where
  clientServerUrlMap : Bytes → Option Bytes

namespace HttpRpcBackend

/-- The `try` block of the coroutine. -/
def callCo (c : C) (call : UrlCall) (url : Url) : HttpCode C Unit := do
  let clientPtr ← Code.orThrow (← Code.ask (HttpQuery.getClient c url.host url.service))
  if clientPtr = false then
    invokeCallBack c .cliBackendInternalError
    return
  Code.orThrow (← Code.ask (HttpQuery.setFields c (httpHead call url)))
  let serializationType := call.ctx.getMetaValue kSerializationType
  match httpContentType serializationType with
  | none => invokeCallBack c .cliInvalidSerializationType
  | some contentType =>
    Code.orThrow (← Code.ask (HttpQuery.setFields c (httpFields call contentType)))
    let buf ← Code.ask (HttpQuery.trySerializeReq c serializationType)
    match (buf : Option Bytes) with
    | none => invokeCallBack c .cliSerializationFailed
    | some body =>
      Code.orThrow (← Code.ask (HttpQuery.setBody c body))
      let req := httpRequest call url contentType body
      let rsp ← Code.orThrow (← Code.ask (HttpQuery.httpSendRecvCo c req (httpTimeout call.timeout)))
      if rsp.result ≠ 200 then
        invokeCallBack c .svrNotFound
        return
      let deserializeRet ← Code.orThrow
        (← Code.ask (HttpQuery.deserializeRsp c serializationType rsp.body))
      if deserializeRet = false then
        invokeCallBack c .cliDeserializationFailed
        return
      invokeCallBack c .ok

def invoke (b : HttpRpcBackend) (c : C) (call : UrlCall) : HttpCode C Unit :=
  Code.tryCatch
    (do
      if (← Code.ask (HttpQuery.state c)) ≠ State.start then
        invokeCallBack c .cliBackendInternalError
        return
      match call.toAddr b.clientServerUrlMap with
      | none => invokeCallBack c .cliInvalidAddr
      | some toAddr =>
        let url ← Code.orThrow (← Code.ask (HttpQuery.parseUrl c toAddr))
        match url with
        | none => invokeCallBack c .cliInvalidAddr
        | some url => Code.spawn (Code.tryCatch (callCo c call url) (invokeCallBack c .cliUnknown)))
    (return)

/-- The backend with the calls `calls`; there is no table, and no messages arrive. -/
def system (b : HttpRpcBackend) (calls : C → UrlCall) :
    System C UInt32 Status (@HttpAnswer C) Empty where
  invoke := fun c => b.invoke c (calls c)
  handle := nofun

/-! ### Exactly once -/

variable {b : HttpRpcBackend} {c : C} {calls : C → UrlCall}
  {K : Contract C UInt32 Status (@HttpAnswer C) Empty}

theorem keeps_callCo {call : UrlCall} {url : Url} (hK : ∀ c status, K.status c status) :
    (Code.toThread (Code.tryCatch (callCo c call url) (invokeCallBack c .cliUnknown))).Keeps K
      { owes := some c } := by
  -- what follows an exception
  have hcatch := keeps_invokeCallBack_done (h := .done) (hK c .cliUnknown) rfl
  intro clientPtr _
  refine Code.keeps_orThrow (fun clientPtr => ?_) hcatch
  refine Code.keeps_ite (fun _ => keeps_invokeCallBack_done (hK _ _) rfl) fun _ => ?_
  intro ret _
  refine Code.keeps_orThrow (fun _ => ?_) hcatch
  dsimp only
  cases httpContentType (call.ctx.getMetaValue kSerializationType) with
  | none => exact keeps_invokeCallBack_done (hK _ _) rfl
  | some contentType =>
    intro ret _
    refine Code.keeps_orThrow (fun _ => ?_) hcatch
    intro buf _
    rcases buf with _ | body
    · exact keeps_invokeCallBack_done (hK _ _) rfl
    intro ret _
    refine Code.keeps_orThrow (fun _ => ?_) hcatch
    intro rsp _
    refine Code.keeps_orThrow (fun rsp => ?_) hcatch
    refine Code.keeps_ite (fun _ => keeps_invokeCallBack_done (hK _ _) rfl) fun _ => ?_
    intro deserializeRet _
    refine Code.keeps_orThrow (fun deserializeRet => ?_) hcatch
    exact Code.keeps_ite (fun _ => keeps_invokeCallBack_done (hK _ _) rfl) fun _ =>
      keeps_invokeCallBack_done (hK _ _) rfl

/-- The call `c` gets to the parser of the url, and the parser throws. -/
def UrlThrows (b : HttpRpcBackend) (f : ∀ q : HttpQuery C, HttpAnswer q) (c : C)
    (call : UrlCall) : Prop :=
  f (.state c) = State.start ∧
    ∃ toAddr, call.toAddr b.clientServerUrlMap = some toAddr ∧ f (.parseUrl c toAddr) = none

theorem keeps_invoke {f : ∀ q : HttpQuery C, HttpAnswer q} {call : UrlCall}
    (hurl : ¬ b.UrlThrows f c call) :
    (b.invoke c call).toThread.Keeps (Contract.outcomes f : Contract C UInt32 Status _ Empty)
      { owes := some c } := by
  rintro state rfl
  refine Code.keeps_ite (fun _ => keeps_invokeCallBack_done trivial rfl) fun hstate => ?_
  cases haddr : call.toAddr b.clientServerUrlMap with
  | none => exact keeps_invokeCallBack_done trivial rfl
  | some toAddr =>
    rintro url rfl
    cases hparse : f (.parseUrl c toAddr) with
    | none => exact absurd ⟨not_not.1 hstate, toAddr, haddr, hparse⟩ hurl
    | some url =>
      cases url with
      | none => exact keeps_invokeCallBack_done trivial rfl
      | some url =>
        -- the coroutine owes the call
        exact ⟨_, _, .owes, keeps_callCo fun _ _ => trivial, rfl, rfl, rfl⟩

variable [DecidableEq C]

/-- A call whose url parser throws ends without a callback. -/
theorem run_of_urlThrows {f : ∀ q : HttpQuery C, HttpAnswer q} (h : b.UrlThrows f c (calls c)) :
    Pool.init.run (b.system calls) [.start c, .run 0 f, .run 0 f] =
      some ⟨[.done], .init, [c]⟩ := by
  obtain ⟨hstate, toAddr, haddr, hparse⟩ := h
  simp [Pool.run, Pool.step, Pool.init, system, invoke, Code.toThread, Code.ask, Thread.step, hstate,
    haddr, hparse, Code.orThrow, Code.throw]

/-- Every run whose outside code gives the answers `f` completes every call exactly once if and only
if the url parser throws for no call. -/
theorem exactlyOnce_iff (b : HttpRpcBackend) (calls : C → UrlCall)
    (f : ∀ q : HttpQuery C, HttpAnswer q) :
    (∀ moves P, (∀ move ∈ moves, Move.Allowed
        (Contract.outcomes f : Contract C UInt32 Status (@HttpAnswer C) Empty) move) →
      Pool.init.run (b.system calls) moves = some P → P.ExactlyOnce) ↔
    ∀ c, ¬ b.UrlThrows f c (calls c) := by
  constructor
  · intro h c hurl
    exact Pool.not_exactlyOnce_done c
      (h _ _ (by simp [Move.Allowed, Contract.outcomes]) (run_of_urlThrows hurl))
  · intro h moves P hmoves hrun
    have hsound : (b.system calls).Sound (Contract.outcomes f) :=
      ⟨fun c => keeps_invoke (h c), nofun⟩
    exact (hsound.exactlyOnce hmoves hrun).1

end HttpRpcBackend

end AimRT.Net
