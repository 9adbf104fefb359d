import AimRT.Ros2.Ros2AdapterRpcClient
import AimRT.Util.BufferArray
import AimRT.Util.Decimal
import Mathlib.Data.List.TakeWhile

/-!
# Ros2 wrapper rpc

The `RosRpcWrapper` requests and responses of a function that is not a ros2 function: how
`Ros2AdapterWrapperClient` writes a request, how `Ros2AdapterWrapperServer` reads it and writes the
response, and what the client makes of the response.

The timeout of a call travels as a pair in front of the meta pairs.  Its key is read as that of the
timeout in the first pair only, so a meta pair with this key is one like any other.  A response with a
status other than OK carries the status and no body.
-/

namespace AimRT.Ros2

open AimRT.Lib AimRT.Util AimRT.Rpc

/-! ### Numbers in decimal -/

/-- What `std::stoll` throws. -/
inductive StollError where
  | invalidArgument
  | outOfRange
  deriving DecidableEq, Repr

def isspace (c : UInt8) : Bool := c = 32 || (9 ≤ c && c ≤ 13)

def isdigit (c : UInt8) : Bool := 48 ≤ c && c ≤ 57

/-- Whether a number has a minus sign, and what is behind the sign. -/
def splitSign : Bytes → Bool × Bytes
  | 45 :: s => (true, s)
  | 43 :: s => (false, s)
  | s => (false, s)

def ofDigits (digits : Bytes) : ℕ := digits.foldl (fun n c => 10 * n + (c.toNat - 48)) 0

/-- `std::stoll`: blanks, a sign and digits, whatever is behind them. -/
def stoll (str : Bytes) : Except StollError Int64 :=
  let s := splitSign (str.dropWhile isspace)
  let digits := s.2.takeWhile isdigit
  let n : ℤ := if s.1 then -ofDigits digits else ofDigits digits
  if digits = [] then .error .invalidArgument
  else if n < Int64.minValue.toInt ∨ Int64.maxValue.toInt < n then .error .outOfRange
  else .ok (Int64.ofInt n)

/-- The digits of a natural number. -/
theorem isdigit_of_mem_repr {n : ℕ} {c : UInt8} (h : c ∈ ascii n.repr) : isdigit c = true := isDigit_of_mem_repr h

theorem ofDigits_repr (n : ℕ) : ofDigits (ascii n.repr) = n := decimalValue_repr n

/-- What is read where `n` was written behind a sign. -/
theorem stoll_of_splitSign {str : Bytes} {b : Bool} {n : ℕ} {v : Int64}
    (h : splitSign (str.dropWhile isspace) = (b, ascii n.repr))
    (hv : v.toInt = if b then -(n : ℤ) else n) : stoll str = .ok v := by
  have htake : (ascii n.repr).takeWhile isdigit = ascii n.repr :=
    List.takeWhile_eq_self_iff.2 fun _ => isdigit_of_mem_repr
  have hlow := v.minValue_le_toInt
  have hhigh := v.toInt_le
  simp only [stoll, h, htake, ofDigits_repr, ← hv, if_neg (ascii_repr_ne_nil n), Int64.ofInt_toInt]
  rw [if_neg (by omega)]

theorem stoll_toString (n : Int64) : stoll (ascii (toString n.toInt)) = .ok n := by
  cases hn : n.toInt with
  | ofNat m =>
    refine stoll_of_splitSign (b := false) (n := m) ?_ hn
    show splitSign ((ascii m.repr).dropWhile isspace) = (false, ascii m.repr)
    obtain ⟨c, s, hcs⟩ := List.exists_cons_of_ne_nil (ascii_repr_ne_nil m)
    have hdigit : isdigit c = true := isdigit_of_mem_repr (n := m) (by simp [hcs])
    have hspace : isspace c = false := by grind [isdigit, isspace]
    have hminus : c ≠ 45 := by rintro rfl; cases hdigit
    have hplus : c ≠ 43 := by rintro rfl; cases hdigit
    rw [hcs, List.dropWhile_cons_of_neg (by simp [hspace])]
    exact splitSign.eq_3 _ (fun _ h => hminus (List.cons.inj h).1) fun _ h => hplus (List.cons.inj h).1
  | negSucc m =>
    refine stoll_of_splitSign (b := true) (n := m + 1) ?_ hn
    have hascii : ascii (toString (Int.negSucc m)) = 45 :: ascii (m + 1).repr := by
      show (("-" : String) ++ (m + 1).repr).toList.map _ = _
      rw [String.toList_append]
      rfl
    rw [hascii]
    rfl
/-! ### The server -/

/-- The context of a service. -/
structure ServerContext where
  timeout : Int64
  metaData : Context

/-- The loop over the strings of a request, from the index `ii` on. -/
def readContext : ℕ → List Bytes → ServerContext → Except StollError ServerContext
  | ii, key :: val :: context, ctx =>
    if ii = 0 ∧ key = ascii "aimrt-timeout" then do
      let timeout ← stoll val
      readContext (ii + 2) context { ctx with timeout := timeout }
    else
      readContext (ii + 2) context { ctx with metaData := ctx.metaData.setMetaValue key val }
  | _, _, ctx => pure ctx

/-- A call of the service: its context, and what its request is deserialized from. -/
structure ServiceInvoke where
  ctx : ServerContext
  serializationType : Bytes
  data : Bytes

/-- What the server sets behind the meta pairs of a request. -/
def setServerKeys (funcName serializationType : Bytes) (metaData : Context) : Context :=
  ((metaData.setMetaValue kSerializationType serializationType).setMetaValue kFunctionName
    funcName).setMetaValue kBackend (ascii "ros2")

def wrapperServerKeys : List Bytes := [kSerializationType, kFunctionName, kBackend]

/-- What a request becomes. -/
inductive Handled where
  | dropped
  | returned (rsp : Ros2Response)
  | invoked (call : ServiceInvoke)

namespace Ros2AdapterWrapperServer

/-- The fields of a request. -/
def readRequest (funcName serializationType : Bytes) (context : List Bytes) (data : Bytes) :
    Except StollError ServiceInvoke := do
  let ctx ← readContext 0 context ⟨0, ∅⟩
  return ⟨{ ctx with metaData := setServerKeys funcName serializationType ctx.metaData },
    serializationType, data⟩

def returnRspWithStatusCode (sequenceNumber : ℤ) (code : Status) : Ros2Response :=
  ⟨sequenceNumber, code.toNat, [], []⟩

/-- `handle_request`; `deserialize` is the type support of the request. -/
def handleRequest (runFlag : Bool) (funcName : Bytes) (deserialize : Bytes → Bytes → Bool)
    (sequenceNumber : ℤ) (serializationType : Bytes) (context : List Bytes) (data : Bytes) :
    Except StollError Handled := do
  if runFlag = false then
    return .dropped
  let call ← readRequest funcName serializationType context data
  if deserialize call.serializationType call.data = false then
    return .returned (returnRspWithStatusCode sequenceNumber .svrDeserializationFailed)
  return .invoked call

/-- The callback of a service call; `bufferArray` is the response in its serialization type, if it can
be serialized. -/
def callback (sequenceNumber : ℤ) (serializationType : Bytes) (bufferArray : Option (List Bytes))
    (status : Status) : Option Ros2Response :=
  if status ≠ .ok then
    some (returnRspWithStatusCode sequenceNumber status)
  else
    match bufferArray with
    | none => some (returnRspWithStatusCode sequenceNumber .svrSerializationFailed)
    | some bufferArray => do
      return ⟨sequenceNumber, 0, serializationType, ← fillData bufferArray⟩

end Ros2AdapterWrapperServer

/-! ### The client -/

namespace Ros2AdapterWrapperClient

/-- The request of a call whose body was serialized into `bufferArray`. -/
def writeRequest (call : Ros2Call) (bufferArray : List Bytes) : Option Ros2Request := do
  return wrapperRequest call (call.ctx.getMetaValue kSerializationType) (← fillData bufferArray)

/-- The status of a response, and what its body is deserialized from. -/
def readResponse (rsp : Ros2Response) : Status × Option (Bytes × Bytes) :=
  if rsp.code ≠ 0 then (toUint32 rsp.code, none) else (.ok, some (rsp.serializationType, rsp.data))

variable {C : Type}

/-- What the client does with the response to a call, in terms of what it reads there. -/
def finish (c : C) (rsp : Ros2Response) : Ros2Code C Unit :=
  match readResponse rsp with
  | (status, none) => invokeCallBack c { status := status, response := some rsp.sequenceNumber }
  | (status, some (serializationType, data)) => do
    let deserializeRet ← Code.ask (Ros2Query.deserializeRsp c serializationType data)
    if deserializeRet = false then
      invokeCallBack c
        { status := .cliDeserializationFailed, response := some rsp.sequenceNumber }
      return
    invokeCallBack c { status := status, response := some rsp.sequenceNumber }

theorem handleResponse_eq (rsp : Ros2Response) : (handleResponse rsp : Ros2Code C Unit) = (do
    if (← Code.ask Ros2Query.runFlag) = false then
      return
    match ← takeCall rsp.sequenceNumber with
    | none => return
    | some c => finish c rsp) := by
  by_cases hcode : rsp.code = 0 <;> simp [handleResponse, finish, readResponse, hcode] <;> rfl

end Ros2AdapterWrapperClient

/-! ### The round trip -/

/-- The service gets the timeout, the serialization type and the bytes of the request, and every meta
pair but those that the server sets. -/
def RequestRoundTrips (funcName : Bytes) (ctx : Context) (timeout : Int64)
    (reqBuffers : List Bytes) : Prop :=
  ∃ serializationType context data call,
    Ros2AdapterWrapperClient.writeRequest ⟨ctx, timeout.toInt⟩ reqBuffers =
      some (.wrapper serializationType context data) ∧
    (∀ deserialize sequenceNumber, deserialize call.serializationType call.data = true →
      Ros2AdapterWrapperServer.handleRequest true funcName deserialize sequenceNumber
        serializationType context data = .ok (.invoked call)) ∧
    call.ctx.timeout = timeout ∧
    call.serializationType = ctx.getMetaValue kSerializationType ∧
    call.ctx.metaData.getMetaValue kSerializationType = ctx.getMetaValue kSerializationType ∧
    (∀ key ∉ wrapperServerKeys, call.ctx.metaData.lookup key = ctx.lookup key) ∧
    call.data = reqBuffers.flatten

/-- The client gets the status, and the bytes of the response. -/
def ResponseRoundTrips (serializationType : Bytes) (status : Status) (rspBuffers : List Bytes) :
    Prop :=
  ∀ sequenceNumber, ∃ rsp,
    Ros2AdapterWrapperServer.callback sequenceNumber serializationType (some rspBuffers) status =
      some rsp ∧
    Ros2AdapterWrapperClient.readResponse rsp =
      (status, some (serializationType, rspBuffers.flatten))

theorem readContext_pairs (pairs : List (Σ _ : Bytes, Bytes)) : ∀ (ii : ℕ) (ctx : ServerContext),
    ii ≠ 0 → readContext ii (pairs.flatMap fun e => [e.1, e.2]) ctx =
      .ok { ctx with metaData := ctx.metaData.setMetaValues pairs } := by
  induction pairs with
  | nil =>
    intro ii ctx _
    rfl
  | cons e pairs ih =>
    intro ii ctx hii
    simp only [List.flatMap_cons, List.cons_append, List.nil_append, readContext, hii, false_and,
      if_false]
    exact ih (ii + 2) _ (by omega)

/-- What the server reads out of the strings of the client. -/
theorem readContext_wrapperRequest (ctx : Context) (timeout : Int64) :
    readContext 0 ([ascii "aimrt-timeout", ascii (toString timeout.toInt)] ++
      ctx.getMetaKeyValsArray) ⟨0, ∅⟩ = .ok ⟨timeout, Context.setMetaValues ∅ ctx.entries⟩ := by
  simp only [List.cons_append, List.nil_append, readContext, true_and, if_true, stoll_toString]
  exact readContext_pairs ctx.entries 2 _ (by decide)

theorem lookup_setServerKeys {funcName serializationType : Bytes} {metaData : Context} {key : Bytes}
    (h : key ∉ wrapperServerKeys) :
    (setServerKeys funcName serializationType metaData).lookup key = metaData.lookup key := by
  simp only [wrapperServerKeys, List.mem_cons, List.not_mem_nil, or_false, not_or] at h
  obtain ⟨hserializationType, hfunctionName, hbackend⟩ := h
  simp only [setServerKeys, Context.setMetaValue]
  rw [AList.lookup_insert_ne hbackend, AList.lookup_insert_ne hfunctionName,
    AList.lookup_insert_ne hserializationType]

theorem serializationType_setServerKeys {funcName serializationType : Bytes} {metaData : Context} :
    (setServerKeys funcName serializationType metaData).getMetaValue kSerializationType =
      serializationType := by
  simp only [setServerKeys, Context.setMetaValue, Context.getMetaValue]
  rw [AList.lookup_insert_ne (by decide), AList.lookup_insert_ne (by decide), AList.lookup_insert]
  rfl

theorem requestRoundTrips (funcName : Bytes) (ctx : Context) (timeout : Int64)
    (reqBuffers : List Bytes) : RequestRoundTrips funcName ctx timeout reqBuffers := by
  let serializationType := ctx.getMetaValue kSerializationType
  let context := [ascii "aimrt-timeout", ascii (toString timeout.toInt)] ++ ctx.getMetaKeyValsArray
  let metaData := setServerKeys funcName serializationType (Context.setMetaValues ∅ ctx.entries)
  let call : ServiceInvoke := ⟨⟨timeout, metaData⟩, serializationType, reqBuffers.flatten⟩
  have hread : Ros2AdapterWrapperServer.readRequest funcName serializationType context
      reqBuffers.flatten = .ok call := by
    rw [Ros2AdapterWrapperServer.readRequest, readContext_wrapperRequest]
    rfl
  refine ⟨serializationType, context, reqBuffers.flatten, call, ?_, ?_, rfl, rfl,
    serializationType_setServerKeys, ?_, rfl⟩
  · rw [Ros2AdapterWrapperClient.writeRequest, fillData_eq]
    rfl
  · intro deserialize sequenceNumber hdeserialize
    rw [Ros2AdapterWrapperServer.handleRequest, if_neg (by decide), hread]
    show (if deserialize call.serializationType call.data = false then _ else _) = _
    rw [if_neg (by simp [hdeserialize])]
    rfl
  · intro key hkey
    rw [lookup_setServerKeys hkey, Context.lookup_setMetaValues ctx.nodupKeys]
    exact Option.or_none

/-- A response carries the status of the service, and the body of a response with the status OK. -/
theorem readResponse_callback (sequenceNumber : ℤ) (serializationType : Bytes) (status : Status)
    (rspBuffers : List Bytes) : ∃ rsp,
    Ros2AdapterWrapperServer.callback sequenceNumber serializationType (some rspBuffers) status =
      some rsp ∧
    Ros2AdapterWrapperClient.readResponse rsp =
      (status, if status = .ok then some (serializationType, rspBuffers.flatten) else none) := by
  by_cases hstatus : status = .ok
  · refine ⟨⟨sequenceNumber, 0, serializationType, rspBuffers.flatten⟩, ?_, ?_⟩
    · simp [Ros2AdapterWrapperServer.callback, hstatus, fillData_eq]
    · simp [Ros2AdapterWrapperClient.readResponse, hstatus]
  · refine ⟨_, if_pos hstatus, ?_⟩
    have hcode : status.toNat ≠ 0 := fun h => hstatus (UInt32.toNat_inj.1 h)
    have hstatus' : toUint32 status.toNat = status := by
      have hlt := status.toNat_lt
      rw [toUint32, Int.emod_eq_of_lt (by omega) (by omega), Int.toNat_natCast, UInt32.ofNat_toNat]
    simp [Ros2AdapterWrapperClient.readResponse, Ros2AdapterWrapperServer.returnRspWithStatusCode,
      hcode, hstatus, hstatus']

/-- **Main result.**  The service gets the timeout, the meta pairs and the request of the client, and
the client the status of the service and, if it is OK, the body of the response. -/
theorem wrapperRpc_roundTrip (funcName : Bytes) (ctx : Context) (timeout : Int64)
    (reqBuffers : List Bytes) :
    RequestRoundTrips funcName ctx timeout reqBuffers ∧
    ∀ sequenceNumber serializationType status rspBuffers, ∃ rsp,
      Ros2AdapterWrapperServer.callback sequenceNumber serializationType (some rspBuffers) status =
        some rsp ∧
      Ros2AdapterWrapperClient.readResponse rsp =
        (status, if status = .ok then some (serializationType, rspBuffers.flatten) else none) :=
  ⟨requestRoundTrips funcName ctx timeout reqBuffers, readResponse_callback⟩

/-- Not the body of a response with the status 1. -/
theorem not_responseRoundTrips : ¬ ∀ (funcName : Bytes) (ctx : Context) (timeout : Int64)
    (reqBuffers : List Bytes), RequestRoundTrips funcName ctx timeout reqBuffers ∧
      ∀ serializationType status rspBuffers,
        ResponseRoundTrips serializationType status rspBuffers := by
  intro h
  obtain ⟨rsp, hrsp, hread⟩ := (h [] ∅ 0 []).2 (ascii "pb") 1 [[1]] 0
  obtain rfl := Option.some.inj hrsp
  exact absurd hread (by decide)

end AimRT.Ros2
