import AimRT.Lib.Completion
import AimRT.Rpc.RpcTypes

/-!
# The table of pending rpc calls

`InvokeCallBack` and `RpcClientTool`, as code of the threads that share the client invoke wrappers.
Records are under 32-bit request ids.  The tool outlives the calls: its shutdown flag is not set.
-/

namespace AimRT.Rpc

open AimRT.Lib

variable {C S Q M : Type} {A : Q → Type}

/-- Code of a backend with the client invoke wrappers `C`, whose callbacks take an `S`. -/
abbrev RpcCode (C S : Type) {Q : Type} (A : Q → Type) := Code C UInt32 S A

def invokeCallBack (c : C) (status : S) : RpcCode C S A Unit := do
  Code.invoke c status
  Code.clear c

/-- Whether a timeout executor is registered, and the timeout handle. -/
structure RpcClientTool (C S : Type) {Q : Type} (A : Q → Type) where
  timeoutExecutor : Bool
  timeoutHandle : C → RpcCode C S A Unit

namespace RpcClientTool

def getRecord (reqId : UInt32) : RpcCode C S A (Option C) := Code.take reqId

/-- The task that `Record` gives to the timeout executor. -/
def timeoutTask (tool : RpcClientTool C S A) (reqId : UInt32) : RpcCode C S A Unit := do
  match ← getRecord reqId with
  | some msgRecorder => tool.timeoutHandle msgRecorder
  | none => return

def record (tool : RpcClientTool C S A) (reqId : UInt32) (msgRecorder : C) :
    RpcCode C S A Bool := do
  let ret ← Code.emplace reqId msgRecorder
  if !ret then
    return false
  if tool.timeoutExecutor then
    Code.spawn (tool.timeoutTask reqId)
  return true

end RpcClientTool

/-- The value of a counter such as `req_id_`. -/
def fetchReqId : RpcCode C S A UInt32 := do
  let n ← Code.fetchAdd
  return UInt32.ofNat n

/-- The response handler of the mqtt and the zenoh backend, from the request id and the code that it
has read of the response; an exception while it reads them ends it. -/
def handleRsp (header : Option (UInt32 × Status)) (deserialize : C → RpcCode C Status A Bool) :
    RpcCode C Status A Unit := do
  match header with
  | none => return
  | some (reqId, code) =>
    match ← RpcClientTool.getRecord reqId with
    | none => return
    | some client =>
      Code.tryCatch
        (do
          if code ≠ .ok then
            invokeCallBack client code
            return
          let deserializeRet ← deserialize client
          if !deserializeRet then
            invokeCallBack client .cliDeserializationFailed
            return
          invokeCallBack client .ok)
        (invokeCallBack client .cliBackendInternalError)

/-! ### Duties -/

variable {K : Contract C UInt32 S A M} {d : Duty C UInt32} {c : C} {reqId : UInt32}

/-- A callback can be called with the status. -/
theorem keeps_invokeCallBack {status : S} {k : Unit → Thread C UInt32 S A}
    {h : Thread C UInt32 S A} (howes : d.owes = some c) (hstatus : K.status c status)
    (hk : (k ()).Keeps K { d with owes := none, completed := some c }) :
    (invokeCallBack c status k h).Keeps K d :=
  ⟨howes, hstatus, rfl, hk⟩

/-- A thread that owes a call is done when it has called the callback. -/
theorem keeps_invokeCallBack_done {status : S} {h : Thread C UInt32 S A}
    (hstatus : K.status c status) {locks : Bool} (hlocks : locks = false) :
    (invokeCallBack c status (fun _ => .done) h).Keeps K { owes := some c, locks := locks } :=
  keeps_invokeCallBack rfl hstatus ⟨rfl, rfl, hlocks⟩

namespace RpcClientTool

variable {tool : RpcClientTool C S A}

/-- The timeout handle completes the call it gets. -/
def Completes (tool : RpcClientTool C S A) (K : Contract C UInt32 S A M) : Prop :=
  ∀ c, (tool.timeoutHandle c).toThread.Keeps K { owes := some c }

/-- Whoever takes the record owes its call. -/
theorem keeps_getRecord {k : Option C → Thread C UInt32 S A} {h : Thread C UInt32 S A}
    (howes : d.owes = none) (hcollects : ∀ j, d.collects = some j → j = reqId)
    (hnone : (k none).Keeps K { d with collects := none })
    (hsome : ∀ c, K.record reqId c → (k (some c)).Keeps K { d with owes := some c, collects := none }) :
    (getRecord reqId k h).Keeps K d :=
  ⟨howes, hcollects, hnone, hsome⟩

theorem keeps_timeoutTask (htool : tool.Completes K) :
    (tool.timeoutTask reqId).toThread.Keeps K { collects := some reqId } := by
  refine keeps_getRecord (h := .done) rfl (fun j hj => (Option.some.inj hj).symm) ⟨rfl, rfl, rfl⟩ ?_
  intro c _
  exact htool c

/-- A recorded call is left to the timeout task if there is a timeout executor, and is to be collected
otherwise; a call that is not recorded is still owed. -/
theorem keeps_record {k : Bool → Thread C UInt32 S A} {h : Thread C UInt32 S A}
    (htool : tool.timeoutExecutor = true → tool.Completes K) (howes : d.owes = some c)
    (hcollects : d.collects = none) (hrecord : K.record reqId c) (hfalse : (k false).Keeps K d)
    (htrue : (k true).Keeps K { d with
      owes := none
      collects := if tool.timeoutExecutor then none else some reqId }) :
    (tool.record reqId c k h).Keeps K d := by
  refine ⟨howes, hcollects, hrecord, hfalse, ?_⟩
  cases htimeout : tool.timeoutExecutor with
  | true =>
    simp only [htimeout] at htrue ⊢
    exact ⟨_, _, .collects, keeps_timeoutTask (htool htimeout), htrue⟩
  | false =>
    simp only [htimeout] at htrue ⊢
    exact htrue

end RpcClientTool

/-- Every exit behind the record calls the callback. -/
theorem keeps_handleRsp {K : Contract C UInt32 Status A M} {header : Option (UInt32 × Status)}
    {deserialize : C → RpcCode C Status A Bool} (hstatus : ∀ c status, K.status c status)
    (hdeserialize : ∀ c k h d, (∀ ret, (k ret).Keeps K d) → h.Keeps K d →
      (deserialize c k h).Keeps K d) :
    (handleRsp header deserialize).toThread.Keeps K {} := by
  rcases header with _ | ⟨reqId, code⟩
  · exact ⟨rfl, rfl, rfl⟩
  refine RpcClientTool.keeps_getRecord (h := .done) rfl nofun ⟨rfl, rfl, rfl⟩ ?_
  intro client _
  refine Code.keeps_ite (fun _ => keeps_invokeCallBack_done (hstatus _ _) rfl) fun _ => ?_
  refine hdeserialize _ _ _ _ (fun ret => ?_) (keeps_invokeCallBack_done (hstatus _ _) rfl)
  exact Code.keeps_ite (fun _ => keeps_invokeCallBack_done (hstatus _ _) rfl) fun _ =>
    keeps_invokeCallBack_done (hstatus _ _) rfl

end AimRT.Rpc
