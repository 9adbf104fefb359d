import AimRT.Util.Context

/-!
# Status codes, states and names of the rpc backends
-/

namespace AimRT.Rpc

open AimRT.Lib AimRT.Util

/-- The state of a backend. -/
inductive State where
  | preInit
  | init
  | start
  | shutdown
  deriving DecidableEq, Repr

/-- The code of an `aimrt::rpc::Status`. -/
abbrev Status := UInt32

namespace Status

def ok : Status := 0
def timeout : Status := 2
def svrUnknown : Status := 1000
def svrBackendInternalError : Status := 1001
def svrNotFound : Status := 1003
def svrSerializationFailed : Status := 1005
def svrDeserializationFailed : Status := 1007
def cliUnknown : Status := 2000
def cliFuncNotRegistered : Status := 2001
def cliBackendInternalError : Status := 2002
def cliInvalidContext : Status := 2003
def cliInvalidAddr : Status := 2004
def cliInvalidSerializationType : Status := 2005
def cliSerializationFailed : Status := 2006
def cliDeserializationFailed : Status := 2008
def cliNoBackendToHandle : Status := 2009
def cliSendReqFailed : Status := 2010

end Status

def kToAddr : Bytes := ascii "aimrt-to_addr"

def kSerializationType : Bytes := ascii "aimrt-serialization_type"

def kFunctionName : Bytes := ascii "aimrt-function_name"

def kBackend : Bytes := ascii "aimrt-backend"

def kRequestId : Bytes := ascii "aimrt-request_id"

/-- `GetFuncNameWithoutPrefix`: what is behind the first `:` that a `/` follows, from this `/` on. -/
def getFuncNameWithoutPrefix (funcName : Bytes) : Bytes := go funcName
where
  go : Bytes → Bytes
    | 58 :: 47 :: bs => 47 :: bs
    | _ :: bs => go bs
    | [] => funcName

/-! ### Checks -/

/-- The early return of a failed check. -/
def check {ε : Type} (c : Prop) [Decidable c] (e : ε) : Except ε Unit := if c then pure () else throw e

theorem check_eq_ok {ε : Type} {c : Prop} [Decidable c] {e : ε} {u : Unit}
    (h : check c e = .ok u) : c := by
  unfold check at h
  split at h
  · assumption
  · cases h

theorem bind_eq_ok {ε α β : Type} {x : Except ε α} {f : α → Except ε β} {b : β}
    (h : x >>= f = .ok b) : ∃ a, x = .ok a ∧ f a = .ok b := by
  cases x with
  | error e => cases h
  | ok a => exact ⟨a, rfl, h⟩

/-- A value that has to be there. -/
def require {ε α : Type} (x : Option α) (e : ε) : Except ε α :=
  match x with
  | some a => pure a
  | none => throw e

theorem require_eq_ok {ε α : Type} {x : Option α} {e : ε} {a : α} (h : require x e = .ok a) :
    x = some a := by
  cases x with
  | none => cases h
  | some b => exact congrArg some (Except.ok.inj h)

end AimRT.Rpc
