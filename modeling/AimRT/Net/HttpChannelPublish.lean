import AimRT.Lib.Run
import AimRT.Net.HttpMessage

/-!
# Publishing to several http servers

`HttpChannelBackend::Publish` builds one request and spawns a coroutine for every url; all of them share
the request.  A coroutine waits for its client, sets the host and prepares the payload, and the client
writes the request.  The threads of the io context run the coroutines at the same time: what two of them
do to the fields at once is undefined.
-/

namespace AimRT.Net

open AimRT.Lib AimRT.Util AimRT.Rpc
open HttpField

/-! ### The body -/

/-- The copy loop for a buffer of the request with this room: what it gets, and what is left of the
message. -/
def copyBuf : ℕ → List Bytes → Bytes × List Bytes
  | _, [] => ([], [])
  | room, buf :: data =>
    if room = 0 then ([], buf :: data)
    else if buf.length ≤ room then
      let r := copyBuf (room - buf.length) data
      (buf ++ r.1, r.2)
    else (buf.take room, buf.drop room :: data)

/-- The loop over the buffers of the request. -/
def copyBody : List ℕ → List Bytes → Bytes
  | [], _ => []
  | room :: rooms, data =>
    let r := copyBuf room data
    r.1 ++ copyBody rooms r.2

theorem copyBuf_flatten (room : ℕ) (data : List Bytes) :
    (copyBuf room data).1 = data.flatten.take room ∧
      (copyBuf room data).2.flatten = data.flatten.drop room := by
  induction data generalizing room with
  | nil => simp [copyBuf]
  | cons buf data ih =>
    rw [copyBuf, List.flatten_cons]
    split_ifs with hzero hfits
    · simp [hzero]
    · obtain ⟨htake, hdrop⟩ := ih (room - buf.length)
      rw [List.take_append, List.drop_append, List.take_of_length_le hfits,
        List.drop_eq_nil_of_le hfits]
      exact ⟨congrArg (buf ++ ·) htake, hdrop⟩
    · have hle : room ≤ buf.length := (Nat.not_le.1 hfits).le
      rw [List.take_append_of_le_length hle, List.drop_append_of_le_length hle]
      exact ⟨rfl, rfl⟩

theorem copyBody_eq (rooms : List ℕ) (data : List Bytes) :
    copyBody rooms data = data.flatten.take rooms.sum := by
  induction rooms generalizing data with
  | nil => simp [copyBody]
  | cons room rooms ih =>
    obtain ⟨htake, hdrop⟩ := copyBuf_flatten room data
    rw [copyBody, ih, htake, hdrop, List.sum_cons, List.take_add]

/-- The arguments of `Publish`, with the urls that are used; `data` is the serialized message, and
`rooms` are the sizes of the buffers that are prepared for it. -/
structure HttpPublication where
  ctx : Context
  serializationType : Bytes
  urls : List Url
  data : List Bytes
  rooms : List ℕ
  rooms_sum : rooms.sum = data.flatten.length

/-! ### The coroutines -/

/-- Fields and body of a request as a client writes it; no value where it is undefined. -/
abbrev WrittenReq := Option (HttpFields × Bytes)

inductive PublishCo where
  /-- In `GetClient`. -/
  | waiting
  /-- In `set`. -/
  | setting
  /-- In `prepare_payload`. -/
  | preparing
  /-- In the client, in front of the write. -/
  | sending
  | writing (req : WrittenReq)
  | written (req : WrittenReq)
  | exited
  deriving DecidableEq, Repr

namespace PublishCo

@[simp] def isChanging : PublishCo → Bool
  | setting => true
  | preparing => true
  | _ => false

@[simp] def isWriting : PublishCo → Bool
  | writing _ => true
  | _ => false

/-- The host is set. -/
@[simp] def hasSet : PublishCo → Bool
  | preparing => true
  | sending => true
  | _ => false

@[simp] def request : PublishCo → Option WrittenReq
  | writing req => some req
  | written req => some req
  | _ => none

theorem isChanging_of_isWriting (co : PublishCo) (h : co.isWriting = true) :
    co.isChanging = false := by
  cases co with
  | setting => cases h
  | preparing => cases h
  | _ => rfl

end PublishCo

/-- `req_ptr` and the coroutines by the index of their url.  Two coroutines have changed the fields at
once where they have `raced`; `lastSet` is the one that has set the host last. -/
structure HttpPublish where
  fields : HttpFields
  body : Bytes
  raced : Bool
  lastSet : Option ℕ
  cos : ℕ → PublishCo

inductive PublishOp where
  /-- `GetClient` returns a client, or it does not. -/
  | getClient (i : ℕ) (isFound : Bool)
  | setHost (i : ℕ)
  | preparePayload (i : ℕ)
  | beginWrite (i : ℕ)
  | endWrite (i : ℕ)
  /-- An exception in the client. -/
  | fails (i : ℕ)
  deriving DecidableEq, Repr

namespace HttpPublish

variable (p : HttpPublication) (s : HttpPublish)

/-- The host of the url of a coroutine. -/
def hostOf (i : ℕ) : Bytes := (p.urls[i]?.map Url.host).getD []

/-- The request when the coroutines have been spawned. -/
def publish : HttpPublish where
  fields := publishFields p.ctx p.serializationType
  body := copyBody p.rooms p.data
  raced := false
  lastSet := none
  cos := fun i => if i < p.urls.length then .waiting else .exited

def isChanging : Bool := (List.range p.urls.length).any fun i => (s.cos i).isChanging

def setCo (i : ℕ) (co : PublishCo) : HttpPublish := { s with cos := Function.update s.cos i co }

def getClient (i : ℕ) (isFound : Bool) : HttpPublish :=
  if s.cos i ≠ .waiting then s
  else if isFound then { s.setCo i .setting with raced := s.raced || s.isChanging p }
  else s.setCo i .exited

def setHost (i : ℕ) : HttpPublish :=
  if s.cos i ≠ .setting then s
  else { s.setCo i .preparing with
    fields := Fields.set foldName s.fields host (hostOf p i)
    lastSet := some i }

def preparePayload (i : ℕ) : HttpPublish :=
  if s.cos i ≠ .preparing then s
  else { s.setCo i .sending with fields := HttpFields.preparePayload s.body.length s.fields }

def beginWrite (i : ℕ) : HttpPublish :=
  if s.cos i ≠ .sending then s
  else s.setCo i (.writing (if s.raced then none else some (s.fields, s.body)))

def endWrite (i : ℕ) : HttpPublish :=
  match s.cos i with
  | .writing req => s.setCo i (.written req)
  | _ => s

def fails (i : ℕ) : HttpPublish :=
  match s.cos i with
  | .sending => s.setCo i .exited
  | .writing _ => s.setCo i .exited
  | _ => s

def step : PublishOp → HttpPublish
  | .getClient i isFound => s.getClient p i isFound
  | .setHost i => s.setHost p i
  | .preparePayload i => s.preparePayload i
  | .beginWrite i => s.beginWrite i
  | .endWrite i => s.endWrite i
  | .fails i => s.fails i

/-- The request that a server gets: its own host, and the message with its length. -/
def Right (i : ℕ) (req : WrittenReq) : Prop :=
  ∃ fields, req = some (fields, p.data.flatten) ∧
    Fields.find foldName fields host = some (hostOf p i) ∧
      Fields.find foldName fields contentLength = some (ascii (toString p.data.flatten.length))

/-- Every request that is written is the right one, and none is written while the fields change. -/
structure Holds : Prop where
  right : ∀ {i req}, (s.cos i).request = some req → Right p i req
  unchanged : ∀ {i j}, (s.cos i).isWriting = true → (s.cos j).isChanging = false

/-- No coroutine changes the fields while one writes the request, and one that writes it has set the
host itself, or the last one to set it has a url with the same host; and no changes have raced. -/
def Meets : PublishOp → Prop
  | .getClient i isFound => s.cos i = .waiting → isFound = true → ∀ j, (s.cos j).isWriting = false
  | .beginWrite i => s.cos i = .sending →
      s.raced = false ∧ (∀ j, (s.cos j).isChanging = false) ∧
        ∀ j, s.lastSet = some j → hostOf p j = hostOf p i
  | _ => True

end HttpPublish

end AimRT.Net
