import AimRT.Lib.Fields
import AimRT.Net.HttpRpcBackend
import AimRT.Net.HttpServer
import AimRT.Util.UrlEncode

/-!
# The header of http requests

The fields of a Boost.Beast request: the case of their names does not matter, and `set` removes what
has the same name.  `HttpRpcBackend` and `HttpChannelBackend` write the meta pairs of a context into
the fields behind some of their own and in front of others, and read all fields back into a context.
-/

namespace AimRT.Net

open AimRT.Lib AimRT.Util AimRT.Rpc

abbrev HttpFields := List (Bytes × Bytes)

/-- Names are compared like this. -/
def foldName (name : Bytes) : Bytes := name.map HttpServer.toLower

namespace HttpField

def host : Bytes := ascii "Host"
def userAgent : Bytes := ascii "User-Agent"
def contentType : Bytes := ascii "Content-Type"
def contentLength : Bytes := ascii "Content-Length"
def transferEncoding : Bytes := ascii "Transfer-Encoding"
def connection : Bytes := ascii "Connection"
def remoteEndpoint : Bytes := ascii "Remote-Endpoint"

end HttpField

namespace HttpFields

open HttpField

/-- Whether a value is kept when some tokens are filtered out of it; here a value has one token, or it is
empty. -/
def keepsToken (tokens : List String) (value : Bytes) : Bool :=
  value ≠ [] && !(tokens.map ascii).contains (foldName value)

def setContentLength (bodySize : ℕ) : Fields.Edit Bytes Bytes :=
  .set contentLength (ascii (toString bodySize))

/-- `chunked(false)`. -/
def setNotChunked : Fields.Edit Bytes Bytes := .filter transferEncoding (keepsToken ["chunked"])

/-- `keep_alive(true)`. -/
def setKeepAlive : Fields.Edit Bytes Bytes := .filter connection (keepsToken ["close", "keep-alive"])

/-- `prepare_payload` of a post request. -/
def preparePayload (bodySize : ℕ) (fields : HttpFields) : HttpFields :=
  Fields.applyAll foldName [setContentLength bodySize, setNotChunked] fields

/-- The bytes of the header of a post request. -/
def headerSize (target : Bytes) (fields : HttpFields) : ℕ :=
  (ascii "POST ").length + target.length + (ascii " HTTP/1.1\r\n").length +
    (fields.map fun e => e.1.length + 2 + e.2.length + 2).sum + 2

/-- The default of the parser. -/
def kHeaderLimit : ℕ := 8192

def kBodyLimit : ℕ := 16 * 1024 * 1024

/-- What the parser of the server accepts.  A `Transfer-Encoding` stands behind the `Content-Length`,
where `chunked(false)` has put it, and is in conflict with it. -/
def parses (target : Bytes) (bodySize : ℕ) (fields : HttpFields) : Bool :=
  headerSize target fields ≤ kHeaderLimit && bodySize ≤ kBodyLimit &&
    fields.all (fun e => e.1 ≠ []) &&
    !(fields.any (fun e => foldName e.1 = foldName contentLength) &&
      fields.any fun e => foldName e.1 = foldName transferEncoding)

end HttpFields

open HttpFields HttpField

/-! ### The fields that are sent -/

/-- The field of a meta pair. -/
def metaField (e : Σ _ : Bytes, Bytes) : Bytes × Bytes := (httpHeaderEncode e.1, httpHeaderEncode e.2)

/-- The calls of `set` for the meta pairs. -/
def metaFields (ctx : Context) : HttpFields := ctx.entries.map metaField

/-- The fields of a request of `HttpRpcBackend::Invoke`. -/
def rpcFields (call : UrlCall) (url : Url) (contentType : Bytes) (bodySize : ℕ) : HttpFields :=
  let fields := Fields.setAll foldName [] (httpHead call url ++ httpFields call contentType)
  setKeepAlive.apply foldName (preparePayload bodySize fields)

/-- The content type of `HttpChannelBackend::Publish`. -/
def channelContentType (serializationType : Bytes) : Bytes :=
  (httpContentType serializationType).getD (ascii "application/" ++ serializationType)

/-- The fields that `HttpChannelBackend::Publish` sets before its coroutines are spawned. -/
def publishFields (ctx : Context) (serializationType : Bytes) : HttpFields :=
  let fields := Fields.setAll foldName [] ((userAgent, ascii "aimrt") ::
    (contentType, channelContentType serializationType) :: metaFields ctx)
  setKeepAlive.apply foldName fields

/-- The fields of the request to a server. -/
def channelFields (ctx : Context) (serializationType serverHost : Bytes) (bodySize : ℕ) :
    HttpFields :=
  preparePayload bodySize
    (Fields.set foldName (publishFields ctx serializationType) host serverHost)

/-! ### The fields that are received -/

/-- The serialization type of a content type; no value where the handle throws. -/
def serializationTypeOf (contentType : Bytes) : Option Bytes :=
  if contentType = ascii "application/json" ∨ contentType = ascii "application/json charset=utf-8" then
    some (ascii "json")
  else if contentType = ascii "application/protobuf" then some (ascii "pb")
  else if contentType = ascii "application/ros2" then some (ascii "ros2")
  else none

/-- The fields as a handle gets them: the session has added the address of the client. -/
def receiveFields (target : Bytes) (bodySize : ℕ) (remoteAddr : Bytes) (fields : HttpFields) :
    Option HttpFields :=
  if parses target bodySize fields then some (Fields.set foldName fields remoteEndpoint remoteAddr)
  else none

/-- The context and the serialization type that are read from the fields. -/
def readContext (fields : HttpFields) : Option (Context × Bytes) := do
  let contentType ← Fields.find foldName fields contentType
  let serializationType ← serializationTypeOf contentType
  let ctx := Context.setMetaValue ∅ kSerializationType serializationType
  return (ctx.setMetaValues (fields.map fun e => ⟨httpHeaderDecode e.1, httpHeaderDecode e.2⟩),
    serializationType)

/-- The context of the service in the handle of `HttpRpcBackend`. -/
def rpcContext (name funcName : Bytes) (fields : HttpFields) : Option (Context × Bytes) :=
  (readContext fields).map fun r =>
    ((r.1.setMetaValue kFunctionName funcName).setMetaValue kBackend name, r.2)

/-- The context of the subscriber in the handle of `HttpChannelBackend`. -/
def channelContext (name : Bytes) (fields : HttpFields) : Option (Context × Bytes) :=
  (readContext fields).map fun r => (r.1.setMetaValue kBackend name, r.2)

end AimRT.Net
