import AimRT.Net.HttpDispatcher
import AimRT.Net.HttpMessage

/-!
# Encoded names

`UrlEncode` and `HttpHeaderEncode` are taken back by their decoders, in both letter cases, and leave safe
characters only.  A slash is not one of them, so that the parts of a channel path can be told.

`HttpHeaderEncode` keeps letters, digits and `-`.  Encoded names of fields are equal up to case exactly
when the names are.
-/

namespace AimRT.Net

open AimRT.Lib AimRT.Util AimRT.Rpc

/-- **Encoding is invertible and safe**, in both letter cases; a topic and a message type have a channel
path of their own. -/
theorem encoding_invertible_and_safe :
    (∀ up str, urlDecode (urlEncodeOf up str) = str ∧ ∀ c ∈ urlEncodeOf up str, isUrlSafe c = true) ∧
    (∀ up str, httpHeaderDecode (httpHeaderEncodeOf up str) = str ∧
      ∀ c ∈ httpHeaderEncodeOf up str, isHeaderSafe c = true) ∧
    ∀ topicName msgType topicName' msgType',
      (HttpName.channel topicName msgType).uri = (HttpName.channel topicName' msgType').uri →
        topicName = topicName' ∧ msgType = msgType' := by
  refine ⟨fun up str => ?_, fun up str => ?_, fun topicName msgType topicName' msgType' huri => ?_⟩
  · exact ⟨urlDecode_urlEncodeOf up str, fun _ hc => isUrlSafe_of_mem_urlEncodeOf hc⟩
  · exact ⟨httpHeaderDecode_encodeOf up str, fun _ hc => isHeaderSafe_of_mem_httpHeaderEncodeOf hc⟩
  · exact HttpName.channel.inj (HttpRegistry.uri_channel_inj huri)

example : urlEncodeOf false (ascii "http://abc123.com/aaa?qa=1") =
    ascii "http%3a%2f%2fabc123.com%2faaa%3fqa%3d1" := by decide

theorem httpHeaderEncode_cons (c : UInt8) (str : Bytes) :
    httpHeaderEncode (c :: str) = httpHeaderEncode [c] ++ httpHeaderEncode str := by
  simp [httpHeaderEncode]

theorem httpHeaderEncode_singleton (c : UInt8) : httpHeaderEncode [c] =
    if isalnum c || c = 45 then [c] else [37, toHex (c >>> 4), toHex (c &&& 15)] := by
  simp [httpHeaderEncode]

theorem httpHeaderEncodeOf_true : httpHeaderEncodeOf true = httpHeaderEncode := rfl

theorem httpHeaderDecode_encode (str : Bytes) : httpHeaderDecode (httpHeaderEncode str) = str :=
  httpHeaderDecode_encodeOf true str

theorem httpHeaderEncode_injective : Function.Injective httpHeaderEncode :=
  Function.LeftInverse.injective httpHeaderDecode_encode

theorem slash_not_mem_httpHeaderEncode (str : Bytes) : 47 ∉ httpHeaderEncode str := by
  have hcode : ∀ c : UInt8, 47 ∉ httpHeaderEncode [c] := forall_uint8 (by decide +kernel)
  intro hmem
  obtain ⟨c, -, hc⟩ := List.mem_flatMap.1 hmem
  refine hcode c ?_
  rwa [httpHeaderEncode, List.flatMap_singleton]

theorem foldName_append (a b : Bytes) : foldName (a ++ b) = foldName a ++ foldName b := List.map_append

theorem decode_fold_singleton (c : UInt8) (str : Bytes) :
    httpHeaderDecode (foldName (httpHeaderEncode [c]) ++ str) =
      HttpServer.toLower c :: httpHeaderDecode str := by
  rw [httpHeaderEncode_singleton]
  split
  next hkeep =>
    have hlower : ∀ c : UInt8, (isalnum c || c = 45) = true → HttpServer.toLower c ≠ 37 :=
      forall_uint8 (by decide +kernel)
    exact percentDecode_keep (hlower c hkeep) rfl str
  next hescape =>
    have hhex : ∀ c : UInt8, ¬ (isalnum c || c = 45) = true →
        ((fromHex (HttpServer.toLower (toHex (c >>> 4))) <<< 4) |||
          fromHex (HttpServer.toLower (toHex (c &&& 15)))) = HttpServer.toLower c :=
      forall_uint8 (by decide +kernel)
    rw [← hhex c hescape]
    rfl

theorem decode_fold_encode (str : Bytes) :
    httpHeaderDecode (foldName (httpHeaderEncode str)) = foldName str := by
  induction str with
  | nil => rfl
  | cons c str ih =>
    rw [httpHeaderEncode_cons, foldName_append]
    exact (decode_fold_singleton c _).trans (congrArg (HttpServer.toLower c :: ·) ih)

theorem fold_encode_fold (str : Bytes) :
    foldName (httpHeaderEncode (foldName str)) = foldName (httpHeaderEncode str) := by
  have hcode : ∀ c : UInt8, foldName (httpHeaderEncode [HttpServer.toLower c]) =
      foldName (httpHeaderEncode [c]) := forall_uint8 (by decide +kernel)
  induction str with
  | nil => rfl
  | cons c str ih =>
    have hcons : foldName (c :: str) = HttpServer.toLower c :: foldName str := rfl
    rw [hcons, httpHeaderEncode_cons, httpHeaderEncode_cons c, foldName_append, foldName_append, hcode,
      ih]

/-- The case of encoded names does not matter where that of the names does not. -/
theorem fold_encode_eq_iff {name name' : Bytes} :
    foldName (httpHeaderEncode name) = foldName (httpHeaderEncode name') ↔
      foldName name = foldName name' := by
  constructor
  · intro h
    rw [← decode_fold_encode, h, decode_fold_encode]
  · intro h
    rw [← fold_encode_fold, h, fold_encode_fold]

end AimRT.Net
