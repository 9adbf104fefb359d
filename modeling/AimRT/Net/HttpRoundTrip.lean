import AimRT.Net.HttpMeta

/-!
# Meta pairs from the client to the server

What the parser of the server accepts, and what the handle reads from the fields, in terms of the meta
pairs: with the layout of a request, a round trip needs no more than that the request fits and that the
pairs are in nobody's way.
-/

namespace AimRT.Net

open AimRT.Lib AimRT.Util AimRT.Rpc
open HttpField HttpFields

variable {head : HttpFields} {edits : List HttpEdit} {serverKeys : List Bytes} {ctx : Context}
variable {type serializationType target remoteAddr : Bytes} {bodySize : ℕ}

theorem slash_mem_of_serializationTypeOf (h : serializationTypeOf type = some serializationType) :
    47 ∈ type := by
  unfold serializationTypeOf at h
  split_ifs at h with hjson hpb hros2
  · rcases hjson with rfl | rfl <;> decide
  · exact hpb ▸ by decide
  · exact hros2 ▸ by decide

theorem serializationTypeOf_httpContentType (h : httpContentType serializationType = some type) :
    serializationTypeOf type = some serializationType := by
  unfold httpContentType at h
  split_ifs at h with hjson hpb hros2
  · rw [← Option.some.inj h, hjson]
    decide
  · rw [← Option.some.inj h, hpb]
    decide
  · rw [← Option.some.inj h, hros2]
    decide

theorem readContext_eq (fields : HttpFields) : readContext fields =
    ((Fields.find foldName fields contentType).bind serializationTypeOf).map fun serializationType =>
      ((Context.setMetaValue ∅ kSerializationType serializationType).setMetaValues
        (fields.map fun e => ⟨httpHeaderDecode e.1, httpHeaderDecode e.2⟩), serializationType) := by
  unfold readContext
  cases Fields.find foldName fields contentType with
  | none => rfl
  | some type =>
    cases htype : serializationTypeOf type with
    | none => simp [htype]
    | some serializationType => simp [htype]

/-- The edits of the client and that of the session. -/
abbrev allEdits (edits : List HttpEdit) (remoteAddr : Bytes) : List HttpEdit :=
  edits ++ [.set remoteEndpoint remoteAddr]

/-- The layout of the requests of a backend: the content type is the last field in front of the pairs,
and a content length is set, without chunks. -/
structure RequestLayout (head : HttpFields) (edits : List HttpEdit) (serverKeys : List Bytes)
    (type serializationType remoteAddr : Bytes) (bodySize : ℕ) : Prop
    extends Layout (head ++ [(contentType, type)]) (allEdits edits remoteAddr) serverKeys
    where
  contentLength : setContentLength bodySize ∈ edits
  notChunked : setNotChunked ∈ edits
  contentType : ∀ name ∈ (allEdits edits remoteAddr).map Fields.Edit.name,
    foldName contentType ≠ foldName name
  serverKeys : kSerializationType ∈ serverKeys
  serializationTypeOf : serializationTypeOf type = some serializationType

/-- The fields that the client sends. -/
abbrev sentFields (head : HttpFields) (type : Bytes) (edits : List HttpEdit) (ctx : Context) :
    HttpFields :=
  editedFields (head ++ [(contentType, type)]) edits ctx

/-- The fields that the handle gets. -/
abbrev receivedFields (head : HttpFields) (type : Bytes) (edits : List HttpEdit) (remoteAddr : Bytes)
    (ctx : Context) : HttpFields :=
  editedFields (head ++ [(contentType, type)]) (allEdits edits remoteAddr) ctx

theorem receivedFields_eq : receivedFields head type edits remoteAddr ctx =
    Fields.set foldName (sentFields head type edits ctx) remoteEndpoint remoteAddr :=
  List.foldl_append

/-- The address of the client does not matter for what has another name. -/
theorem forall_sentFields_iff {P : Bytes → Prop}
    (hP : ∀ {name}, foldName name = foldName remoteEndpoint → P name) :
    (∀ e ∈ sentFields head type edits ctx, P e.1) ↔
      ∀ e ∈ receivedFields head type edits remoteAddr ctx, P e.1 := by
  rw [receivedFields_eq]
  constructor
  · intro hsent e he
    rcases Fields.mem_set.1 he with rfl | ⟨he, -⟩
    · exact hP rfl
    · exact hsent e he
  · intro hreceived e he
    by_cases hname : foldName e.1 = foldName remoteEndpoint
    · exact hP hname
    · exact hreceived e (Fields.mem_set.2 (.inr ⟨he, hname⟩))

/-- The name of a key that no edit has is received. -/
theorem Layout.exists_mem_editedFields (h : Layout head edits serverKeys) {e : Σ _ : Bytes, Bytes}
    (he : e ∈ ctx.entries) (hothers : ∀ edit ∈ edits, foldName e.1 ≠ foldName edit.name) :
    ∃ e' ∈ ctx.entries, foldName e'.1 = foldName e.1 ∧ metaField e' ∈ editedFields head edits ctx := by
  obtain ⟨entries₁, entries₂, hentries⟩ := List.append_of_mem he
  obtain ⟨e', he', hname, hmem⟩ := @exists_mem_firstFields _ head _ _ _ hentries
  refine ⟨e', hentries ▸ List.mem_append_right _ he', hname, ?_⟩
  refine h.mem_editedFields.2 (.inr ⟨hmem, fun edit hedit heq => hothers edit hedit ?_⟩)
  rw [← hname]
  exact (h.fold_encode_iff hedit).1 heq

/-- No field has an empty name exactly when no key is empty. -/
theorem Layout.forall_ne_nil_iff (h : Layout head edits serverKeys) :
    (∀ e ∈ editedFields head edits ctx, e.1 ≠ []) ↔ ∀ e ∈ ctx.entries, e.1 ≠ [] := by
  have hfold : ∀ {name}, foldName name = [] ↔ name = [] := List.map_eq_nil_iff
  constructor
  · intro hfields e he hnil
    have hothers : ∀ edit ∈ edits, foldName e.1 ≠ foldName edit.name := fun edit hedit heq =>
      (h.editNames _ (List.mem_map_of_mem hedit)).2 (hfold.1 (heq.symm.trans (hfold.2 hnil)))
    obtain ⟨e', -, hname, hmem⟩ := h.exists_mem_editedFields he hothers
    refine hfields _ hmem ?_
    rw [metaField, hfold.1 (hname.trans (hfold.2 hnil))]
    rfl
  · intro hkeys e he
    rcases h.mem_editedFields.1 he with ⟨edit, hedit, hgives⟩ | ⟨hmem, -⟩
    · exact hgives.name_eq ▸ (h.editNames _ (List.mem_map_of_mem hedit)).2
    · rcases List.mem_append.1 (Fields.mem_of_mem_setAll hmem) with hhead | hmeta
      · exact (h.headNames _ (List.mem_map_of_mem hhead)).2
      · obtain ⟨e', he', rfl⟩ := List.mem_map.1 hmeta
        exact fun hnil => hkeys e' he' (httpHeaderEncode_injective (hnil.trans rfl))

namespace RequestLayout

variable (h : RequestLayout head edits serverKeys type serializationType remoteAddr bodySize)
include h

theorem notChunked_mem : setNotChunked ∈ allEdits edits remoteAddr :=
  List.mem_append_left _ h.notChunked

/-- There is a content length, so the parser accepts no transfer encoding. -/
theorem parses_iff : parses target bodySize (sentFields head type edits ctx) = true ↔
    (headerSize target (sentFields head type edits ctx) ≤ kHeaderLimit ∧ bodySize ≤ kBodyLimit) ∧
      (∀ e ∈ receivedFields head type edits remoteAddr ctx, e.1 ≠ []) ∧
        ∀ e ∈ receivedFields head type edits remoteAddr ctx,
          foldName e.1 ≠ foldName transferEncoding := by
  have hlength : (sentFields head type edits ctx).any
      (fun e => foldName e.1 = foldName HttpField.contentLength) = true := by
    have hmem : (HttpField.contentLength, ascii (toString bodySize)) ∈
        receivedFields head type edits remoteAddr ctx :=
      h.mem_editedFields.2 (.inl ⟨_, List.mem_append_left _ h.contentLength, rfl⟩)
    rw [receivedFields_eq, Fields.mem_set] at hmem
    rcases hmem with heq | ⟨hmem, -⟩
    · exact absurd (show HttpField.contentLength = remoteEndpoint from congrArg Prod.fst heq) (by decide)
    · exact List.any_eq_true.2 ⟨_, hmem, decide_eq_true rfl⟩
  have hnil : ∀ {name}, foldName name = foldName remoteEndpoint → name ≠ [] := by
    rintro name hname rfl
    exact absurd hname (by decide)
  have htransfer : ∀ {name}, foldName name = foldName remoteEndpoint →
      foldName name ≠ foldName transferEncoding := fun hname => hname ▸ by decide
  rw [parses, hlength, ← forall_sentFields_iff hnil, ← forall_sentFields_iff htransfer]
  simp [and_assoc]

/-- A transfer encoding loses a pair or is in the way of the content length. -/
theorem transferEncoding_iff
    (hkept : Kept serverKeys ctx (receivedFields head type edits remoteAddr ctx)) :
    (∀ e ∈ receivedFields head type edits remoteAddr ctx,
      foldName e.1 ≠ foldName transferEncoding) ↔
        ∀ e ∈ ctx.entries, foldName e.1 ≠ foldName transferEncoding := by
  constructor
  · intro hfields e he hname
    obtain ⟨value, hmem, -⟩ := hkept e he (h.filter_serverKeys h.notChunked_mem hname)
    exact hfields _ hmem ((h.fold_encode_iff h.notChunked_mem).2 hname)
  · intro hkeys e he hname
    rcases h.mem_editedFields.1 he with ⟨edit, hedit, hgives⟩ | ⟨-, hothers⟩
    · have heq : edit = setNotChunked := List.inj_on_of_nodup_map h.nodup hedit h.notChunked_mem
        (hgives.fold_eq.symm.trans hname)
      subst heq
      obtain ⟨-, -, name, hname', hmem⟩ := hgives
      rcases List.mem_append.1 (Fields.mem_of_mem_setAll hmem) with hhead | hmeta
      · exact h.filter_head h.notChunked_mem hhead hname'
      · obtain ⟨e', he', heq⟩ := List.mem_map.1 hmeta
        refine hkeys e' he' ((h.fold_encode_iff h.notChunked_mem).1 ?_)
        rw [show httpHeaderEncode e'.1 = name from congrArg Prod.fst heq]
        exact hname'
    · exact hothers _ h.notChunked_mem hname

/-- The body is decoded as it was encoded exactly when no key has the name of the content type. -/
theorem contentType_iff :
    (Fields.find foldName (receivedFields head type edits remoteAddr ctx) HttpField.contentType).bind
      Net.serializationTypeOf = some serializationType ↔
        ∀ e ∈ ctx.entries, foldName e.1 ≠ foldName HttpField.contentType := by
  have hfind : ∀ {value}, Fields.find foldName (receivedFields head type edits remoteAddr ctx)
      HttpField.contentType = some value ↔ _ := Fields.find_eq_some_iff h.encoded.distinct
  have hencode : httpHeaderEncode HttpField.contentType = HttpField.contentType :=
    h.head_encode (e := (_, type)) (List.mem_append_right _ List.mem_cons_self)
  have hfold : ∀ {key}, foldName (httpHeaderEncode key) = foldName HttpField.contentType ↔
      foldName key = foldName HttpField.contentType := fun {key} => by
    conv_lhs => rw [← hencode]
    exact fold_encode_eq_iff
  constructor
  · intro hsome e he hname
    obtain ⟨value, hvalue, htype⟩ := Option.bind_eq_some_iff.1 hsome
    have hothers : ∀ edit ∈ allEdits edits remoteAddr,
        foldName e.1 ≠ foldName edit.name := fun edit hedit =>
      hname ▸ h.contentType _ (List.mem_map_of_mem hedit)
    obtain ⟨e', -, hname', hmem⟩ := h.exists_mem_editedFields he hothers
    -- the content type has a slash, an encoded value has none
    have heq : some value = some (metaField e').2 :=
      hvalue.symm.trans (hfind.2 ⟨_, hfold.2 (hname'.trans hname), hmem⟩)
    refine slash_not_mem_httpHeaderEncode e'.2 ?_
    rw [← show value = httpHeaderEncode e'.2 from Option.some.inj heq]
    exact slash_mem_of_serializationTypeOf htype
  · intro hkeys
    refine Option.bind_eq_some_iff.2 ⟨type, hfind.2 ⟨_, rfl, ?_⟩, h.serializationTypeOf⟩
    refine h.mem_editedFields.2 (.inr ⟨Fields.mem_setAll.2 ⟨head, metaFields ctx, ?_, ?_⟩, ?_⟩)
    · rw [List.append_assoc]
      rfl
    · intro field hfield
      obtain ⟨e, he, rfl⟩ := List.mem_map.1 hfield
      exact fun hname => hkeys e he (hfold.1 hname)
    · exact fun edit hedit => h.contentType _ (List.mem_map_of_mem hedit)

/-- A round trip: the request is accepted, the content type is the one of the body, the pairs are there. -/
theorem roundTrips_iff_kept {finish : Context → Context}
    (hfinish : ∀ {ctx key}, key ∉ serverKeys → (finish ctx).lookup key = ctx.lookup key) :
    RoundTrips serverKeys ctx serializationType
      ((receiveFields target bodySize remoteAddr (sentFields head type edits ctx)).bind fun fields =>
        (readContext fields).map fun r => (finish r.1, r.2)) ↔
      parses target bodySize (sentFields head type edits ctx) = true ∧
        (Fields.find foldName (receivedFields head type edits remoteAddr ctx)
          HttpField.contentType).bind Net.serializationTypeOf = some serializationType ∧
          Kept serverKeys ctx (receivedFields head type edits remoteAddr ctx) := by
  have hlookup : ∀ {key val}, key ∉ serverKeys →
      ((finish ((Context.setMetaValue ∅ kSerializationType serializationType).setMetaValues
        ((receivedFields head type edits remoteAddr ctx).map fun e =>
          ⟨httpHeaderDecode e.1, httpHeaderDecode e.2⟩))).lookup key = some val ↔
        ∃ value, (httpHeaderEncode key, value) ∈ receivedFields head type edits remoteAddr ctx ∧
          httpHeaderDecode value = val) := fun hkey => by
    rw [hfinish hkey]
    exact h.encoded.lookup_iff fun heq => hkey (heq ▸ h.serverKeys)
  rw [receiveFields, ← receivedFields_eq]
  by_cases hparses : parses target bodySize (sentFields head type edits ctx) = true
  · rw [if_pos hparses, Option.bind_some, readContext_eq, Option.map_map]
    constructor
    · rintro ⟨ctx', hresult, hpairs⟩
      obtain ⟨serializationType', htype, heq⟩ := Option.map_eq_some_iff.1 hresult
      cases heq
      refine ⟨hparses, htype, fun e he hkey => (hlookup hkey).1 (hpairs ?_ hkey)⟩
      exact AList.mem_lookup_iff.2 he
    · rintro ⟨-, htype, hkept⟩
      rw [htype]
      refine ⟨_, rfl, fun {key val} hpair hkey => (hlookup hkey).2 (hkept ⟨key, val⟩ ?_ hkey)⟩
      exact AList.mem_lookup_iff.1 hpair
  · refine iff_of_false ?_ fun hright => hparses hright.1
    rintro ⟨ctx', hresult, -⟩
    rw [if_neg hparses] at hresult
    cases hresult

/-- When the meta pairs of a request make the round trip. -/
theorem roundTrips_iff_metaOk {finish : Context → Context}
    (hfinish : ∀ {ctx key}, key ∉ serverKeys → (finish ctx).lookup key = ctx.lookup key) :
    RoundTrips serverKeys ctx serializationType
      ((receiveFields target bodySize remoteAddr (sentFields head type edits ctx)).bind fun fields =>
        (readContext fields).map fun r => (finish r.1, r.2)) ↔
      (headerSize target (sentFields head type edits ctx) ≤ kHeaderLimit ∧ bodySize ≤ kBodyLimit) ∧
        MetaOk (allEdits edits remoteAddr) serverKeys ctx := by
  rw [h.roundTrips_iff_kept hfinish, h.parses_iff, h.forall_ne_nil_iff, h.contentType_iff]
  constructor
  · rintro ⟨⟨hsize, hnil, htransfer⟩, htype, hkept⟩
    exact ⟨hsize, hnil, htype, (h.transferEncoding_iff hkept).1 htransfer,
      fun e he hkey edit hedit => h.edited_of_kept hkept he hkey hedit,
      fun hentries hkey hothers e' he' => h.later_of_kept hkept hentries hkey hothers he'⟩
  · rintro ⟨hsize, hok⟩
    have hkept := h.kept_of_edited_later hok.edited hok.later
    exact ⟨⟨hsize, hok.key_ne_nil, (h.transferEncoding_iff hkept).2 hok.transferEncoding⟩,
      hok.contentType, hkept⟩

end RequestLayout

/-! ### The backends -/

theorem rpcLayout (call : UrlCall) (url : Url)
    (h : httpContentType serializationType = some type) :
    RequestLayout (httpHead call url) [setContentLength bodySize, setNotChunked, setKeepAlive]
      rpcServerKeys type serializationType remoteAddr bodySize where
  headNames := show ∀ name ∈ [host, userAgent, ascii "Timeout", contentType],
    httpHeaderEncode name = name ∧ name ≠ [] by decide
  editNames := show ∀ name ∈ [contentLength, transferEncoding, connection, remoteEndpoint],
    httpHeaderEncode name = name ∧ name ≠ [] by decide
  nodup := show ([contentLength, transferEncoding, connection, remoteEndpoint].map foldName).Nodup by
    decide
  filterNames := show ∀ name ∈ [transferEncoding, connection],
    (∀ name' ∈ [host, userAgent, ascii "Timeout", contentType], foldName name' ≠ foldName name) ∧
      ∀ key ∈ rpcServerKeys, foldName key ≠ foldName name by decide
  contentLength := List.mem_cons_self
  notChunked := List.mem_cons_of_mem _ List.mem_cons_self
  contentType := show ∀ name ∈ [HttpField.contentLength, transferEncoding, connection, remoteEndpoint],
    foldName HttpField.contentType ≠ foldName name by decide
  serverKeys := List.mem_cons_self
  serializationTypeOf := serializationTypeOf_httpContentType h

theorem channelLayout (serverHost : Bytes) (h : httpContentType serializationType = some type) :
    RequestLayout [(userAgent, ascii "aimrt")]
      [setKeepAlive, .set host serverHost, setContentLength bodySize, setNotChunked]
      channelServerKeys type serializationType remoteAddr bodySize where
  headNames := show ∀ name ∈ [userAgent, contentType], httpHeaderEncode name = name ∧ name ≠ [] by decide
  editNames := show ∀ name ∈ [connection, host, contentLength, transferEncoding, remoteEndpoint],
    httpHeaderEncode name = name ∧ name ≠ [] by decide
  nodup := show
    ([connection, host, contentLength, transferEncoding, remoteEndpoint].map foldName).Nodup by decide
  filterNames := show ∀ name ∈ [connection, transferEncoding],
    (∀ name' ∈ [userAgent, contentType], foldName name' ≠ foldName name) ∧
      ∀ key ∈ channelServerKeys, foldName key ≠ foldName name by decide
  contentLength := by simp
  notChunked := by simp
  contentType := show
    ∀ name ∈ [connection, host, HttpField.contentLength, transferEncoding, remoteEndpoint],
      foldName HttpField.contentType ≠ foldName name by decide
  serverKeys := List.mem_cons_self
  serializationTypeOf := serializationTypeOf_httpContentType h

theorem roundTrips_rpc_iff (call : UrlCall) (url : Url) (name funcName : Bytes)
    (h : httpContentType serializationType = some type) :
    RoundTrips rpcServerKeys call.ctx serializationType
      ((receiveFields target bodySize remoteAddr (rpcFields call url type bodySize)).bind
        (rpcContext name funcName)) ↔
      (headerSize target (rpcFields call url type bodySize) ≤ kHeaderLimit ∧ bodySize ≤ kBodyLimit) ∧
        MetaOk (rpcEdits bodySize remoteAddr) rpcServerKeys call.ctx := by
  have hsent : rpcFields call url type bodySize = sentFields (httpHead call url) type
      [setContentLength bodySize, setNotChunked, setKeepAlive] call.ctx := rfl
  have hfinish : ∀ {ctx : Context} {key}, key ∉ rpcServerKeys →
      ((ctx.setMetaValue kFunctionName funcName).setMetaValue kBackend name).lookup key =
        ctx.lookup key := by
    intro ctx key hkey
    have hfunc : kFunctionName ∈ rpcServerKeys := List.mem_cons_of_mem _ List.mem_cons_self
    have hbackend : kBackend ∈ rpcServerKeys := by simp [rpcServerKeys]
    rw [Context.setMetaValue, AList.lookup_insert_ne (ne_of_mem_of_not_mem hbackend hkey).symm,
      Context.setMetaValue, AList.lookup_insert_ne (ne_of_mem_of_not_mem hfunc hkey).symm]
  have hcontext : rpcContext name funcName = fun fields => (readContext fields).map fun r =>
      ((r.1.setMetaValue kFunctionName funcName).setMetaValue kBackend name, r.2) := rfl
  rw [hsent, hcontext, (rpcLayout call url h).roundTrips_iff_metaOk hfinish]
  exact Iff.rfl

theorem roundTrips_channel_iff (ctx : Context) (serverHost name : Bytes)
    (h : httpContentType serializationType = some type) :
    RoundTrips channelServerKeys ctx serializationType
      ((receiveFields target bodySize remoteAddr
        (channelFields ctx serializationType serverHost bodySize)).bind (channelContext name)) ↔
      (headerSize target (channelFields ctx serializationType serverHost bodySize) ≤ kHeaderLimit ∧
        bodySize ≤ kBodyLimit) ∧
          MetaOk (channelEdits serverHost bodySize remoteAddr) channelServerKeys ctx := by
  have hsent : channelFields ctx serializationType serverHost bodySize =
      sentFields [(userAgent, ascii "aimrt")] type
        [setKeepAlive, .set host serverHost, setContentLength bodySize, setNotChunked] ctx := by
    rw [channelFields, publishFields, channelContentType, h]
    rfl
  have hfinish : ∀ {ctx : Context} {key}, key ∉ channelServerKeys →
      (ctx.setMetaValue kBackend name).lookup key = ctx.lookup key := by
    intro ctx key hkey
    have hbackend : kBackend ∈ channelServerKeys := List.mem_cons_of_mem _ List.mem_cons_self
    rw [Context.setMetaValue, AList.lookup_insert_ne (ne_of_mem_of_not_mem hbackend hkey).symm]
  have hcontext : channelContext name = fun fields => (readContext fields).map fun r =>
      (r.1.setMetaValue kBackend name, r.2) := rfl
  rw [hsent, hcontext, (channelLayout serverHost h).roundTrips_iff_metaOk hfinish]
  exact Iff.rfl

def oneKey : Context := Context.setMetaValue ∅ (ascii "a b") (ascii "1/2")

/-- Two keys that only the case tells apart. -/
def caseKeys : Context :=
  ((Context.setMetaValue ∅ kSerializationType (ascii "json")).setMetaValue (ascii "a")
    (ascii "1")).setMetaValue (ascii "A") (ascii "2")

end AimRT.Net
