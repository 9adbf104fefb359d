import AimRT.Net.HttpNames

/-!
# Meta pairs over http

When the context of the server has every meta pair of the client.  The pairs share the fields of a
request with those that the protocol sets: in front of the pairs, and behind them and on the server
(the edits).  A pair is lost where the name of a later pair is its own up to case, and where an edit
has its name, unless the edit happens to leave just this pair.
-/

namespace AimRT.Net

open AimRT.Lib AimRT.Util AimRT.Rpc
open HttpField HttpFields

abbrev HttpEdit := Fields.Edit Bytes Bytes

/-- The server has every pair of the client, but for the keys that it sets itself, and decodes the body
with the serialization type of the client. -/
def RoundTrips (serverKeys : List Bytes) (ctx : Context) (serializationType : Bytes)
    (result : Option (Context × Bytes)) : Prop :=
  ∃ ctx', result = some (ctx', serializationType) ∧
    ∀ {key val}, ctx.lookup key = some val → key ∉ serverKeys → ctx'.lookup key = some val

def rpcServerKeys : List Bytes := [kSerializationType, kFunctionName, kBackend, remoteEndpoint]

def channelServerKeys : List Bytes := [kSerializationType, kBackend, remoteEndpoint]

/-- What is done to the fields of a call behind the meta pairs. -/
def rpcEdits (bodySize : ℕ) (remoteAddr : Bytes) : List HttpEdit :=
  [setContentLength bodySize, setNotChunked, setKeepAlive, .set remoteEndpoint remoteAddr]

def channelEdits (serverHost : Bytes) (bodySize : ℕ) (remoteAddr : Bytes) : List HttpEdit :=
  [setKeepAlive, .set host serverHost, setContentLength bodySize, setNotChunked,
    .set remoteEndpoint remoteAddr]

/-- An edit leaves a pair as it is. -/
def EditKeeps (key val : Bytes) : HttpEdit → Prop
  | .set name value => key = name ∧ httpHeaderDecode value = val
  | .filter name keep => key = name ∧ keep (httpHeaderEncode val)

/-- No key is empty, or the name of a field that decides how the body is read; what has the name of an
edit is left as it is; and no later key has the name of a key, up to case. -/
structure MetaOk (edits : List HttpEdit) (serverKeys : List Bytes) (ctx : Context) : Prop where
  key_ne_nil : ∀ e ∈ ctx.entries, e.1 ≠ []
  contentType : ∀ e ∈ ctx.entries, foldName e.1 ≠ foldName contentType
  transferEncoding : ∀ e ∈ ctx.entries, foldName e.1 ≠ foldName transferEncoding
  edited : ∀ e ∈ ctx.entries, e.1 ∉ serverKeys → ∀ edit ∈ edits,
    foldName e.1 = foldName edit.name → EditKeeps e.1 e.2 edit
  later : ∀ {entries₁ e entries₂}, ctx.entries = entries₁ ++ e :: entries₂ → e.1 ∉ serverKeys →
    (∀ edit ∈ edits, foldName e.1 ≠ foldName edit.name) → ∀ e' ∈ entries₂, foldName e'.1 ≠ foldName e.1

/-! ### What is read from the fields -/

variable {fields : HttpFields} {ctx : Context} {key val : Bytes}

/-- The names are encoded ones, each of them is there once. -/
structure Encoded (fields : HttpFields) : Prop where
  distinct : Fields.Distinct foldName fields
  encode : ∀ e ∈ fields, httpHeaderEncode (httpHeaderDecode e.1) = e.1

theorem Encoded.nodupKeys (h : Encoded fields) :
    (fields.map fun e => (⟨httpHeaderDecode e.1, httpHeaderDecode e.2⟩ : Σ _ : Bytes, Bytes)).NodupKeys := by
  rw [List.NodupKeys, List.keys, List.map_map]
  refine List.Nodup.map_on (fun e he e' he' heq => ?_) (List.Nodup.of_map _ h.distinct)
  have hname : e.1 = e'.1 := by
    rw [← h.encode e he, ← h.encode e' he']
    exact congrArg httpHeaderEncode heq
  exact h.distinct.eq_of_fold_eq he he' (congrArg foldName hname)

/-- A key is read from the field whose name encodes it. -/
theorem Encoded.lookup_iff (h : Encoded fields) {serializationType : Bytes}
    (hkey : key ≠ kSerializationType) :
    ((Context.setMetaValue ∅ kSerializationType serializationType).setMetaValues
      (fields.map fun e => ⟨httpHeaderDecode e.1, httpHeaderDecode e.2⟩)).lookup key = some val ↔
      ∃ value, (httpHeaderEncode key, value) ∈ fields ∧ httpHeaderDecode value = val := by
  have hbase : (Context.setMetaValue ∅ kSerializationType serializationType).lookup key = none := by
    rw [Context.setMetaValue, AList.lookup_insert_ne hkey, AList.lookup_empty]
  rw [Context.lookup_setMetaValues h.nodupKeys, hbase, Option.or_none, ← Option.mem_def,
    List.mem_dlookup_iff h.nodupKeys, List.mem_map]
  constructor
  · rintro ⟨e, he, heq⟩
    cases heq
    exact ⟨e.2, by rwa [h.encode e he], rfl⟩
  · rintro ⟨value, hmem, rfl⟩
    exact ⟨_, hmem, by rw [httpHeaderDecode_encode]⟩

/-! ### The fields that are sent -/

/-- The fields have every pair of the context, but for these keys. -/
def Kept (serverKeys : List Bytes) (ctx : Context) (fields : HttpFields) : Prop :=
  ∀ e ∈ ctx.entries, e.1 ∉ serverKeys →
    ∃ value, (httpHeaderEncode e.1, value) ∈ fields ∧ httpHeaderDecode value = e.2

/-- The fields in front of the meta pairs and the edits behind them.  Their names are encoded as they
are; an edit that depends on the value that is there has the name of no field of the protocol and of no
key that the server sets. -/
structure Layout (head : HttpFields) (edits : List HttpEdit) (serverKeys : List Bytes) : Prop where
  headNames : ∀ name ∈ head.map Prod.fst, httpHeaderEncode name = name ∧ name ≠ []
  editNames : ∀ name ∈ edits.map Fields.Edit.name, httpHeaderEncode name = name ∧ name ≠ []
  nodup : (edits.map fun edit => foldName edit.name).Nodup
  filterNames : ∀ name ∈ edits.filterMap Fields.Edit.filtered,
    (∀ name' ∈ head.map Prod.fst, foldName name' ≠ foldName name) ∧
      ∀ key ∈ serverKeys, foldName key ≠ foldName name

variable {head : HttpFields} {edits : List HttpEdit} {serverKeys : List Bytes}

/-- The fields without the edits. -/
abbrev firstFields (head : HttpFields) (ctx : Context) : HttpFields :=
  Fields.setAll foldName [] (head ++ metaFields ctx)

abbrev editedFields (head : HttpFields) (edits : List HttpEdit) (ctx : Context) : HttpFields :=
  Fields.applyAll foldName edits (firstFields head ctx)

theorem metaFields_append {entries₁ entries₂ : List (Σ _ : Bytes, Bytes)} {e : Σ _ : Bytes, Bytes}
    (h : ctx.entries = entries₁ ++ e :: entries₂) :
    metaFields ctx = entries₁.map metaField ++ metaField e :: entries₂.map metaField := by
  rw [metaFields, h, List.map_append, List.map_cons]

/-- The name of a key is in the fields, with the value of this pair or a later one. -/
theorem exists_mem_firstFields {entries₁ entries₂ : List (Σ _ : Bytes, Bytes)}
    {e : Σ _ : Bytes, Bytes} (h : ctx.entries = entries₁ ++ e :: entries₂) :
    ∃ e' ∈ e :: entries₂, foldName e'.1 = foldName e.1 ∧ metaField e' ∈ firstFields head ctx := by
  obtain ⟨field, hfield, hname, hmem⟩ := @Fields.exists_mem_setAll _ _ _ _ foldName
    (head ++ entries₁.map metaField) (metaField e) (entries₂.map metaField)
  rw [List.append_assoc, ← metaFields_append h] at hmem
  obtain ⟨e', he', rfl⟩ := List.mem_map.1 (List.map_cons ▸ hfield)
  exact ⟨e', he', fold_encode_eq_iff.1 hname, hmem⟩

namespace Layout

variable (h : Layout head edits serverKeys)
include h

theorem head_encode {e : Bytes × Bytes} (he : e ∈ head) : httpHeaderEncode e.1 = e.1 :=
  (h.headNames _ (List.mem_map_of_mem he)).1

theorem edit_encode {edit : HttpEdit} (hedit : edit ∈ edits) :
    httpHeaderEncode edit.name = edit.name :=
  (h.editNames _ (List.mem_map_of_mem hedit)).1

theorem filter_head {name : Bytes} {keep : Bytes → Bool} (hedit : .filter name keep ∈ edits)
    {e : Bytes × Bytes} (he : e ∈ head) : foldName e.1 ≠ foldName name :=
  (h.filterNames name (List.mem_filterMap.2 ⟨_, hedit, rfl⟩)).1 _ (List.mem_map_of_mem he)

theorem filter_serverKeys {name : Bytes} {keep : Bytes → Bool} (hedit : .filter name keep ∈ edits)
    (hkey : foldName key = foldName name) : key ∉ serverKeys :=
  fun hserver => (h.filterNames name (List.mem_filterMap.2 ⟨_, hedit, rfl⟩)).2 key hserver hkey

/-- The name of an edit is that of a key up to case exactly when the key is. -/
theorem fold_encode_iff {edit : HttpEdit} (hedit : edit ∈ edits) :
    foldName (httpHeaderEncode key) = foldName edit.name ↔ foldName key = foldName edit.name := by
  conv_lhs => rw [← h.edit_encode hedit]
  exact fold_encode_eq_iff

theorem mem_editedFields {e : Bytes × Bytes} : e ∈ editedFields head edits ctx ↔
    (∃ edit ∈ edits, edit.Gives foldName (firstFields head ctx) e) ∨
      (e ∈ firstFields head ctx ∧ ∀ edit ∈ edits, foldName e.1 ≠ foldName edit.name) :=
  Fields.mem_applyAll (Fields.distinct_setAll _) h.nodup

theorem encoded : Encoded (editedFields head edits ctx) where
  distinct := Fields.distinct_applyAll (Fields.distinct_setAll _) edits
  encode := by
    intro e he
    have hname : ∀ name, httpHeaderEncode name = e.1 →
        httpHeaderEncode (httpHeaderDecode e.1) = e.1 := by
      rintro name hname
      rw [← hname, httpHeaderDecode_encode]
    rcases h.mem_editedFields.1 he with ⟨edit, hedit, hgives⟩ | ⟨hmem, -⟩
    · exact hname edit.name ((h.edit_encode hedit).trans hgives.name_eq.symm)
    · rcases List.mem_append.1 (Fields.mem_of_mem_setAll hmem) with hhead | hmeta
      · exact hname e.1 (h.head_encode hhead)
      · obtain ⟨e', -, rfl⟩ := List.mem_map.1 hmeta
        exact hname e'.1 rfl

/-- A pair that an edit leaves. -/
theorem editKeeps_of_gives {edit : HttpEdit} (hedit : edit ∈ edits) {value : Bytes}
    (hgives : edit.Gives foldName (firstFields head ctx) (httpHeaderEncode key, value))
    (hvalue : httpHeaderDecode value = val) : EditKeeps key val edit := by
  have hkey : key = edit.name :=
    httpHeaderEncode_injective (hgives.name_eq.trans (h.edit_encode hedit).symm)
  cases edit with
  | set name value' =>
    have heq : value = value' := congrArg Prod.snd hgives
    exact ⟨hkey, heq ▸ hvalue⟩
  | filter name keep =>
    obtain ⟨-, hkeep, name', hname, hmem⟩ := hgives
    rcases List.mem_append.1 (Fields.mem_of_mem_setAll hmem) with hhead | hmeta
    · exact absurd hname (h.filter_head hedit hhead)
    · obtain ⟨e, -, heq⟩ := List.mem_map.1 hmeta
      have hval : value = httpHeaderEncode val := by
        rw [← hvalue, ← show httpHeaderEncode e.2 = value from congrArg Prod.snd heq,
          httpHeaderDecode_encode]
      exact ⟨hkey, hval ▸ hkeep⟩

theorem edited_of_kept (hkept : Kept serverKeys ctx (editedFields head edits ctx))
    {e : Σ _ : Bytes, Bytes} (he : e ∈ ctx.entries) (hkey : e.1 ∉ serverKeys) {edit : HttpEdit}
    (hedit : edit ∈ edits) (hname : foldName e.1 = foldName edit.name) : EditKeeps e.1 e.2 edit := by
  obtain ⟨value, hmem, hvalue⟩ := hkept e he hkey
  have hencode := (h.fold_encode_iff hedit).2 hname
  rcases h.mem_editedFields.1 hmem with ⟨edit', hedit', hgives⟩ | ⟨-, hothers⟩
  · have heq : edit' = edit :=
      List.inj_on_of_nodup_map h.nodup hedit' hedit (hgives.fold_eq.symm.trans hencode)
    exact h.editKeeps_of_gives hedit (heq ▸ hgives) hvalue
  · exact absurd hencode (hothers edit hedit)

/-- Where a later key has the name of a key, the field is that of a later pair. -/
theorem later_of_kept (hkept : Kept serverKeys ctx (editedFields head edits ctx))
    {entries₁ entries₂ : List (Σ _ : Bytes, Bytes)} {e e' : Σ _ : Bytes, Bytes}
    (hentries : ctx.entries = entries₁ ++ e :: entries₂) (hkey : e.1 ∉ serverKeys)
    (hothers : ∀ edit ∈ edits, foldName e.1 ≠ foldName edit.name) (he' : e' ∈ entries₂) :
    foldName e'.1 ≠ foldName e.1 := by
  intro hname
  obtain ⟨value, hmem, -⟩ := hkept e (hentries ▸ by simp) hkey
  obtain ⟨entries₃, entries₄, rfl⟩ := List.append_of_mem he'
  rcases h.mem_editedFields.1 hmem with ⟨edit, hedit, hgives⟩ | ⟨hfirst, -⟩
  · exact hothers edit hedit ((h.fold_encode_iff hedit).1 hgives.fold_eq)
  · obtain ⟨e'', he'', hname', hmem'⟩ := @exists_mem_firstFields _ head _ _ _
      (show ctx.entries = (entries₁ ++ e :: entries₃) ++ e' :: entries₄ by simpa using hentries)
    have hfield : metaField e'' = (httpHeaderEncode e.1, value) :=
      (Fields.distinct_setAll _).eq_of_fold_eq hmem' hfirst
        (fold_encode_eq_iff.2 (hname'.trans hname))
    have heq : e''.1 = e.1 := httpHeaderEncode_injective (congrArg Prod.fst hfield)
    have hnodup : (entries₁ ++ e :: entries₃ ++ e' :: entries₄).NodupKeys := by
      simpa [hentries] using ctx.nodupKeys
    rw [List.NodupKeys, List.keys, List.map_append] at hnodup
    exact List.disjoint_of_nodup_append hnodup (List.mem_map.2 ⟨e, by simp, rfl⟩)
      (List.mem_map.2 ⟨e'', he'', heq⟩)

theorem kept_of_edited_later
    (hedited : ∀ e ∈ ctx.entries, e.1 ∉ serverKeys → ∀ edit ∈ edits,
      foldName e.1 = foldName edit.name → EditKeeps e.1 e.2 edit)
    (hlater : ∀ {entries₁ e entries₂}, ctx.entries = entries₁ ++ e :: entries₂ → e.1 ∉ serverKeys →
      (∀ edit ∈ edits, foldName e.1 ≠ foldName edit.name) →
        ∀ e' ∈ entries₂, foldName e'.1 ≠ foldName e.1) :
    Kept serverKeys ctx (editedFields head edits ctx) := by
  intro e he hkey
  obtain ⟨entries₁, entries₂, hentries⟩ := List.append_of_mem he
  by_cases hothers : ∀ edit ∈ edits, foldName e.1 ≠ foldName edit.name
  · refine ⟨httpHeaderEncode e.2, h.mem_editedFields.2 (.inr ⟨Fields.mem_setAll.2 ?_, ?_⟩),
      httpHeaderDecode_encode e.2⟩
    · refine ⟨head ++ entries₁.map metaField, entries₂.map metaField, ?_, ?_⟩
      · rw [metaFields_append hentries, List.append_assoc]
        rfl
      · intro field hfield
        obtain ⟨e', he', rfl⟩ := List.mem_map.1 hfield
        exact fun hname => hlater hentries hkey hothers e' he' (fold_encode_eq_iff.1 hname)
    · exact fun edit hedit => hothers edit hedit ∘ (h.fold_encode_iff hedit).1
  · push Not at hothers
    obtain ⟨edit, hedit, hname⟩ := hothers
    have hkeeps := hedited e he hkey edit hedit hname
    cases edit with
    | set name value =>
      have hencode : httpHeaderEncode e.1 = name := hkeeps.1 ▸ h.edit_encode hedit
      exact ⟨value, h.mem_editedFields.2 (.inl ⟨_, hedit, congrArg (·, value) hencode⟩), hkeeps.2⟩
    | filter name keep =>
      -- every key of this name is spelled as the edit has it, so there is only one
      obtain ⟨e', he', hname', hmem⟩ := @exists_mem_firstFields _ head _ _ _ hentries
      have hmem' : e' ∈ ctx.entries := hentries ▸ List.mem_append_right _ he'
      have hkey' : e'.1 ∉ serverKeys := h.filter_serverKeys hedit (hname'.trans hname)
      have heq : e' = e := ctx.nodupKeys.eq_of_fst_eq hmem' he
        ((hedited e' hmem' hkey' _ hedit (hname'.trans hname)).1.trans hkeeps.1.symm)
      subst heq
      refine ⟨httpHeaderEncode e'.2, h.mem_editedFields.2 (.inl ⟨_, hedit, ?_, hkeeps.2, ?_⟩),
        httpHeaderDecode_encode e'.2⟩
      · exact hkeeps.1 ▸ h.edit_encode hedit
      · exact ⟨httpHeaderEncode e'.1, (h.fold_encode_iff hedit).2 hname, hmem⟩

end Layout

end AimRT.Net
