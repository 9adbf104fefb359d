import Mathlib.Data.List.AList
import AimRT.Util.BufferUtil

/-!
# Strings, contexts and their meta pairs

The string functions that the backends use.  The meta data of a channel or rpc context, a map from
keys to values, and the part of a frame that carries it: a count byte and then every key and value
behind a two-byte length.
-/

namespace AimRT.Util

open AimRT.Lib

/-- The bytes of an ASCII literal of the source. -/
def ascii (s : String) : Bytes := s.toList.map fun c => UInt8.ofNat c.toNat

/-! ### Strings -/

/-- `Trim`: no blanks at either end. -/
def trim (s : Bytes) : Bytes :=
  ((s.dropWhile (· == 32)).reverse.dropWhile (· == 32)).reverse

/-- `SplitToVec` at a one-byte separator: trimmed, without empty parts. -/
def splitToVec (source : Bytes) (sep : UInt8) : List Bytes :=
  ((source.splitOn sep).map trim).filter (· ≠ [])

def toHex (x : UInt8) : UInt8 := if x > 9 then x + 65 - 10 else x + 48

def isalnum (c : UInt8) : Bool :=
  (48 ≤ c && c ≤ 57) || (65 ≤ c && c ≤ 90) || (97 ≤ c && c ≤ 122)

/-- `UrlEncode`, in upper case. -/
def urlEncode (str : Bytes) : Bytes := str.flatMap fun c =>
  if isalnum c || c = 45 || c = 95 || c = 46 || c = 126 then [c]
  else if c = 32 then [43]
  else [37, toHex (c >>> 4), toHex (c &&& 15)]

/-! ### Contexts -/

/-- `meta_data_map_`; the order of the entries is that of the `unordered_map`. -/
abbrev Context := AList (fun _ : Bytes => Bytes)

namespace Context

/-- The value of a key, empty where the map has no such key. -/
def getMetaValue (ctx : Context) (key : Bytes) : Bytes := (ctx.lookup key).getD []

def setMetaValue (ctx : Context) (key val : Bytes) : Context := ctx.insert key val

/-- All keys and values, each key before its value. -/
def getMetaKeyValsArray (ctx : Context) : List Bytes := ctx.entries.flatMap fun e => [e.1, e.2]

theorem getMetaKeyValsArray_length (ctx : Context) :
    ctx.getMetaKeyValsArray.length / 2 = ctx.entries.length := by
  simp [getMetaKeyValsArray]

/-- `SetMetaValue` for pairs one after the other. -/
def setMetaValues (ctx : Context) (pairs : List (Σ _ : Bytes, Bytes)) : Context :=
  pairs.foldl (fun ctx e => ctx.setMetaValue e.1 e.2) ctx

/-- After the pairs of another context were set, its values come first. -/
theorem lookup_setMetaValues {pairs : List (Σ _ : Bytes, Bytes)} (h : pairs.NodupKeys) :
    ∀ (ctx : Context) (key : Bytes), (ctx.setMetaValues pairs).lookup key =
      (pairs.dlookup key).or (ctx.lookup key) := by
  induction pairs with
  | nil =>
    intro ctx key
    simp [setMetaValues]
  | cons e pairs ih =>
    intro ctx key
    obtain ⟨hnot, hnodup⟩ := List.nodupKeys_cons.1 h
    show ((ctx.setMetaValue e.1 e.2).setMetaValues pairs).lookup key = _
    rw [ih hnodup, setMetaValue]
    by_cases hkey : key = e.1
    · subst hkey
      rw [AList.lookup_insert, List.dlookup_cons_eq, List.dlookup_eq_none.2 hnot]
      rfl
    · rw [AList.lookup_insert_ne hkey, List.dlookup_cons_ne _ _ hkey]

end Context

/-! ### Meta pairs on the wire -/

/-- `context_meta_kv_size`. -/
def contextMetaKvSize (metaKeyValsArray : List Bytes) : ℕ :=
  1 + (metaKeyValsArray.map fun s => 2 + s.length).sum

def encodeContext (metaKeyValsArray : List Bytes) : Bytes :=
  leBytes 1 (UInt8.ofNat (metaKeyValsArray.length / 2)).toNat ++
    metaKeyValsArray.flatMap (encodeString .uInt16)

@[simp] theorem encodeContext_length (metaKeyValsArray : List Bytes) :
    (encodeContext metaKeyValsArray).length = contextMetaKvSize metaKeyValsArray := by
  simp [encodeContext, contextMetaKvSize, List.length_flatMap, BufferLenType.size]

/-- A context that fits the count byte and the lengths of the wire format. -/
structure Context.Fits (ctx : Context) : Prop where
  pairs : ctx.entries.length ≤ 255
  metaKeyVals : ∀ s ∈ ctx.getMetaKeyValsArray, s.length ≤ 65535

/-- Meta pairs that fit are far below `2 ^ 32` bytes. -/
theorem Context.Fits.contextMetaKvSize_le {ctx : Context} (h : ctx.Fits) :
    contextMetaKvSize ctx.getMetaKeyValsArray ≤ 1 + 510 * 65537 := by
  have hpairs := h.pairs
  have hcard := List.sum_le_card_nsmul (ctx.getMetaKeyValsArray.map fun s => 2 + s.length) 65537 (by
    intro n hn
    obtain ⟨s, hs, rfl⟩ := List.mem_map.1 hn
    have := h.metaKeyVals s hs
    omega)
  have hlen : ctx.getMetaKeyValsArray.length = 2 * ctx.entries.length := by
    rw [Context.getMetaKeyValsArray, List.length_flatMap]
    simp [Nat.mul_comm]
  rw [List.length_map, hlen, smul_eq_mul] at hcard
  rw [contextMetaKvSize]
  omega

/-- The encoder's loop over the meta array. -/
def setContext (metaKeyValsArray : List Bytes) (op : BufferOperator) :
    Except BufferError BufferOperator := do
  let op ← op.setUint8 (UInt8.ofNat (metaKeyValsArray.length / 2))
  metaKeyValsArray.foldlM (fun op s => op.setString s .uInt16) op

theorem writes_setContext {ctx : Context} (hcount : ¬ ctx.getMetaKeyValsArray.length / 2 > 255) :
    Writes (setContext ctx.getMetaKeyValsArray) (encodeContext ctx.getMetaKeyValsArray) ctx.Fits := by
  rw [Context.getMetaKeyValsArray_length] at hcount
  have hfits : (True ∧ ∀ s ∈ ctx.getMetaKeyValsArray, s.length ≤ BufferLenType.uInt16.max) ↔
      ctx.Fits :=
    ⟨fun h => ⟨Nat.not_lt.1 hcount, h.2⟩, fun h => ⟨trivial, h.metaKeyVals⟩⟩
  rw [← hfits]
  exact (writes_setUint8 _).bind
    (writes_foldlM (fun s => writes_setString s .uInt16) ctx.getMetaKeyValsArray)

/-- The decoder's loop over the meta pairs. -/
def getPairs : ℕ → Context → BufferReader Context
  | 0, ctx => pure ctx
  | n + 1, ctx => do
    let key ← ConstBufferOperator.getString .uInt16
    let val ← ConstBufferOperator.getString .uInt16
    getPairs n (ctx.setMetaValue key val)

def getContext (ctx : Context) : BufferReader Context := do
  let ctxNum ← ConstBufferOperator.getUint8
  getPairs ctxNum.toNat ctx

/-- What holds of the strings of all pairs holds of those of the first one and of the others. -/
theorem forall_pairs_cons {P : Bytes → Prop} {e : Σ _ : Bytes, Bytes} {pairs : List (Σ _ : Bytes, Bytes)}
    (h : ∀ s ∈ (e :: pairs).flatMap (fun e => [e.1, e.2]), P s) :
    P e.1 ∧ P e.2 ∧ ∀ s ∈ pairs.flatMap (fun e => [e.1, e.2]), P s := by
  rw [List.flatMap_cons] at h
  exact ⟨h _ (by simp), h _ (by simp), fun s hs => h s (List.mem_append_right _ hs)⟩

theorem reads_getPairs (pairs : List (Σ _ : Bytes, Bytes))
    (h : ∀ s ∈ pairs.flatMap (fun e => [e.1, e.2]), s.length ≤ BufferLenType.uInt16.max) :
    ∀ ctx : Context, Reads (getPairs pairs.length ctx)
      ((pairs.flatMap fun e => [e.1, e.2]).flatMap (encodeString .uInt16))
      (ctx.setMetaValues pairs) := by
  induction pairs with
  | nil => intro ctx; exact reads_pure ctx
  | cons e pairs ih =>
    intro ctx
    obtain ⟨hkey, hval, hpairs⟩ := forall_pairs_cons h
    have htail := ih hpairs (ctx.setMetaValue e.1 e.2)
    simpa [getPairs] using (reads_getString hkey).bind ((reads_getString hval).bind htail)

theorem reads_getContext {pub : Context} (h : pub.Fits) (ctx : Context) :
    Reads (getContext ctx) (encodeContext pub.getMetaKeyValsArray)
      (ctx.setMetaValues pub.entries) := by
  have hlt : pub.entries.length < UInt8.size := Nat.lt_succ_of_le h.pairs
  have hpairs := reads_getPairs pub.entries h.metaKeyVals ctx
  refine (reads_getUint8 _).bind ?_
  rwa [Context.getMetaKeyValsArray_length, UInt8.toNat_ofNat_of_lt' hlt]

end AimRT.Util
