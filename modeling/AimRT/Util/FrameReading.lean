import AimRT.Lib.Reading
import AimRT.Util.Context

/-!
# Frames in memory

`ConstBufferOperator` over memory that need not be as long as the operator has been told: the readers
of handlers that take the length of a frame from its first bytes.  `FrameReading.reader` gives the same
reader over a buffer, and the two agree when the memory is long enough.
-/

namespace AimRT.Util

open AimRT.Lib

abbrev FrameReading := Reading UInt8

namespace FrameReading

variable {β γ : Type}

def getBuffer (len : ℕ) : FrameReading Bytes := .take len .done

def getUint8 : FrameReading UInt8 := return UInt8.ofNat (ofLe (← getBuffer 1))

def getUint16 : FrameReading UInt16 := return UInt16.ofNat (ofLe (← getBuffer 2))

def getUint32 : FrameReading UInt32 := return UInt32.ofNat (ofLe (← getBuffer 4))

def getUint64 : FrameReading UInt64 := return UInt64.ofNat (ofLe (← getBuffer 8))

def getLen : BufferLenType → FrameReading ℕ
  | .uInt8 => return (← getUint8).toNat
  | .uInt16 => return (← getUint16).toNat
  | .uInt32 => return (← getUint32).toNat
  | .uInt64 => return (← getUint64).toNat

def getString (lenType : BufferLenType) : FrameReading Bytes := do
  let strLen ← getLen lenType
  getBuffer strLen

def getRemainingBuffer : FrameReading Bytes := .rest .done

def getPairs : ℕ → Context → FrameReading Context
  | 0, ctx => pure ctx
  | n + 1, ctx => do
    let key ← getString .uInt16
    let val ← getString .uInt16
    getPairs n (ctx.setMetaValue key val)

def getContext (ctx : Context) : FrameReading Context := do
  let ctxNum ← getUint8
  getPairs ctxNum.toNat ctx

/-- A handler reads four bytes of the payload, and behind them a frame of the length they tell. -/
def readPayload (told : UInt32 → ℕ) (t : FrameReading β) (payload : Bytes) : ReadResult β :=
  match getUint32.run 4 payload with
  | .value n => t.run (told n) (payload.drop 4)
  | .rejected => .rejected
  | .escaped => .escaped

/-! ### Agreement with the buffer operators -/

/-- The same reader over a buffer. -/
def reader : FrameReading β → BufferReader β
  | .done b => pure b
  | .take k next => do
    let bs ← ConstBufferOperator.getBuffer k
    reader (next bs)
  | .rest next => do
    let bs ← ConstBufferOperator.getRemainingBuffer
    reader (next bs)

@[simp] theorem reader_pure (b : β) : reader (pure b) = pure b := rfl

@[simp] theorem reader_bind (t : FrameReading β) (f : β → FrameReading γ) :
    reader (t >>= f) = reader t >>= fun b => reader (f b) := by
  show reader (t.bind f) = _
  induction t with
  | done b => rw [Reading.bind, reader, pure_bind]
  | take k next ih => simp only [Reading.bind_take, reader, ih, bind_assoc]
  | rest next ih => simp only [Reading.bind_rest, reader, ih, bind_assoc]

@[simp] theorem reader_getBuffer (len : ℕ) :
    reader (getBuffer len) = ConstBufferOperator.getBuffer len := by
  simp [getBuffer, reader]

@[simp] theorem reader_getUint8 : reader getUint8 = ConstBufferOperator.getUint8 := by
  simp [getUint8, ConstBufferOperator.getUint8]

@[simp] theorem reader_getUint16 : reader getUint16 = ConstBufferOperator.getUint16 := by
  simp [getUint16, ConstBufferOperator.getUint16]

@[simp] theorem reader_getUint32 : reader getUint32 = ConstBufferOperator.getUint32 := by
  simp [getUint32, ConstBufferOperator.getUint32]

@[simp] theorem reader_getUint64 : reader getUint64 = ConstBufferOperator.getUint64 := by
  simp [getUint64, ConstBufferOperator.getUint64]

@[simp] theorem reader_getLen (lenType : BufferLenType) :
    reader (getLen lenType) = ConstBufferOperator.getLen lenType := by
  cases lenType <;> simp [getLen, ConstBufferOperator.getLen]

@[simp] theorem reader_getString (lenType : BufferLenType) :
    reader (getString lenType) = ConstBufferOperator.getString lenType := by
  simp [getString, ConstBufferOperator.getString]

theorem reader_getPairs (n : ℕ) (ctx : Context) : reader (getPairs n ctx) = Util.getPairs n ctx := by
  induction n generalizing ctx with
  | zero => rfl
  | succ n ih => simp only [getPairs, Util.getPairs, reader_bind, reader_getString, ih]

@[simp] theorem reader_getContext (ctx : Context) : reader (getContext ctx) = Util.getContext ctx := by
  simp [getContext, Util.getContext, reader_getPairs]

@[simp] theorem reader_getRemainingBuffer :
    reader getRemainingBuffer = ConstBufferOperator.getRemainingBuffer := by
  simp [getRemainingBuffer, reader]

/-- Where the memory is as long as the operator has been told, both readers do the same. -/
theorem run_eq_reader (t : FrameReading β) {len : ℕ} {mem : Bytes} (hlen : len ≤ mem.length)
    (op : ConstBufferOperator) (hcur : op.cur ≤ op.buf.length) (hrest : op.rest = mem.take len) :
    t.run len mem = match reader t op with
      | .ok p => .value p.1
      | .error _ => .rejected := by
  induction t generalizing len mem op with
  | done b => rfl
  | take k next ih =>
    have hleft : op.buf.length - op.cur = len := by
      have := congrArg List.length hrest
      rw [ConstBufferOperator.rest, List.length_drop, List.length_take] at this
      omega
    rw [Reading.run_take]
    by_cases hk : k > len
    · have hget : reader (.take k next) op = .error .outOfBounds := by
        show (ConstBufferOperator.getBuffer k op >>= fun p => reader (next p.1) p.2) = _
        rw [ConstBufferOperator.getBuffer, if_pos (by omega)]
        rfl
      rw [if_pos hk, hget]
    · have hget : reader (.take k next) op = reader (next (mem.take k)) (op.skip k) := by
        show (ConstBufferOperator.getBuffer k op >>= fun p => reader (next p.1) p.2) = _
        rw [ConstBufferOperator.getBuffer, if_neg (by omega), hrest, List.take_take,
          Nat.min_eq_left (by omega)]
        rfl
      rw [if_neg hk, if_neg (by omega), hget]
      refine ih _ (by rw [List.length_drop]; omega) _ ?_ ?_
      · show op.cur + k ≤ op.buf.length
        omega
      · rw [ConstBufferOperator.rest_skip, hrest, List.drop_take]
  | rest next ih =>
    have hleft : op.buf.length - op.cur = len := by
      have := congrArg List.length hrest
      rw [ConstBufferOperator.rest, List.length_drop, List.length_take] at this
      omega
    have hget : reader (.rest next) op = reader (next (mem.take len)) (op.skip len) := by
      show (ConstBufferOperator.getBuffer (op.buf.length - op.cur) op >>=
        fun p => reader (next p.1) p.2) = _
      rw [ConstBufferOperator.getBuffer, if_neg (by omega), hleft, hrest, List.take_take,
        Nat.min_self]
      rfl
    rw [Reading.run_rest, if_neg (by omega), hget]
    refine ih _ (Nat.zero_le _) _ ?_ ?_
    · show op.cur + len ≤ op.buf.length
      omega
    · rw [ConstBufferOperator.rest_skip, hrest, List.drop_take, Nat.sub_self]

/-- How a reader ends on a buffer. -/
def readBuffer (r : BufferReader β) (bs : Bytes) : ReadResult β :=
  match r (ConstBufferOperator.ofBytes bs) with
  | .ok p => .value p.1
  | .error _ => .rejected

/-- The reader over the bytes that the operator has been told of. -/
theorem run_eq_readBuffer (t : FrameReading β) {len : ℕ} {mem : Bytes} (hlen : len ≤ mem.length) :
    t.run len mem = readBuffer (reader t) (mem.take len) :=
  run_eq_reader t hlen (ConstBufferOperator.ofBytes (mem.take len)) (Nat.zero_le _) rfl

/-! ### Reading what an encoder writes -/

/-- A reader that only computes on the bytes of a field. -/
theorem spells_ofLe {k n : ℕ} (h : n < 256 ^ k) (f : ℕ → β) :
    Reading.Spells (getBuffer k >>= fun bs => pure (f (ofLe bs))) (leBytes k n) (f n) := by
  have := Reading.spells_take (leBytes k n) fun bs => f (ofLe bs)
  rwa [leBytes_length, ofLe_leBytes_of_lt h] at this

theorem spells_getBuffer (bs : Bytes) : Reading.Spells (getBuffer bs.length) bs bs :=
  Reading.spells_take bs id

theorem spells_getUint8 (n : UInt8) : getUint8.Spells (leBytes 1 n.toNat) n := by
  have := spells_ofLe (k := 1) n.toNat_lt UInt8.ofNat
  rwa [UInt8.ofNat_toNat] at this

theorem spells_getUint32 (n : UInt32) : getUint32.Spells (leBytes 4 n.toNat) n := by
  have := spells_ofLe (k := 4) n.toNat_lt UInt32.ofNat
  rwa [UInt32.ofNat_toNat] at this

theorem spells_getLen {n : ℕ} {lenType : BufferLenType} (h : n ≤ lenType.max) :
    (getLen lenType).Spells (leBytes lenType.size n) n := by
  have hlt : n < lenType.max + 1 := Nat.lt_succ_of_le h
  cases lenType with
  | uInt8 =>
    have := spells_ofLe (k := 1) hlt fun n => (UInt8.ofNat n).toNat
    rwa [UInt8.toNat_ofNat_of_lt' hlt] at this
  | uInt16 =>
    have := spells_ofLe (k := 2) hlt fun n => (UInt16.ofNat n).toNat
    rwa [UInt16.toNat_ofNat_of_lt' hlt] at this
  | uInt32 =>
    have := spells_ofLe (k := 4) hlt fun n => (UInt32.ofNat n).toNat
    rwa [UInt32.toNat_ofNat_of_lt' hlt] at this
  | uInt64 =>
    have := spells_ofLe (k := 8) hlt fun n => (UInt64.ofNat n).toNat
    rwa [UInt64.toNat_ofNat_of_lt' hlt] at this

theorem spells_getString {s : Bytes} {lenType : BufferLenType} (h : s.length ≤ lenType.max) :
    (getString lenType).Spells (encodeString lenType s) s :=
  (spells_getLen h).bind (spells_getBuffer s)

theorem spells_getPairs (pairs : List (Σ _ : Bytes, Bytes))
    (h : ∀ s ∈ pairs.flatMap (fun e => [e.1, e.2]), s.length ≤ BufferLenType.uInt16.max) :
    ∀ ctx : Context, (getPairs pairs.length ctx).Spells
      ((pairs.flatMap fun e => [e.1, e.2]).flatMap (encodeString .uInt16))
      (ctx.setMetaValues pairs) := by
  induction pairs with
  | nil => exact fun ctx => Reading.spells_done ctx
  | cons e pairs ih =>
    intro ctx
    obtain ⟨hkey, hval, hpairs⟩ := forall_pairs_cons h
    have htail := ih hpairs (ctx.setMetaValue e.1 e.2)
    simpa [getPairs] using (spells_getString hkey).bind ((spells_getString hval).bind htail)

theorem spells_getContext {pub : Context} (h : pub.Fits) (ctx : Context) :
    (getContext ctx).Spells (encodeContext pub.getMetaKeyValsArray)
      (ctx.setMetaValues pub.entries) := by
  have hlt : pub.entries.length < UInt8.size := Nat.lt_succ_of_le h.pairs
  have hpairs := spells_getPairs pub.entries h.metaKeyVals ctx
  refine (spells_getUint8 _).bind ?_
  rwa [Context.getMetaKeyValsArray_length, UInt8.toNat_ofNat_of_lt' hlt]

/-- A payload that starts with its length. -/
theorem readPayload_append (told : UInt32 → ℕ) (t : FrameReading β) (n : UInt32) (mem : Bytes) :
    readPayload told t (leBytes 4 n.toNat ++ mem) = t.run (told n) mem := by
  have h := spells_getUint32 n _ .done 4 mem
  rw [Reading.bind_done, leBytes_length, if_pos le_rfl] at h
  rw [readPayload, h, Reading.run]
  have hdrop : (leBytes 4 n.toNat ++ mem).drop (leBytes 4 n.toNat).length = mem := List.drop_left
  rw [leBytes_length] at hdrop
  rw [hdrop]

/-- What is behind the told length does not matter. -/
theorem readPayload_append_append {told : UInt32 → ℕ} (t : FrameReading β) {n : UInt32} {data : Bytes}
    (h : told n ≤ data.length) (mem : Bytes) :
    readPayload told t (leBytes 4 n.toNat ++ data ++ mem) = t.run (told n) data := by
  rw [List.append_assoc, readPayload_append, Reading.run_append t h]

/-! ### Staying inside the payload -/

variable {told : UInt32 → ℕ} {t : FrameReading β} {payload : Bytes}

/-- The payload holds its length, and this length ends in front of the end of the first field that the
payload cuts off. -/
structure ToldInside (told : UInt32 → ℕ) (t : FrameReading β) (payload : Bytes) : Prop where
  four_le : 4 ≤ payload.length
  told_lt : ∀ e, t.limit (payload.drop 4) = some e →
    told (UInt32.ofNat (ofLe (payload.take 4))) < e

theorem run_getUint32 (payload : Bytes) : getUint32.run 4 payload =
    if 4 > payload.length then .escaped else .value (UInt32.ofNat (ofLe (payload.take 4))) := by
  show Reading.run (.take 4 fun bs => .done (UInt32.ofNat (ofLe bs))) 4 payload = _
  rw [Reading.run_take, if_neg (by omega)]
  rfl

theorem readPayload_ne_escaped_iff :
    readPayload told t payload ≠ .escaped ↔ ToldInside told t payload := by
  rw [readPayload, run_getUint32]
  by_cases hfour : 4 > payload.length
  · rw [if_pos hfour]
    refine ⟨fun h => absurd rfl h, fun h => ?_⟩
    have := h.four_le
    omega
  · rw [if_neg hfour]
    show t.run _ _ ≠ .escaped ↔ _
    rw [Ne, Reading.run_eq_escaped_iff]
    constructor
    · intro h
      exact ⟨by omega, fun e he => Nat.lt_of_not_le fun hle => h ⟨e, he, hle⟩⟩
    · rintro h ⟨e, he, hle⟩
      have := h.told_lt e he
      omega

/-- A payload that is as long as it tells is inside. -/
theorem ToldInside.of_le (h : 4 + told (UInt32.ofNat (ofLe (payload.take 4))) ≤ payload.length) :
    ToldInside told t payload := by
  refine ⟨by omega, fun e he => ?_⟩
  have hlt := Reading.length_lt_limit he
  rw [List.length_drop] at hlt
  omega

end FrameReading

end AimRT.Util
