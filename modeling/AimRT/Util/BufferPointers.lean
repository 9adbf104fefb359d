import AimRT.Lib.Run
import AimRT.Util.BufferUtil

/-!
# Buffer operators by their pointers

`BufferOperator` and `ConstBufferOperator` as they are in memory: three pointers of 64 bits, which wrap round.  A method
adds a length to the cursor and throws when the sum is behind the end; a length that takes the sum round the address
space is let through.

What a method does to its buffer is recorded as an access, a place and a number of bytes.  The spans and string views
that are handed out to be read are accesses, too.
-/

namespace AimRT.Util

open AimRT.Lib AimRT.Lib.Run

/-! ### Operators -/

/-- The exceptions of the operators. -/
inductive OperatorError where
  | outOfBounds
  | stringLengthOutOfRange
  | invalidBufferLenType
  deriving DecidableEq, Repr

/-- `start_`, `end_` and `cur_`, the memory, and the accesses so far. -/
structure PointerOperator where
  startPtr : UInt64
  endPtr : UInt64
  curPtr : UInt64
  mem : UInt64 → UInt8
  accesses : List (UInt64 × UInt64)

/-- Memory that an operator is made for: its end is a pointer, too. -/
structure Region where
  ptr : UInt64
  len : UInt64
  fits : ptr.toNat + len.toNat < 2 ^ 64

/-- Characters that a caller passes. -/
structure CharSpan where
  data : ℕ → UInt8
  size : UInt64

def CharSpan.ofBytes (bs : Bytes) : CharSpan := ⟨fun i => bs.getD i 0, UInt64.ofNat bs.length⟩

/-- `switch (len_type)`. -/
def lenTypeOf (lenType : UInt64) : Option BufferLenType :=
  if lenType = 1 then some .uInt8
  else if lenType = 2 then some .uInt16
  else if lenType = 4 then some .uInt32
  else if lenType = 8 then some .uInt64
  else none

/-- `memcpy` to a place, with what is copied. -/
def store (mem : UInt64 → UInt8) (dst : UInt64) (len : UInt64) (data : ℕ → UInt8) : UInt64 → UInt8 := fun a =>
  if a - dst < len then data (a - dst).toNat else mem a

namespace PointerOperator

variable {β : Type}

/-- A method returns or throws; the operator is left as it is then. -/
abbrev Outcome (β : Type) := Except OperatorError β × PointerOperator

def new (region : Region) (mem : UInt64 → UInt8) : PointerOperator :=
  ⟨region.ptr, region.ptr + region.len, region.ptr, mem, []⟩

/-- The bytes from `cur_` on. -/
def load (op : PointerOperator) (len : ℕ) : Bytes := (List.range len).map fun i => op.mem (op.curPtr + UInt64.ofNat i)

/-- An access at `cur_`, which goes on behind it. -/
def access (op : PointerOperator) (len : UInt64) : PointerOperator :=
  { op with curPtr := op.curPtr + len, accesses := op.accesses ++ [(op.curPtr, len)] }

/-! ### The methods of both -/

def skip (len : UInt64) (op : PointerOperator) : Outcome UInt64 :=
  if op.curPtr + len > op.endPtr then (.error .outOfBounds, op)
  else
    let op := { op with curPtr := op.curPtr + len }
    (.ok (op.curPtr - op.startPtr), op)

def jumpTo (pos : UInt64) (op : PointerOperator) : Outcome Unit :=
  if pos > op.endPtr - op.startPtr then (.error .outOfBounds, op)
  else (.ok (), { op with curPtr := op.startPtr + pos })

def getRemainingSize (op : PointerOperator) : UInt64 := op.endPtr - op.curPtr

/-! ### `BufferOperator` -/

/-- `memcpy(cur_, ..)` and `cur_ += ..`. -/
def put (s : CharSpan) (op : PointerOperator) : PointerOperator :=
  { op.access s.size with mem := store op.mem op.curPtr s.size s.data }

/-- The setters check, write and go on. -/
def write (s : CharSpan) (op : PointerOperator) : Outcome Unit :=
  if op.curPtr + s.size > op.endPtr then (.error .outOfBounds, op) else (.ok (), op.put s)

def setUint8 (n : UInt8) : PointerOperator → Outcome Unit := write ⟨(CharSpan.ofBytes (leBytes 1 n.toNat)).data, 1⟩

def setUint16 (n : UInt16) : PointerOperator → Outcome Unit := write ⟨(CharSpan.ofBytes (leBytes 2 n.toNat)).data, 2⟩

def setUint32 (n : UInt32) : PointerOperator → Outcome Unit := write ⟨(CharSpan.ofBytes (leBytes 4 n.toNat)).data, 4⟩

def setUint64 (n : UInt64) : PointerOperator → Outcome Unit := write ⟨(CharSpan.ofBytes (leBytes 8 n.toNat)).data, 8⟩

def setBuffer (buffer : CharSpan) : PointerOperator → Outcome Unit := write buffer

/-- The `switch` of `SetString`. -/
def setLen (strLen lenType : UInt64) (op : PointerOperator) : Outcome Unit :=
  match lenTypeOf lenType with
  | some .uInt8 =>
    if strLen.toNat > BufferLenType.uInt8.max then (.error .stringLengthOutOfRange, op)
    else op.setUint8 strLen.toUInt8
  | some .uInt16 =>
    if strLen.toNat > BufferLenType.uInt16.max then (.error .stringLengthOutOfRange, op)
    else op.setUint16 strLen.toUInt16
  | some .uInt32 =>
    if strLen.toNat > BufferLenType.uInt32.max then (.error .stringLengthOutOfRange, op)
    else op.setUint32 strLen.toUInt32
  | some .uInt64 =>
    if strLen.toNat > BufferLenType.uInt64.max then (.error .stringLengthOutOfRange, op)
    else op.setUint64 strLen
  | none => (.error .invalidBufferLenType, op)

def setString (s : CharSpan) (lenType : UInt64) (op : PointerOperator) : Outcome Unit :=
  if op.curPtr + lenType + s.size > op.endPtr then (.error .outOfBounds, op)
  else
    match op.setLen s.size lenType with
    | (.error e, op) => (.error e, op)
    | (.ok (), op) => (.ok (), op.put s)

/-! ### `ConstBufferOperator` -/

/-- The getters check, read and go on. -/
def read (len : UInt64) (value : PointerOperator → β) (op : PointerOperator) : Outcome β :=
  if op.curPtr + len > op.endPtr then (.error .outOfBounds, op) else (.ok (value op), op.access len)

def getUint8 : PointerOperator → Outcome UInt8 := read 1 fun op => UInt8.ofNat (ofLe (op.load 1))

def getUint16 : PointerOperator → Outcome UInt16 := read 2 fun op => UInt16.ofNat (ofLe (op.load 2))

def getUint32 : PointerOperator → Outcome UInt32 := read 4 fun op => UInt32.ofNat (ofLe (op.load 4))

def getUint64 : PointerOperator → Outcome UInt64 := read 8 fun op => UInt64.ofNat (ofLe (op.load 8))

/-- `GetBuffer(len)`: the place and the length of a span. -/
def getBuffer (len : UInt64) : PointerOperator → Outcome (UInt64 × UInt64) := read len fun op => (op.curPtr, len)

/-- `GetBuffer(dst, len)`. -/
def getBufferTo (dst len : UInt64) (op : PointerOperator) : Outcome Unit :=
  if op.curPtr + len > op.endPtr then (.error .outOfBounds, op)
  else (.ok (), { op.access len with mem := store op.mem dst len fun i => op.mem (op.curPtr + UInt64.ofNat i) })

/-- The `switch` of `GetString`. -/
def getLen (lenType : UInt64) (op : PointerOperator) : Outcome UInt64 :=
  match lenTypeOf lenType with
  | some .uInt8 => op.getUint8.map (Except.map UInt8.toUInt64) id
  | some .uInt16 => op.getUint16.map (Except.map UInt16.toUInt64) id
  | some .uInt32 => op.getUint32.map (Except.map UInt32.toUInt64) id
  | some .uInt64 => op.getUint64
  | none => (.error .invalidBufferLenType, op)

def getString (lenType : UInt64) (op : PointerOperator) : Outcome (UInt64 × UInt64) :=
  match op.getLen lenType with
  | (.error e, op) => (.error e, op)
  | (.ok strLen, op) => read strLen (fun op => (op.curPtr, strLen)) op

def getRemainingBuffer (op : PointerOperator) : Outcome (UInt64 × UInt64) := op.getBuffer op.getRemainingSize

end PointerOperator

/-! ### Calls -/

/-- A call of a method of `BufferOperator`. -/
inductive WriterCall where
  | skip (len : UInt64)
  | jumpTo (pos : UInt64)
  | setUint8 (n : UInt8)
  | setUint16 (n : UInt16)
  | setUint32 (n : UInt32)
  | setUint64 (n : UInt64)
  | setBuffer (buffer : CharSpan)
  | setString (s : CharSpan) (lenType : UInt64)
  | getRemainingSize

/-- A call of a method of `ConstBufferOperator`. -/
inductive ReaderCall where
  | skip (len : UInt64)
  | jumpTo (pos : UInt64)
  | getUint8
  | getUint16
  | getUint32
  | getUint64
  | getBuffer (len : UInt64)
  | getBufferTo (dst len : UInt64)
  | getString (lenType : UInt64)
  | getRemainingSize
  | getRemainingBuffer

namespace PointerOperator

/-- The operator behind a call, whether it has returned or thrown. -/
def writerStep (op : PointerOperator) : WriterCall → PointerOperator
  | .skip len => (op.skip len).2
  | .jumpTo pos => (op.jumpTo pos).2
  | .setUint8 n => (op.setUint8 n).2
  | .setUint16 n => (op.setUint16 n).2
  | .setUint32 n => (op.setUint32 n).2
  | .setUint64 n => (op.setUint64 n).2
  | .setBuffer buffer => (op.setBuffer buffer).2
  | .setString s lenType => (op.setString s lenType).2
  | .getRemainingSize => op

def readerStep (op : PointerOperator) : ReaderCall → PointerOperator
  | .skip len => (op.skip len).2
  | .jumpTo pos => (op.jumpTo pos).2
  | .getUint8 => op.getUint8.2
  | .getUint16 => op.getUint16.2
  | .getUint32 => op.getUint32.2
  | .getUint64 => op.getUint64.2
  | .getBuffer len => (op.getBuffer len).2
  | .getBufferTo dst len => (op.getBufferTo dst len).2
  | .getString lenType => (op.getString lenType).2
  | .getRemainingSize => op
  | .getRemainingBuffer => op.getRemainingBuffer.2

/-! ### Inside -/

/-- **What is asked**: the cursor is in the buffer or at its end, and all bytes that were read or written are in it. -/
structure Inside (op : PointerOperator) : Prop where
  start_le : op.startPtr.toNat ≤ op.curPtr.toNat
  le_end : op.curPtr.toNat ≤ op.endPtr.toNat
  accesses_in : ∀ access ∈ op.accesses, ∀ i < access.2.toNat,
    op.startPtr.toNat ≤ access.1.toNat + i ∧ access.1.toNat + i < op.endPtr.toNat

/-- A length behind the cursor does not go round the address space. -/
def NoWrap (op : PointerOperator) (len : ℕ) : Prop := op.curPtr.toNat + len < 2 ^ 64

variable {op : PointerOperator} {len : UInt64}

/-- The cursor with a length, and whether the check lets it pass. -/
theorem not_exceeds_iff (h : op.Inside) :
    ¬op.curPtr + len > op.endPtr ↔ op.curPtr.toNat + len.toNat ≤ op.endPtr.toNat ∨ ¬op.NoWrap len.toNat := by
  have hle := h.le_end
  have hend := op.endPtr.toNat_lt
  have hlen := len.toNat_lt
  rw [gt_iff_lt, UInt64.lt_iff_toNat_lt, UInt64.toNat_add, NoWrap]
  omega

/-- An access from the cursor on that is in the buffer does not wrap round: it would meet the byte at the end. -/
theorem noWrap_of_access {op' : PointerOperator} (h : op.Inside) (h' : op'.Inside) (hend : op'.endPtr = op.endPtr)
    (haccess : (op.curPtr, len) ∈ op'.accesses) : op.NoWrap len.toNat := by
  by_contra hwrap
  have hle := h.le_end
  have hlt := op.endPtr.toNat_lt
  rw [NoWrap] at hwrap
  have hlen : op.endPtr.toNat - op.curPtr.toNat < len.toNat := by omega
  obtain ⟨-, hbyte⟩ := h'.accesses_in (op.curPtr, len) haccess _ hlen
  rw [hend] at hbyte
  dsimp only at hbyte
  omega

theorem mem_access (op : PointerOperator) (len : UInt64) : (op.curPtr, len) ∈ (op.access len).accesses :=
  List.mem_append_right _ (List.mem_singleton_self _)

/-- An access that was let pass is in the buffer exactly when it does not wrap round. -/
theorem inside_access_iff (h : op.Inside) (hpass : ¬op.curPtr + len > op.endPtr) :
    (op.access len).Inside ↔ op.NoWrap len.toNat := by
  have hstart := h.start_le
  constructor
  · intro hinside
    exact noWrap_of_access h hinside rfl (op.mem_access len)
  · intro hwrap
    have hsum := ((not_exceeds_iff h).1 hpass).resolve_right (not_not.2 hwrap)
    have hcur : (op.curPtr + len).toNat = op.curPtr.toNat + len.toNat := by
      rw [UInt64.toNat_add, Nat.mod_eq_of_lt hwrap]
    refine ⟨?_, ?_, fun place hplace i hi => ?_⟩
    · show op.startPtr.toNat ≤ (op.curPtr + len).toNat
      omega
    · show (op.curPtr + len).toNat ≤ op.endPtr.toNat
      omega
    · rcases List.mem_append.1 hplace with hold | hnew
      · exact h.accesses_in place hold i hi
      · obtain rfl := List.mem_singleton.1 hnew
        show op.startPtr.toNat ≤ op.curPtr.toNat + i ∧ op.curPtr.toNat + i < op.endPtr.toNat
        dsimp only at hi
        omega

/-- The memory is not looked at. -/
theorem inside_mem_iff {mem : UInt64 → UInt8} : ({ op with mem := mem } : PointerOperator).Inside ↔ op.Inside :=
  ⟨fun h => ⟨h.1, h.2, h.3⟩, fun h => ⟨h.1, h.2, h.3⟩⟩

theorem inside_put_iff {s : CharSpan} (h : op.Inside) (hpass : ¬op.curPtr + s.size > op.endPtr) :
    (op.put s).Inside ↔ op.NoWrap s.size.toNat := inside_mem_iff.trans (inside_access_iff h hpass)

/-- A length that wraps round is let pass. -/
theorem noWrap_of_exceeds (h : op.Inside) (hexceeds : op.curPtr + len > op.endPtr) : op.NoWrap len.toNat := by
  by_contra hwrap
  exact (not_exceeds_iff h).2 (.inr hwrap) hexceeds

theorem inside_write_iff (h : op.Inside) (s : CharSpan) : (op.write s).2.Inside ↔ op.NoWrap s.size.toNat := by
  unfold write
  split_ifs with hexceeds
  · exact iff_of_true h (noWrap_of_exceeds h hexceeds)
  · exact inside_put_iff h hexceeds

theorem inside_read_iff {β : Type} (h : op.Inside) (len : UInt64) (value : PointerOperator → β) :
    (op.read len value).2.Inside ↔ op.NoWrap len.toNat := by
  unfold read
  split_ifs with hexceeds
  · exact iff_of_true h (noWrap_of_exceeds h hexceeds)
  · exact inside_access_iff h hexceeds

theorem inside_getBufferTo_iff (h : op.Inside) (dst len : UInt64) :
    (op.getBufferTo dst len).2.Inside ↔ op.NoWrap len.toNat := by
  unfold getBufferTo
  split_ifs with hexceeds
  · exact iff_of_true h (noWrap_of_exceeds h hexceeds)
  · exact inside_mem_iff.trans (inside_access_iff h hexceeds)

/-- A skip reads nothing: it may wrap round, if it comes out behind the start. -/
def SkipMeets (op : PointerOperator) (len : UInt64) : Prop :=
  op.NoWrap len.toNat ∨ op.startPtr.toNat + 2 ^ 64 ≤ op.curPtr.toNat + len.toNat

theorem inside_skip_iff (h : op.Inside) (len : UInt64) : (op.skip len).2.Inside ↔ op.SkipMeets len := by
  have hstart := h.start_le
  have hle := h.le_end
  have hend := op.endPtr.toNat_lt
  have hlen := len.toNat_lt
  unfold skip
  split_ifs with hexceeds
  · exact iff_of_true h (.inl (noWrap_of_exceeds h hexceeds))
  · have hsum := (not_exceeds_iff h).1 hexceeds
    have hcur : (op.curPtr + len).toNat = (op.curPtr.toNat + len.toNat) % 2 ^ 64 := UInt64.toNat_add _ _
    rw [NoWrap] at hsum
    constructor
    · intro hinside
      have hstart' : op.startPtr.toNat ≤ (op.curPtr + len).toNat := hinside.start_le
      rw [SkipMeets, NoWrap]
      omega
    · intro hmeets
      rw [SkipMeets, NoWrap] at hmeets
      refine ⟨?_, ?_, h.accesses_in⟩
      · show op.startPtr.toNat ≤ (op.curPtr + len).toNat
        omega
      · show (op.curPtr + len).toNat ≤ op.endPtr.toNat
        omega

theorem inside_jumpTo (h : op.Inside) (pos : UInt64) : (op.jumpTo pos).2.Inside := by
  have hstart := h.start_le
  have hle := h.le_end
  have hend := op.endPtr.toNat_lt
  unfold jumpTo
  split_ifs with hexceeds
  · exact h
  · have hsub : (op.endPtr - op.startPtr).toNat = op.endPtr.toNat - op.startPtr.toNat :=
      UInt64.toNat_sub_of_le _ _ (UInt64.le_iff_toNat_le.2 (hstart.trans hle))
    rw [gt_iff_lt, UInt64.lt_iff_toNat_lt, hsub] at hexceeds
    have hcur : (op.startPtr + pos).toNat = op.startPtr.toNat + pos.toNat := by
      rw [UInt64.toNat_add, Nat.mod_eq_of_lt (by omega)]
    refine ⟨?_, ?_, h.accesses_in⟩
    · show op.startPtr.toNat ≤ (op.startPtr + pos).toNat
      omega
    · show (op.startPtr + pos).toNat ≤ op.endPtr.toNat
      omega

/-! ### Strings -/

theorem lenTypeOf_eq_some {lenType : UInt64} {t : BufferLenType} (h : lenTypeOf lenType = some t) :
    lenType.toNat = t.size := by
  unfold lenTypeOf at h
  split_ifs at h with h₁ h₂ h₄ h₈ <;> cases h
  · rw [h₁]
    rfl
  · rw [h₂]
    rfl
  · rw [h₄]
    rfl
  · rw [h₈]
    rfl

/-- The bytes of a length prefix. -/
def lenSpan (strLen lenType : UInt64) : CharSpan :=
  ⟨(CharSpan.ofBytes (leBytes lenType.toNat strLen.toNat)).data, lenType⟩

/-- The prefix of a string that its type can hold. -/
theorem setLen_eq {lenType : UInt64} {t : BufferLenType} (ht : lenTypeOf lenType = some t) (strLen : UInt64) :
    op.setLen strLen lenType =
      if strLen.toNat > t.max then (.error .stringLengthOutOfRange, op) else op.write (lenSpan strLen lenType) := by
  have hsize := lenTypeOf_eq_some ht
  have htype : lenType = UInt64.ofNat t.size := by rw [← hsize, UInt64.ofNat_toNat]
  subst htype
  unfold setLen
  rw [ht]
  cases t with
  | uInt8 =>
    refine ite_congr rfl (fun _ => rfl) fun hmax => ?_
    have hlt : strLen.toNat < 2 ^ 8 := Nat.lt_of_le_pred (by decide) (Nat.le_of_not_gt hmax)
    show op.write ⟨(CharSpan.ofBytes (leBytes 1 strLen.toUInt8.toNat)).data, 1⟩ = _
    rw [UInt64.toNat_toUInt8, Nat.mod_eq_of_lt hlt]
    rfl
  | uInt16 =>
    refine ite_congr rfl (fun _ => rfl) fun hmax => ?_
    have hlt : strLen.toNat < 2 ^ 16 := Nat.lt_of_le_pred (by decide) (Nat.le_of_not_gt hmax)
    show op.write ⟨(CharSpan.ofBytes (leBytes 2 strLen.toUInt16.toNat)).data, 2⟩ = _
    rw [UInt64.toNat_toUInt16, Nat.mod_eq_of_lt hlt]
    rfl
  | uInt32 =>
    refine ite_congr rfl (fun _ => rfl) fun hmax => ?_
    have hlt : strLen.toNat < 2 ^ 32 := Nat.lt_of_le_pred (by decide) (Nat.le_of_not_gt hmax)
    show op.write ⟨(CharSpan.ofBytes (leBytes 4 strLen.toUInt32.toNat)).data, 4⟩ = _
    rw [UInt64.toNat_toUInt32, Nat.mod_eq_of_lt hlt]
    rfl
  | uInt64 => exact ite_congr rfl (fun _ => rfl) fun _ => rfl

/-- The length of the string behind a prefix. -/
def prefixLen (op : PointerOperator) (lenType : UInt64) : UInt64 := UInt64.ofNat (ofLe (op.load lenType.toNat))

theorem ofLe_load_lt (op : PointerOperator) (k : ℕ) : ofLe (op.load k) < 256 ^ k := by
  have hlt := ofLe_lt (op.load k)
  rwa [load, List.length_map, List.length_range] at hlt

/-- A getter that goes on with its value. -/
theorem read_map {β γ : Type} (len : UInt64) (value : PointerOperator → β) (f : β → γ) :
    (op.read len value).map (Except.map f) id = op.read len fun op => f (value op) := by
  unfold read
  split_ifs with hexceeds
  · rfl
  · rfl

/-- All types of a prefix are read the same way. -/
theorem getLen_eq {lenType : UInt64} {t : BufferLenType} (ht : lenTypeOf lenType = some t) :
    op.getLen lenType = op.read lenType fun op => op.prefixLen lenType := by
  have hsize := lenTypeOf_eq_some ht
  have htype : lenType = UInt64.ofNat t.size := by rw [← hsize, UInt64.ofNat_toNat]
  subst htype
  unfold getLen
  rw [ht]
  cases t with
  | uInt8 =>
    refine (read_map _ _ _).trans (congrArg (op.read 1) (funext fun op => ?_))
    exact UInt64.toNat_inj.1 (by
      rw [UInt8.toNat_toUInt64, UInt8.toNat_ofNat_of_lt' (ofLe_load_lt op 1)]
      exact (UInt64.toNat_ofNat_of_lt' ((ofLe_load_lt op 1).trans (by decide))).symm)
  | uInt16 =>
    refine (read_map _ _ _).trans (congrArg (op.read 2) (funext fun op => ?_))
    exact UInt64.toNat_inj.1 (by
      rw [UInt16.toNat_toUInt64, UInt16.toNat_ofNat_of_lt' (ofLe_load_lt op 2)]
      exact (UInt64.toNat_ofNat_of_lt' ((ofLe_load_lt op 2).trans (by decide))).symm)
  | uInt32 =>
    refine (read_map _ _ _).trans (congrArg (op.read 4) (funext fun op => ?_))
    exact UInt64.toNat_inj.1 (by
      rw [UInt32.toNat_toUInt64, UInt32.toNat_ofNat_of_lt' (ofLe_load_lt op 4)]
      exact (UInt64.toNat_ofNat_of_lt' ((ofLe_load_lt op 4).trans (by decide))).symm)
  | uInt64 => rfl

/-- A string is turned away by one of the checks, or it does not wrap round with its prefix. -/
def SetStringMeets (op : PointerOperator) (s : CharSpan) (lenType : UInt64) : Prop :=
  ∀ t, lenTypeOf lenType = some t → op.curPtr + lenType + s.size > op.endPtr ∨ s.size.toNat > t.max ∨
    op.curPtr + lenType > op.endPtr ∨ op.NoWrap (lenType.toNat + s.size.toNat)

/-- Two accesses, one behind the other: where the second is in the buffer exactly if it does not wrap round, both are
in it exactly if they do not wrap round together. -/
theorem inside_second_iff (h : op.Inside) {pre : UInt64} (hpre : ¬op.curPtr + pre > op.endPtr) {op' : PointerOperator}
    {n : ℕ} (hend : op'.endPtr = op.endPtr) (hfirst : (op.curPtr, pre) ∈ op'.accesses)
    (hsecond : (op.access pre).Inside → (op'.Inside ↔ (op.access pre).NoWrap n)) :
    op'.Inside ↔ op.NoWrap (pre.toNat + n) := by
  by_cases hwrap : op.NoWrap pre.toNat
  · have hcur : (op.curPtr + pre).toNat = op.curPtr.toNat + pre.toNat := by
      rw [UInt64.toNat_add, Nat.mod_eq_of_lt hwrap]
    refine (hsecond ((inside_access_iff h hpre).2 hwrap)).trans ?_
    show (op.curPtr + pre).toNat + n < 2 ^ 64 ↔ op.curPtr.toNat + (pre.toNat + n) < 2 ^ 64
    rw [hcur, Nat.add_assoc]
  · refine iff_of_false (fun hinside => hwrap (noWrap_of_access h hinside hend hfirst)) fun hmeets => hwrap ?_
    rw [NoWrap] at hmeets ⊢
    omega

/-- The characters behind the prefix are written with no check of their own. -/
theorem inside_put_put_iff (h : op.Inside) {pre s : CharSpan} (hpre : ¬op.curPtr + pre.size > op.endPtr)
    (hsum : ¬op.curPtr + pre.size + s.size > op.endPtr) :
    ((op.put pre).put s).Inside ↔ op.NoWrap (pre.size.toNat + s.size.toNat) := by
  refine inside_second_iff h hpre rfl (List.mem_append_left _ (op.mem_access pre.size)) fun haccess => ?_
  have hput : (op.put pre).Inside := inside_mem_iff.2 haccess
  exact inside_put_iff hput hsum

theorem inside_setString_iff (h : op.Inside) (s : CharSpan) (lenType : UInt64) :
    (op.setString s lenType).2.Inside ↔ op.SetStringMeets s lenType := by
  unfold setString
  split_ifs with hexceeds
  · exact iff_of_true h fun t _ => .inl hexceeds
  cases ht : lenTypeOf lenType with
  | none =>
    have hthrow : op.setLen s.size lenType = (.error .invalidBufferLenType, op) := by
      rw [setLen, ht]
    rw [hthrow]
    exact iff_of_true h fun t ht' => nomatch ht.symm.trans ht'
  | some t =>
    rw [setLen_eq ht]
    split_ifs with hmax
    · refine iff_of_true h fun t' ht' => ?_
      obtain rfl := Option.some.inj (ht.symm.trans ht')
      exact .inr (.inl hmax)
    by_cases hpre : op.curPtr + lenType > op.endPtr
    · have hthrow : op.write (lenSpan s.size lenType) = (.error .outOfBounds, op) := if_pos hpre
      rw [hthrow]
      exact iff_of_true h fun t _ => .inr (.inr (.inl hpre))
    · have hwrite : op.write (lenSpan s.size lenType) = (.ok (), op.put (lenSpan s.size lenType)) := if_neg hpre
      rw [hwrite]
      have hboth : ((op.put (lenSpan s.size lenType)).put s).Inside ↔ op.NoWrap (lenType.toNat + s.size.toNat) :=
        inside_put_put_iff h hpre hexceeds
      refine hboth.trans ?_
      constructor
      · intro hwrap t' _
        exact .inr (.inr (.inr hwrap))
      · intro hmeets
        rcases hmeets t ht with hbad | hbad | hbad | hwrap
        · exact absurd hbad hexceeds
        · exact absurd hbad hmax
        · exact absurd hbad hpre
        · exact hwrap

/-- A string is read where neither its prefix nor the length in that takes the cursor round. -/
def GetStringMeets (op : PointerOperator) (lenType : UInt64) : Prop :=
  ∀ t, lenTypeOf lenType = some t → op.NoWrap lenType.toNat ∧
    (op.curPtr.toNat + lenType.toNat ≤ op.endPtr.toNat → op.NoWrap (lenType.toNat + (op.prefixLen lenType).toNat))

/-- The characters are read where the prefix has been read. -/
theorem inside_read_access_iff (h : op.Inside) {pre len : UInt64} (hpre : ¬op.curPtr + pre > op.endPtr) {β : Type}
    (value : PointerOperator → β) :
    ((op.access pre).read len value).2.Inside ↔ op.NoWrap (pre.toNat + len.toNat) := by
  have hkeeps : ((op.access pre).read len value).2.endPtr = op.endPtr ∧
      (op.curPtr, pre) ∈ ((op.access pre).read len value).2.accesses := by
    unfold read
    split_ifs with hexceeds
    · exact ⟨rfl, op.mem_access pre⟩
    · exact ⟨rfl, List.mem_append_left _ (op.mem_access pre)⟩
  exact inside_second_iff h hpre hkeeps.1 hkeeps.2 fun haccess => inside_read_iff haccess len value

theorem inside_getString_iff (h : op.Inside) (lenType : UInt64) :
    (op.getString lenType).2.Inside ↔ op.GetStringMeets lenType := by
  unfold getString
  cases ht : lenTypeOf lenType with
  | none =>
    have hthrow : op.getLen lenType = (.error .invalidBufferLenType, op) := by
      rw [getLen, ht]
    rw [hthrow]
    exact iff_of_true h fun t ht' => nomatch ht.symm.trans ht'
  | some t =>
    rw [getLen_eq ht]
    have hpass : ¬op.curPtr + lenType > op.endPtr ↔
        op.curPtr.toNat + lenType.toNat ≤ op.endPtr.toNat ∨ ¬op.NoWrap lenType.toNat := not_exceeds_iff h
    by_cases hpre : op.curPtr + lenType > op.endPtr
    · have hthrow : op.read lenType (fun op => op.prefixLen lenType) = (.error .outOfBounds, op) := if_pos hpre
      rw [hthrow]
      refine iff_of_true h fun t _ => ⟨noWrap_of_exceeds h hpre, fun hle => ?_⟩
      exact absurd hpre (hpass.2 (.inl hle))
    · have hread : op.read lenType (fun op => op.prefixLen lenType) =
          (.ok (op.prefixLen lenType), op.access lenType) := if_neg hpre
      rw [hread]
      refine (inside_read_access_iff h hpre _).trans ?_
      constructor
      · intro hwrap t' _
        refine ⟨?_, fun _ => hwrap⟩
        rw [NoWrap] at hwrap ⊢
        omega
      · intro hmeets
        obtain ⟨hfirst, hsecond⟩ := hmeets t ht
        exact hsecond ((hpass.1 hpre).resolve_right (not_not.2 hfirst))

/-! ### Runs -/

theorem getRemainingSize_noWrap (h : op.Inside) : op.NoWrap op.getRemainingSize.toNat := by
  have hle := h.le_end
  have hend := op.endPtr.toNat_lt
  have hsub : op.getRemainingSize.toNat = op.endPtr.toNat - op.curPtr.toNat :=
    UInt64.toNat_sub_of_le _ _ (UInt64.le_iff_toNat_le.2 hle)
  rw [NoWrap, hsub]
  omega

/-- No length takes the cursor round the address space. -/
def WriterMeets (op : PointerOperator) : WriterCall → Prop
  | .skip len => op.SkipMeets len
  | .jumpTo _ => True
  | .setUint8 _ => op.NoWrap 1
  | .setUint16 _ => op.NoWrap 2
  | .setUint32 _ => op.NoWrap 4
  | .setUint64 _ => op.NoWrap 8
  | .setBuffer buffer => op.NoWrap buffer.size.toNat
  | .setString s lenType => op.SetStringMeets s lenType
  | .getRemainingSize => True

def ReaderMeets (op : PointerOperator) : ReaderCall → Prop
  | .skip len => op.SkipMeets len
  | .jumpTo _ => True
  | .getUint8 => op.NoWrap 1
  | .getUint16 => op.NoWrap 2
  | .getUint32 => op.NoWrap 4
  | .getUint64 => op.NoWrap 8
  | .getBuffer len => op.NoWrap len.toNat
  | .getBufferTo _ len => op.NoWrap len.toNat
  | .getString lenType => op.GetStringMeets lenType
  | .getRemainingSize => True
  | .getRemainingBuffer => True

theorem inside_writerStep_iff (h : op.Inside) (call : WriterCall) :
    (op.writerStep call).Inside ↔ op.WriterMeets call := by
  cases call with
  | skip len => exact inside_skip_iff h len
  | jumpTo pos => exact iff_of_true (inside_jumpTo h pos) trivial
  | setUint8 n => exact inside_write_iff h _
  | setUint16 n => exact inside_write_iff h _
  | setUint32 n => exact inside_write_iff h _
  | setUint64 n => exact inside_write_iff h _
  | setBuffer buffer => exact inside_write_iff h buffer
  | setString s lenType => exact inside_setString_iff h s lenType
  | getRemainingSize => exact iff_of_true h trivial

theorem inside_readerStep_iff (h : op.Inside) (call : ReaderCall) :
    (op.readerStep call).Inside ↔ op.ReaderMeets call := by
  cases call with
  | skip len => exact inside_skip_iff h len
  | jumpTo pos => exact iff_of_true (inside_jumpTo h pos) trivial
  | getUint8 => exact inside_read_iff h 1 _
  | getUint16 => exact inside_read_iff h 2 _
  | getUint32 => exact inside_read_iff h 4 _
  | getUint64 => exact inside_read_iff h 8 _
  | getBuffer len => exact inside_read_iff h len _
  | getBufferTo dst len => exact inside_getBufferTo_iff h dst len
  | getString lenType => exact inside_getString_iff h lenType
  | getRemainingSize => exact iff_of_true h trivial
  | getRemainingBuffer =>
    have hread : op.getRemainingBuffer.2.Inside ↔ op.NoWrap op.getRemainingSize.toNat := inside_read_iff h _ _
    exact iff_of_true (hread.2 (getRemainingSize_noWrap h)) trivial

theorem inside_new (region : Region) (mem : UInt64 → UInt8) : (new region mem).Inside := by
  have hend : (region.ptr + region.len).toNat = region.ptr.toNat + region.len.toNat := by
    rw [UInt64.toNat_add, Nat.mod_eq_of_lt region.fits]
  refine ⟨Nat.le_refl _, ?_, fun access haccess => absurd haccess List.not_mem_nil⟩
  show region.ptr.toNat ≤ (region.ptr + region.len).toNat
  omega

/-- **Over every region, with every memory and in every run**: an operator stays in its buffer exactly as long as no
length takes its cursor round the address space. -/
theorem allHold_inside_iff (region : Region) (mem : UInt64 → UInt8) :
    (∀ calls, AllHold writerStep Inside (new region mem) calls ↔
      AllMeet writerStep WriterMeets (new region mem) calls) ∧
    ∀ calls, AllHold readerStep Inside (new region mem) calls ↔
      AllMeet readerStep ReaderMeets (new region mem) calls :=
  ⟨fun calls => allHold_iff_allMeet Inside id (fun h _ => (inside_writerStep_iff h _).2)
      (fun h _ => (inside_writerStep_iff h _).1) (inside_new region mem) calls,
    fun calls => allHold_iff_allMeet Inside id (fun h _ => (inside_readerStep_iff h _).2)
      (fun h _ => (inside_readerStep_iff h _).1) (inside_new region mem) calls⟩

/-- The eight bytes at 1000 say that 2^64 - 100 characters follow: `GetString` returns them. -/
theorem not_allHold_inside : ¬∀ (region : Region) (mem : UInt64 → UInt8),
    (∀ calls, AllHold writerStep Inside (new region mem) calls) ∧
    ∀ calls, AllHold readerStep Inside (new region mem) calls := by
  intro hall
  have hrun := (hall ⟨1000, 8, by decide⟩ fun a => if a = 1000 then 0x9C else 0xFF).2 [.getString 8]
  have hstart := hrun.last.start_le
  revert hstart
  decide

end PointerOperator

end AimRT.Util
