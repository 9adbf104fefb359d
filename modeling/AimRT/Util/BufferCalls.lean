import AimRT.Util.BufferUtil

/-!
# What a buffer operator writes is read back

The methods of `BufferOperator` with the operator that they leave when they throw, and the bytes of their numbers as
`SetBufFromUint*` writes them, on a machine of either byte order.  A method is `keeping` of the writer that says what it
does when it returns: every check stands before every write.

A run of setters that all return puts the bytes of its calls, one behind the other; a run of getters that correspond to
them takes those bytes off again.
-/

namespace AimRT.Util

open AimRT.Lib

/-! ### Numbers in a buffer -/

/-- `std::endian::native`. -/
inductive Endian where
  | little
  | big
  deriving DecidableEq, Repr

/-- The bytes of a number in memory. -/
def Endian.object (native : Endian) (k n : ℕ) : Bytes :=
  match native with
  | .little => leBytes k n
  | .big => (leBytes k n).reverse

/-- The number behind bytes in memory. -/
def Endian.value (native : Endian) (p : Bytes) : ℕ :=
  match native with
  | .little => ofLe p
  | .big => ofLe p.reverse

def setBufFromUint64 (n : UInt64) : Bytes :=
  [(n &&& 0xFF).toUInt8, ((n >>> 8) &&& 0xFF).toUInt8, ((n >>> 16) &&& 0xFF).toUInt8, ((n >>> 24) &&& 0xFF).toUInt8,
    ((n >>> 32) &&& 0xFF).toUInt8, ((n >>> 40) &&& 0xFF).toUInt8, ((n >>> 48) &&& 0xFF).toUInt8,
    ((n >>> 56) &&& 0xFF).toUInt8]

def getUint64FromBuf (p : Bytes) : UInt64 :=
  (p.getD 0 0).toUInt64 + ((p.getD 1 0).toUInt64 <<< 8) + ((p.getD 2 0).toUInt64 <<< 16) +
    ((p.getD 3 0).toUInt64 <<< 24) + ((p.getD 4 0).toUInt64 <<< 32) + ((p.getD 5 0).toUInt64 <<< 40) +
    ((p.getD 6 0).toUInt64 <<< 48) + ((p.getD 7 0).toUInt64 <<< 56)

variable (native : Endian)

def setBufFromUint32 (n : UInt32) : Bytes :=
  if native = .little then native.object 4 n.toNat
  else [(n &&& 0xFF).toUInt8, ((n >>> 8) &&& 0xFF).toUInt8, ((n >>> 16) &&& 0xFF).toUInt8,
    ((n >>> 24) &&& 0xFF).toUInt8]

def getUint32FromBuf (p : Bytes) : UInt32 :=
  if native = .little then UInt32.ofNat (native.value (p.take 4))
  else (p.getD 0 0).toUInt32 + ((p.getD 1 0).toUInt32 <<< 8) + ((p.getD 2 0).toUInt32 <<< 16) +
    ((p.getD 3 0).toUInt32 <<< 24)

def setBufFromUint16 (n : UInt16) : Bytes :=
  if native = .little then native.object 2 n.toNat
  else [(n &&& 0xFF).toUInt8, ((n >>> 8) &&& 0xFF).toUInt8]

def getUint16FromBuf (p : Bytes) : UInt16 :=
  if native = .little then UInt16.ofNat (native.value (p.take 2))
  else (p.getD 0 0).toUInt16 + ((p.getD 1 0).toUInt16 <<< 8)

variable {native}

theorem and_255 (n : ℕ) : n % 256 &&& 255 = n % 256 :=
  (Nat.and_two_pow_sub_one_eq_mod _ 8).trans (Nat.mod_mod _ _)

/-- Bytes with the same numbers. -/
theorem bytes_eq_of_map_toNat {as bs : Bytes} (h : as.map UInt8.toNat = bs.map UInt8.toNat) : as = bs :=
  List.map_injective_iff.2 (fun _ _ => UInt8.toNat_inj.1) h

theorem setBufFromUint64_eq (n : UInt64) : setBufFromUint64 n = leBytes 8 n.toNat := by
  apply bytes_eq_of_map_toNat
  simp [setBufFromUint64, leBytes_zero, leBytes_succ, Nat.shiftRight_eq_div_pow, Nat.div_div_eq_div_mul, and_255]

theorem setBufFromUint32_eq (n : UInt32) : setBufFromUint32 native n = leBytes 4 n.toNat := by
  cases native with
  | little => rfl
  | big =>
    apply bytes_eq_of_map_toNat
    simp [setBufFromUint32, leBytes_zero, leBytes_succ, Nat.shiftRight_eq_div_pow, Nat.div_div_eq_div_mul, and_255]

theorem setBufFromUint16_eq (n : UInt16) : setBufFromUint16 native n = leBytes 2 n.toNat := by
  cases native with
  | little => rfl
  | big =>
    apply bytes_eq_of_map_toNat
    simp [setBufFromUint16, leBytes_zero, leBytes_succ, Nat.shiftRight_eq_div_pow, and_255]

theorem getUint64FromBuf_eq {p : Bytes} (h : p.length = 8) : getUint64FromBuf p = UInt64.ofNat (ofLe p) := by
  match p, h with
  | [_, _, _, _, _, _, _, _], _ =>
    rw [← UInt64.toNat_inj]
    simp [getUint64FromBuf, ofLe_nil, ofLe_cons, Nat.shiftLeft_eq]
    omega

theorem getUint32FromBuf_eq {p : Bytes} (h : p.length = 4) : getUint32FromBuf native p = UInt32.ofNat (ofLe p) := by
  cases native with
  | little => exact congrArg (fun p => UInt32.ofNat (ofLe p)) (List.take_of_length_le h.le)
  | big =>
    match p, h with
    | [_, _, _, _], _ =>
      rw [← UInt32.toNat_inj]
      simp [getUint32FromBuf, ofLe_nil, ofLe_cons, Nat.shiftLeft_eq]
      omega

theorem getUint16FromBuf_eq {p : Bytes} (h : p.length = 2) : getUint16FromBuf native p = UInt16.ofNat (ofLe p) := by
  cases native with
  | little => exact congrArg (fun p => UInt16.ofNat (ofLe p)) (List.take_of_length_le h.le)
  | big =>
    match p, h with
    | [_, _], _ =>
      rw [← UInt16.toNat_inj]
      simp [getUint16FromBuf, ofLe_nil, ofLe_cons, Nat.shiftLeft_eq]
      omega

/-! ### Setters -/

/-- A method of `BufferOperator`: it returns or throws, and the operator is as it is left then. -/
abbrev BufferWriter := ExceptT BufferError (StateM BufferOperator)

namespace BufferWriter

/-- The setters check, write and go on. -/
def write (bs : Bytes) : BufferWriter Unit := do
  let op ← get
  if op.cur + bs.length > op.buf.length then throw .outOfBounds
  set (op.put bs)

def setBuffer (buffer : Bytes) : BufferWriter Unit := write buffer

def setUint8 (n : UInt8) : BufferWriter Unit := write [n]

def setUint64 (n : UInt64) : BufferWriter Unit := write (setBufFromUint64 n)

variable (native : Endian)

def setUint16 (n : UInt16) : BufferWriter Unit := write (setBufFromUint16 native n)

def setUint32 (n : UInt32) : BufferWriter Unit := write (setBufFromUint32 native n)

/-- The `switch` of `SetString`. -/
def setLen (strLen : ℕ) : BufferLenType → BufferWriter Unit
  | .uInt8 => do
    if strLen > BufferLenType.uInt8.max then throw .stringLengthOutOfRange
    setUint8 (UInt8.ofNat strLen)
  | .uInt16 => do
    if strLen > BufferLenType.uInt16.max then throw .stringLengthOutOfRange
    setUint16 native (UInt16.ofNat strLen)
  | .uInt32 => do
    if strLen > BufferLenType.uInt32.max then throw .stringLengthOutOfRange
    setUint32 native (UInt32.ofNat strLen)
  | .uInt64 => do
    if strLen > BufferLenType.uInt64.max then throw .stringLengthOutOfRange
    setUint64 (UInt64.ofNat strLen)

def setString (s : Bytes) (lenType : BufferLenType) : BufferWriter Unit := do
  let op ← get
  if op.cur + lenType.size + s.length > op.buf.length then throw .outOfBounds
  setLen native s.length lenType
  modify (·.put s)

/-- A method that leaves the operator as it was when it throws. -/
def keeping (w : BufferOperator → Except BufferError BufferOperator) : BufferWriter Unit := fun op =>
  match w op with
  | .ok op' => (.ok (), op')
  | .error e => (.error e, op)

variable {native}

/-- A setter behind one that has returned, and behind one that has thrown. -/
theorem bind_of_ok {x y : BufferWriter Unit} {op op₁ : BufferOperator} (h : x op = (.ok (), op₁)) :
    (x >>= fun _ => y) op = y op₁ := by
  show (ExceptT.bindCont (fun _ => y) (x op).1 : StateM BufferOperator (Except BufferError Unit)) (x op).2 = _
  rw [h]
  rfl

theorem bind_of_error {x y : BufferWriter Unit} {op op₁ : BufferOperator} {e : BufferError}
    (h : x op = (.error e, op₁)) : (x >>= fun _ => y) op = (.error e, op₁) := by
  show (ExceptT.bindCont (fun _ => y) (x op).1 : StateM BufferOperator (Except BufferError Unit)) (x op).2 = _
  rw [h]
  rfl

theorem keeping_ok_iff {w : BufferOperator → Except BufferError BufferOperator} {op op' : BufferOperator} :
    keeping w op = (.ok (), op') ↔ w op = .ok op' := by
  unfold keeping
  cases hw : w op with
  | ok op₁ =>
    exact ⟨fun h => congrArg Except.ok (Prod.mk.inj h).2, fun h => congrArg (Prod.mk _) (Except.ok.inj h)⟩
  | error e => exact iff_of_false (fun h => nomatch (Prod.mk.inj h).1) fun h => nomatch h

theorem keeping_of_error {w : BufferOperator → Except BufferError BufferOperator} {op : BufferOperator}
    {e : BufferError} (h : w op = .error e) : keeping w op = (.error e, op) := by
  rw [keeping, h]

theorem keeping_error {w : BufferOperator → Except BufferError BufferOperator} {op op' : BufferOperator}
    {e : BufferError} (h : keeping w op = (.error e, op')) : op' = op := by
  unfold keeping at h
  cases hw : w op with
  | ok op₁ =>
    rw [hw] at h
    exact nomatch (Prod.mk.inj h).1
  | error e' =>
    rw [hw] at h
    exact (Prod.mk.inj h).2.symm

theorem write_eq (bs : Bytes) : write bs = keeping (BufferOperator.setBuffer bs) := by
  funext op
  unfold keeping BufferOperator.setBuffer
  show (if op.cur + bs.length > op.buf.length then _ else _ : BufferWriter Unit) op = _
  split_ifs with hroom
  · rfl
  · rfl

theorem setUint8_eq (n : UInt8) : setUint8 n = keeping (BufferOperator.setUint8 n) := by
  rw [setUint8, BufferOperator.setUint8, ← write_eq, leBytes_succ, leBytes_zero, UInt8.ofNat_toNat]

theorem setUint16_eq (n : UInt16) : setUint16 native n = keeping (BufferOperator.setUint16 n) := by
  rw [setUint16, BufferOperator.setUint16, ← write_eq, setBufFromUint16_eq]

theorem setUint32_eq (n : UInt32) : setUint32 native n = keeping (BufferOperator.setUint32 n) := by
  rw [setUint32, BufferOperator.setUint32, ← write_eq, setBufFromUint32_eq]

theorem setUint64_eq (n : UInt64) : setUint64 n = keeping (BufferOperator.setUint64 n) := by
  rw [setUint64, BufferOperator.setUint64, ← write_eq, setBufFromUint64_eq]

theorem setLen_eq (strLen : ℕ) (lenType : BufferLenType) : setLen native strLen lenType =
    if strLen > lenType.max then throw .stringLengthOutOfRange
    else keeping (BufferOperator.setLen strLen lenType) := by
  cases lenType with
  | uInt8 => exact ite_congr rfl (fun _ => rfl) fun _ => setUint8_eq _
  | uInt16 => exact ite_congr rfl (fun _ => rfl) fun _ => setUint16_eq _
  | uInt32 => exact ite_congr rfl (fun _ => rfl) fun _ => setUint32_eq _
  | uInt64 => exact ite_congr rfl (fun _ => rfl) fun _ => setUint64_eq _

/-- Nothing is written before the last check: `SetString` keeps the operator, too. -/
theorem setString_eq (s : Bytes) (lenType : BufferLenType) :
    setString native s lenType = keeping (BufferOperator.setString s lenType) := by
  funext op
  unfold keeping BufferOperator.setString
  show (if op.cur + lenType.size + s.length > op.buf.length then _ else _ : BufferWriter Unit) op = _
  split_ifs with hroom hmax
  · rfl
  · show (setLen native s.length lenType >>= fun _ => modify (·.put s) : BufferWriter Unit) op = _
    rw [setLen_eq, if_pos hmax]
    rfl
  · show (setLen native s.length lenType >>= fun _ => modify (·.put s) : BufferWriter Unit) op = _
    rw [setLen_eq, if_neg hmax]
    cases hlen : BufferOperator.setLen s.length lenType op with
    | ok op₁ => exact bind_of_ok (keeping_ok_iff.2 hlen)
    | error e => exact bind_of_error (keeping_of_error hlen)

end BufferWriter

/-! ### Getters -/

namespace BufferReader

open ConstBufferOperator (getBuffer)

def getUint8 : BufferReader UInt8 := return (← getBuffer 1).getD 0 0

def getUint64 : BufferReader UInt64 := return getUint64FromBuf (← getBuffer 8)

/-- `GetBuffer(dst, len)`: what `dst` holds then. -/
def getBufferTo (len : ℕ) : BufferReader Bytes := getBuffer len

variable (native : Endian)

def getUint16 : BufferReader UInt16 := return getUint16FromBuf native (← getBuffer 2)

def getUint32 : BufferReader UInt32 := return getUint32FromBuf native (← getBuffer 4)

/-- The `switch` of `GetString`. -/
def getLen : BufferLenType → BufferReader ℕ
  | .uInt8 => return (← getUint8).toNat
  | .uInt16 => return (← getUint16 native).toNat
  | .uInt32 => return (← getUint32 native).toNat
  | .uInt64 => return (← getUint64).toNat

def getString (lenType : BufferLenType) : BufferReader Bytes := do
  let strLen ← getLen native lenType
  getBuffer strLen

variable {native} {β : Type}

/-- What is computed on bytes that were read may be any function with the same values on as many bytes. -/
theorem getBuffer_bind_congr {len : ℕ} {f f' : Bytes → β} (h : ∀ bs : Bytes, bs.length = len → f bs = f' bs) :
    (getBuffer len >>= fun bs => pure (f bs)) = getBuffer len >>= fun bs => pure (f' bs) := by
  funext op
  show (getBuffer len op >>= fun p => pure (f p.1, p.2)) = getBuffer len op >>= fun p => pure (f' p.1, p.2)
  unfold getBuffer
  split_ifs with hroom
  · rfl
  · have hlen : (op.rest.take len).length = len := by
      rw [List.length_take, ConstBufferOperator.rest, List.length_drop]
      omega
    exact congrArg (fun b => Except.ok (b, op.skip len)) (h _ hlen)

theorem getUint8_eq : getUint8 = ConstBufferOperator.getUint8 := by
  refine getBuffer_bind_congr fun bs hbs => ?_
  match bs, hbs with
  | [b], _ => exact UInt8.ofNat_toNat.symm

theorem getUint16_eq : getUint16 native = ConstBufferOperator.getUint16 :=
  getBuffer_bind_congr fun _ hbs => getUint16FromBuf_eq hbs

theorem getUint32_eq : getUint32 native = ConstBufferOperator.getUint32 :=
  getBuffer_bind_congr fun _ hbs => getUint32FromBuf_eq hbs

theorem getUint64_eq : getUint64 = ConstBufferOperator.getUint64 :=
  getBuffer_bind_congr fun _ hbs => getUint64FromBuf_eq hbs

theorem getString_eq (lenType : BufferLenType) : getString native lenType = ConstBufferOperator.getString lenType := by
  have hlen : getLen native lenType = ConstBufferOperator.getLen lenType := by
    cases lenType with
    | uInt8 => exact congrArg (fun r => r >>= fun n => pure n.toNat) getUint8_eq
    | uInt16 => exact congrArg (fun r => r >>= fun n => pure n.toNat) getUint16_eq
    | uInt32 => exact congrArg (fun r => r >>= fun n => pure n.toNat) getUint32_eq
    | uInt64 => exact congrArg (fun r => r >>= fun n => pure n.toNat) getUint64_eq
  rw [getString, hlen, ConstBufferOperator.getString]

end BufferReader

/-! ### Calls -/

/-- A call of a setter. -/
inductive SetCall where
  | setUint8 (n : UInt8)
  | setUint16 (n : UInt16)
  | setUint32 (n : UInt32)
  | setUint64 (n : UInt64)
  | setString (s : Bytes) (lenType : BufferLenType)
  | setBuffer (buffer : Bytes)
  deriving DecidableEq, Repr

/-- A call of a getter; `GetBuffer` has two overloads. -/
inductive GetCall where
  | getUint8
  | getUint16
  | getUint32
  | getUint64
  | getString (lenType : BufferLenType)
  | getBuffer (len : ℕ)
  | getBufferTo (len : ℕ)
  deriving DecidableEq, Repr

/-- What is written by a setter and returned by a getter. -/
inductive BufferValue where
  | uInt8 (n : UInt8)
  | uInt16 (n : UInt16)
  | uInt32 (n : UInt32)
  | uInt64 (n : UInt64)
  | bytes (bs : Bytes)
  deriving DecidableEq, Repr

def SetCall.run (native : Endian) : SetCall → BufferWriter Unit
  | .setUint8 n => BufferWriter.setUint8 n
  | .setUint16 n => BufferWriter.setUint16 native n
  | .setUint32 n => BufferWriter.setUint32 native n
  | .setUint64 n => BufferWriter.setUint64 n
  | .setString s lenType => BufferWriter.setString native s lenType
  | .setBuffer buffer => BufferWriter.setBuffer buffer

def GetCall.run (native : Endian) : GetCall → BufferReader BufferValue
  | .getUint8 => return .uInt8 (← BufferReader.getUint8)
  | .getUint16 => return .uInt16 (← BufferReader.getUint16 native)
  | .getUint32 => return .uInt32 (← BufferReader.getUint32 native)
  | .getUint64 => return .uInt64 (← BufferReader.getUint64)
  | .getString lenType => return .bytes (← BufferReader.getString native lenType)
  | .getBuffer len => return .bytes (← ConstBufferOperator.getBuffer len)
  | .getBufferTo len => return .bytes (← BufferReader.getBufferTo len)

/-- One call behind the other, until one throws. -/
def setAll (native : Endian) : List SetCall → BufferWriter Unit
  | [] => pure ()
  | call :: calls => do
    call.run native
    setAll native calls

def getAll (native : Endian) : List GetCall → BufferReader (List BufferValue)
  | [] => pure []
  | call :: calls => do
    let value ← call.run native
    return value :: (← getAll native calls)

/-- The value that a call writes. -/
def SetCall.value : SetCall → BufferValue
  | .setUint8 n => .uInt8 n
  | .setUint16 n => .uInt16 n
  | .setUint32 n => .uInt32 n
  | .setUint64 n => .uInt64 n
  | .setString s _ => .bytes s
  | .setBuffer buffer => .bytes buffer

/-- The getter of the same type, with the same prefix or length. -/
inductive SetCall.Corresponds : SetCall → GetCall → Prop where
  | uint8 (n : UInt8) : Corresponds (.setUint8 n) .getUint8
  | uint16 (n : UInt16) : Corresponds (.setUint16 n) .getUint16
  | uint32 (n : UInt32) : Corresponds (.setUint32 n) .getUint32
  | uint64 (n : UInt64) : Corresponds (.setUint64 n) .getUint64
  | string (s : Bytes) (lenType : BufferLenType) : Corresponds (.setString s lenType) (.getString lenType)
  | buffer (buffer : Bytes) : Corresponds (.setBuffer buffer) (.getBuffer buffer.length)
  | bufferTo (buffer : Bytes) : Corresponds (.setBuffer buffer) (.getBufferTo buffer.length)

/-- The bytes that a call puts into the buffer. -/
def SetCall.encoded : SetCall → Bytes
  | .setUint8 n => leBytes 1 n.toNat
  | .setUint16 n => leBytes 2 n.toNat
  | .setUint32 n => leBytes 4 n.toNat
  | .setUint64 n => leBytes 8 n.toNat
  | .setString s lenType => encodeString lenType s
  | .setBuffer buffer => buffer

/-- A length fits its prefix. -/
def SetCall.Fits : SetCall → Prop
  | .setString s lenType => s.length ≤ lenType.max
  | _ => True

/-- What a call does to the operator when it returns. -/
def SetCall.apply : SetCall → BufferOperator → Except BufferError BufferOperator
  | .setUint8 n => BufferOperator.setUint8 n
  | .setUint16 n => BufferOperator.setUint16 n
  | .setUint32 n => BufferOperator.setUint32 n
  | .setUint64 n => BufferOperator.setUint64 n
  | .setString s lenType => BufferOperator.setString s lenType
  | .setBuffer buffer => BufferOperator.setBuffer buffer

variable {native native' : Endian}

theorem SetCall.run_eq (call : SetCall) : call.run native = BufferWriter.keeping call.apply := by
  cases call with
  | setUint8 n => exact BufferWriter.setUint8_eq n
  | setUint16 n => exact BufferWriter.setUint16_eq n
  | setUint32 n => exact BufferWriter.setUint32_eq n
  | setUint64 n => exact BufferWriter.setUint64_eq n
  | setString s lenType => exact BufferWriter.setString_eq s lenType
  | setBuffer buffer => exact BufferWriter.write_eq buffer

theorem SetCall.writes_apply (call : SetCall) : Writes call.apply call.encoded call.Fits := by
  cases call with
  | setString s lenType => exact writes_setString s lenType
  | setUint8 n => exact writes_setBuffer _
  | setUint16 n => exact writes_setBuffer _
  | setUint32 n => exact writes_setBuffer _
  | setUint64 n => exact writes_setBuffer _
  | setBuffer buffer => exact writes_setBuffer buffer

/-- A setter that has returned was inside its buffer. -/
theorem SetCall.cur_le_of_apply {call : SetCall} {op op' : BufferOperator} (h : call.apply op = .ok op') :
    op.cur ≤ op.buf.length := by
  by_contra hcur
  have hthrow : call.apply op = .error .outOfBounds := by
    cases call with
    | setString s lenType => exact if_pos (by omega)
    | setUint8 n => exact if_pos (by omega)
    | setUint16 n => exact if_pos (by omega)
    | setUint32 n => exact if_pos (by omega)
    | setUint64 n => exact if_pos (by omega)
    | setBuffer buffer => exact if_pos (by omega)
  exact nomatch hthrow.symm.trans h

theorem reads_getUint16 (n : UInt16) : Reads ConstBufferOperator.getUint16 (leBytes 2 n.toNat) n := by
  have hreads : Reads ConstBufferOperator.getUint16 (leBytes 2 n.toNat) (UInt16.ofNat n.toNat) :=
    reads_ofLe n.toNat_lt UInt16.ofNat
  rwa [UInt16.ofNat_toNat] at hreads

theorem reads_getUint64 (n : UInt64) : Reads ConstBufferOperator.getUint64 (leBytes 8 n.toNat) n := by
  have hreads : Reads ConstBufferOperator.getUint64 (leBytes 8 n.toNat) (UInt64.ofNat n.toNat) :=
    reads_ofLe n.toNat_lt UInt64.ofNat
  rwa [UInt64.ofNat_toNat] at hreads

/-- A getter takes the bytes of its setter off the buffer and returns its value. -/
theorem SetCall.Corresponds.reads {call : SetCall} {get : GetCall} (h : call.Corresponds get) (hfits : call.Fits) :
    Reads (get.run native') call.encoded call.value := by
  cases h with
  | uint8 n =>
    rw [GetCall.run, BufferReader.getUint8_eq]
    exact (reads_getUint8 n).map BufferValue.uInt8
  | uint16 n =>
    rw [GetCall.run, BufferReader.getUint16_eq]
    exact (reads_getUint16 n).map BufferValue.uInt16
  | uint32 n =>
    rw [GetCall.run, BufferReader.getUint32_eq]
    exact (reads_getUint32 n).map BufferValue.uInt32
  | uint64 n =>
    rw [GetCall.run, BufferReader.getUint64_eq]
    exact (reads_getUint64 n).map BufferValue.uInt64
  | string s lenType =>
    rw [GetCall.run, BufferReader.getString_eq]
    exact (reads_getString hfits).map BufferValue.bytes
  | buffer bs => exact (reads_getBuffer bs).map BufferValue.bytes
  | bufferTo bs => exact (reads_getBuffer bs).map BufferValue.bytes

/-- The bytes of calls, one behind the other. -/
theorem reads_getAll {calls : List SetCall} {gets : List GetCall} (h : List.Forall₂ SetCall.Corresponds calls gets)
    (hfits : ∀ call ∈ calls, call.Fits) :
    Reads (getAll native' gets) (calls.flatMap SetCall.encoded) (calls.map SetCall.value) := by
  induction h with
  | nil => exact reads_pure []
  | @cons call get calls gets hget _ ih =>
    have hhead : Reads (get.run native') call.encoded call.value := hget.reads (hfits call List.mem_cons_self)
    have htail := ih fun call' hcall' => hfits call' (List.mem_cons_of_mem _ hcall')
    exact hhead.bind (htail.map (call.value :: ·))

/-- A run of setters returns exactly when all of them do, each on what the one before has left. -/
theorem setAll_ok_iff {calls : List SetCall} {op op' : BufferOperator} :
    setAll native calls op = (.ok (), op') ↔ calls.foldlM (fun op call => call.apply op) op = .ok op' := by
  induction calls generalizing op with
  | nil => exact ⟨fun h => congrArg Except.ok (Prod.mk.inj h).2, fun h => congrArg (Prod.mk _) (Except.ok.inj h)⟩
  | cons call calls ih =>
    have hrun : call.run native = BufferWriter.keeping call.apply := call.run_eq
    show (call.run native >>= fun _ => setAll native calls) op = _ ↔ _
    rw [hrun, List.foldlM_cons]
    cases happly : call.apply op with
    | ok op₁ =>
      rw [BufferWriter.bind_of_ok (BufferWriter.keeping_ok_iff.2 happly)]
      exact ih
    | error e =>
      rw [BufferWriter.bind_of_error (BufferWriter.keeping_of_error happly)]
      exact iff_of_false (fun h => nomatch (Prod.mk.inj h).1) fun h => nomatch h

theorem cur_le_of_setAll {call : SetCall} {calls : List SetCall} {op op' : BufferOperator}
    (h : setAll native (call :: calls) op = (.ok (), op')) : op.cur ≤ op.buf.length := by
  have hfold := setAll_ok_iff.1 h
  rw [List.foldlM_cons] at hfold
  cases happly : call.apply op with
  | ok op₁ => exact SetCall.cur_le_of_apply happly
  | error e =>
    rw [happly] at hfold
    exact nomatch hfold

/-- A run of setters that returns has put the bytes of its calls. -/
theorem put_of_setAll {calls : List SetCall} {op op' : BufferOperator} (hcur : op.cur ≤ op.buf.length)
    (h : setAll native calls op = (.ok (), op')) :
    op.cur + (calls.flatMap SetCall.encoded).length ≤ op.buf.length ∧ (∀ call ∈ calls, call.Fits) ∧
      op' = op.put (calls.flatMap SetCall.encoded) :=
  (writes_foldlM SetCall.writes_apply calls op op' hcur).1 (setAll_ok_iff.1 h)

/-- **Writer and reader are inverse**: where all setters return, the getters that correspond to them return what was
written, from the same place to the same place; and a setter that throws leaves the operator as it was. -/
theorem getAll_setAll (native native' : Endian) :
    (∀ (op op' : BufferOperator) (calls : List SetCall) (gets : List GetCall),
      setAll native calls op = (.ok (), op') → List.Forall₂ SetCall.Corresponds calls gets →
        getAll native' gets ⟨op'.buf, op.cur⟩ = .ok (calls.map SetCall.value, ⟨op'.buf, op'.cur⟩)) ∧
    ∀ (op op' : BufferOperator) (call : SetCall) (e : BufferError),
      call.run native op = (.error e, op') → op' = op := by
  constructor
  · intro op op' calls gets hset hgets
    cases calls with
    | nil =>
      cases hgets
      obtain rfl := (Prod.mk.inj hset).2
      rfl
    | cons call calls =>
      have hcur := cur_le_of_setAll hset
      obtain ⟨hroom, hfits, rfl⟩ := put_of_setAll hcur hset
      refine reads_getAll hgets hfits _ ?_ ?_
      · rw [BufferOperator.put_length hroom]
        exact hcur
      · have htake : (op.buf.take op.cur).length = op.cur := List.length_take_of_le hcur
        rw [ConstBufferOperator.rest, BufferOperator.put, List.append_assoc]
        dsimp only
        rw [List.drop_left' htake]
        exact List.prefix_append _ _
  · intro op op' call e h
    rw [call.run_eq] at h
    exact BufferWriter.keeping_error h

/-- A number, a string with a prefix of two bytes and a buffer, written from the third byte of ten on; and a string
that does not fit behind its prefix. -/
theorem getAll_setAll_of_ten :
    getAll .big [.getUint16, .getString .uInt16, .getBufferTo 1] ⟨[0, 0, 2, 1, 2, 0, 65, 66, 7, 0], 2⟩ =
      .ok ([.uInt16 258, .bytes [65, 66], .bytes [7]], ⟨[0, 0, 2, 1, 2, 0, 65, 66, 7, 0], 9⟩) ∧
    ((SetCall.setString [65, 66, 67] .uInt16).run .little ⟨[9, 9, 9, 9, 9], 1⟩).2 = ⟨[9, 9, 9, 9, 9], 1⟩ :=
  ⟨(getAll_setAll .little .big).1 ⟨List.replicate 10 0, 2⟩ ⟨[0, 0, 2, 1, 2, 0, 65, 66, 7, 0], 9⟩
      [.setUint16 258, .setString [65, 66] .uInt16, .setBuffer [7]] _ rfl
      (.cons (.uint16 258) (.cons (.string [65, 66] .uInt16) (.cons (.bufferTo [7]) .nil))),
    (getAll_setAll .little .big).2 _ _ (.setString [65, 66, 67] .uInt16) .outOfBounds rfl⟩

end AimRT.Util
