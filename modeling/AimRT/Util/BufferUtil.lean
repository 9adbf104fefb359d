import AimRT.Lib.LittleEndian

/-!
# Buffer operators

`BufferOperator` writes fields into a buffer of fixed size and `ConstBufferOperator` reads them
back; both throw when they would leave the buffer.

`Writes w bs P` says what a writer does: it succeeds exactly when there is room for `bs` and `P`
holds (every length fits its prefix), and then it has put `bs`.  `Reads r bs a` says that a reader
takes `bs` off the buffer and returns `a`.  Both compose along `>>=`, so that an encoder and a
decoder are compared field by field.
-/

namespace AimRT.Util

open AimRT.Lib

/-- The width of a length prefix. -/
inductive BufferLenType where
  | uInt8
  | uInt16
  | uInt32
  | uInt64
  deriving DecidableEq, Repr

def BufferLenType.size : BufferLenType → ℕ
  | .uInt8 => 1
  | .uInt16 => 2
  | .uInt32 => 4
  | .uInt64 => 8

/-- `std::numeric_limits<..>::max()` of the prefix type. -/
def BufferLenType.max (t : BufferLenType) : ℕ := 256 ^ t.size - 1

/-- `BufferOutOfBoundsException`, and the `std::runtime_error` of `SetString`. -/
inductive BufferError where
  | outOfBounds
  | stringLengthOutOfRange
  deriving DecidableEq, Repr

/-! ### Writing -/

/-- The bytes from `start_` to `end_`, and `cur_ - start_`. -/
structure BufferOperator where
  buf : Bytes
  cur : ℕ
  deriving DecidableEq, Repr

namespace BufferOperator

/-- An operator over a new buffer. -/
def ofLen (len : ℕ) : BufferOperator := ⟨List.replicate len 0, 0⟩

/-- `memcpy(cur_, ..)` and `cur_ += ..`. -/
def put (op : BufferOperator) (bs : Bytes) : BufferOperator where
  buf := op.buf.take op.cur ++ bs ++ op.buf.drop (op.cur + bs.length)
  cur := op.cur + bs.length

def setBuffer (bs : Bytes) (op : BufferOperator) : Except BufferError BufferOperator :=
  if op.cur + bs.length > op.buf.length then throw .outOfBounds else pure (op.put bs)

def setUint8 (n : UInt8) : BufferOperator → Except BufferError BufferOperator :=
  setBuffer (leBytes 1 n.toNat)

def setUint16 (n : UInt16) : BufferOperator → Except BufferError BufferOperator :=
  setBuffer (leBytes 2 n.toNat)

def setUint32 (n : UInt32) : BufferOperator → Except BufferError BufferOperator :=
  setBuffer (leBytes 4 n.toNat)

def setUint64 (n : UInt64) : BufferOperator → Except BufferError BufferOperator :=
  setBuffer (leBytes 8 n.toNat)

/-- The length prefix of a string, in the type that `SetString` switches to. -/
def setLen (n : ℕ) : BufferLenType → BufferOperator → Except BufferError BufferOperator
  | .uInt8 => setUint8 (UInt8.ofNat n)
  | .uInt16 => setUint16 (UInt16.ofNat n)
  | .uInt32 => setUint32 (UInt32.ofNat n)
  | .uInt64 => setUint64 (UInt64.ofNat n)

def setString (s : Bytes) (lenType : BufferLenType) (op : BufferOperator) :
    Except BufferError BufferOperator :=
  if op.cur + lenType.size + s.length > op.buf.length then throw .outOfBounds
  else if s.length > lenType.max then throw .stringLengthOutOfRange
  else do
    let op ← setLen s.length lenType op
    return op.put s

def skip (len : ℕ) (op : BufferOperator) : Except BufferError BufferOperator :=
  if op.cur + len > op.buf.length then throw .outOfBounds else pure { op with cur := op.cur + len }

def jumpTo (pos : ℕ) (op : BufferOperator) : Except BufferError BufferOperator :=
  if pos > op.buf.length then throw .outOfBounds else pure { op with cur := pos }

theorem put_put {op : BufferOperator} {as bs : Bytes} (h : op.cur + as.length ≤ op.buf.length) :
    (op.put as).put bs = op.put (as ++ bs) := by
  have hlen : (op.buf.take op.cur ++ as).length = op.cur + as.length := by
    rw [List.length_append, List.length_take]
    omega
  simp only [put, List.length_append, mk.injEq]
  refine ⟨?_, by omega⟩
  rw [← hlen, List.take_left, List.drop_length_add_append, List.drop_drop, hlen]
  simp only [List.append_assoc, Nat.add_assoc]

@[simp] theorem put_length {op : BufferOperator} {bs : Bytes}
    (h : op.cur + bs.length ≤ op.buf.length) : (op.put bs).buf.length = op.buf.length := by
  simp only [put, List.length_append, List.length_take, List.length_drop]
  omega

/-- A buffer that was filled to its end holds what was put. -/
theorem ofLen_put_buf (bs : Bytes) : ((ofLen bs.length).put bs).buf = bs := by
  simp [ofLen, put]

end BufferOperator

/-- The bytes of a string behind its length prefix. -/
def encodeString (lenType : BufferLenType) (s : Bytes) : Bytes := leBytes lenType.size s.length ++ s

@[simp] theorem encodeString_length (lenType : BufferLenType) (s : Bytes) :
    (encodeString lenType s).length = lenType.size + s.length := by
  simp [encodeString]

/-- What a writer does: see the head of the module. -/
def Writes (w : BufferOperator → Except BufferError BufferOperator) (bs : Bytes) (P : Prop) : Prop :=
  ∀ op op', op.cur ≤ op.buf.length →
    (w op = .ok op' ↔ op.cur + bs.length ≤ op.buf.length ∧ P ∧ op' = op.put bs)

theorem Writes.bind {w w' : BufferOperator → Except BufferError BufferOperator} {bs bs' : Bytes}
    {P P' : Prop} (h : Writes w bs P) (h' : Writes w' bs' P') :
    Writes (fun op => w op >>= w') (bs ++ bs') (P ∧ P') := by
  intro op op' hcur
  show (w op >>= w') = _ ↔ _
  constructor
  · intro hw
    cases hop : w op with
    | error e =>
      rw [hop] at hw
      cases hw
    | ok op₁ =>
      rw [hop] at hw
      obtain ⟨hroom, hP, rfl⟩ := (h op op₁ hcur).1 hop
      have hlen := BufferOperator.put_length hroom
      obtain ⟨hroom', hP', rfl⟩ := (h' _ op' (by rw [hlen]; exact hroom)).1 hw
      rw [hlen] at hroom'
      refine ⟨?_, ⟨hP, hP'⟩, BufferOperator.put_put hroom⟩
      simp only [BufferOperator.put, List.length_append] at hroom' ⊢
      omega
  · rintro ⟨hroom, ⟨hP, hP'⟩, rfl⟩
    rw [List.length_append] at hroom
    have hroom₁ : op.cur + bs.length ≤ op.buf.length := by omega
    have hlen := BufferOperator.put_length hroom₁
    rw [(h op _ hcur).2 ⟨hroom₁, hP, rfl⟩]
    refine (h' _ _ (by rw [hlen]; exact hroom₁)).2 ⟨?_, hP', (BufferOperator.put_put hroom₁).symm⟩
    rw [hlen]
    simp only [BufferOperator.put]
    omega

theorem writes_pure : Writes pure [] True := by
  intro op op' hcur
  have : op.put [] = op := by simp [BufferOperator.put]
  rw [this]
  constructor
  · rintro ⟨⟩
    exact ⟨by simpa using hcur, trivial, rfl⟩
  · rintro ⟨-, -, rfl⟩
    rfl

theorem writes_setBuffer (bs : Bytes) : Writes (BufferOperator.setBuffer bs) bs True := by
  intro op op' _
  unfold BufferOperator.setBuffer
  by_cases hroom : op.cur + bs.length ≤ op.buf.length
  · rw [if_neg (by omega)]
    constructor
    · rintro ⟨⟩
      exact ⟨hroom, trivial, rfl⟩
    · rintro ⟨-, -, rfl⟩
      rfl
  · rw [if_pos (by omega)]
    constructor
    · rintro ⟨⟩
    · rintro ⟨h, -⟩
      exact absurd h hroom

theorem setLen_eq {n : ℕ} {lenType : BufferLenType} (h : n ≤ lenType.max) :
    BufferOperator.setLen n lenType = BufferOperator.setBuffer (leBytes lenType.size n) := by
  have hlt : n < lenType.max + 1 := Nat.lt_succ_of_le h
  cases lenType with
  | uInt8 =>
    rw [BufferOperator.setLen, BufferOperator.setUint8, UInt8.toNat_ofNat_of_lt' hlt]
    rfl
  | uInt16 =>
    rw [BufferOperator.setLen, BufferOperator.setUint16, UInt16.toNat_ofNat_of_lt' hlt]
    rfl
  | uInt32 =>
    rw [BufferOperator.setLen, BufferOperator.setUint32, UInt32.toNat_ofNat_of_lt' hlt]
    rfl
  | uInt64 =>
    rw [BufferOperator.setLen, BufferOperator.setUint64, UInt64.toNat_ofNat_of_lt' hlt]
    rfl

theorem writes_setString (s : Bytes) (lenType : BufferLenType) :
    Writes (BufferOperator.setString s lenType) (encodeString lenType s) (s.length ≤ lenType.max) := by
  intro op op' hcur
  rw [encodeString_length]
  by_cases hroom : op.cur + lenType.size + s.length > op.buf.length
  · rw [BufferOperator.setString, if_pos hroom]
    constructor
    · rintro ⟨⟩
    · rintro ⟨h, -⟩
      omega
  by_cases hfit : s.length > lenType.max
  · rw [BufferOperator.setString, if_neg hroom, if_pos hfit]
    constructor
    · rintro ⟨⟩
    · rintro ⟨-, h, -⟩
      omega
  -- the prefix fits, and so does the string behind it
  have hlen : BufferOperator.setLen s.length lenType op =
      .ok (op.put (leBytes lenType.size s.length)) := by
    rw [setLen_eq (by omega), BufferOperator.setBuffer, leBytes_length, if_neg (by omega)]
    rfl
  rw [BufferOperator.setString, if_neg hroom, if_neg hfit, hlen]
  have hput : (op.put (leBytes lenType.size s.length)).put s = op.put (encodeString lenType s) :=
    BufferOperator.put_put (by rw [leBytes_length]; omega)
  show Except.ok ((op.put _).put s) = _ ↔ _
  rw [hput]
  constructor
  · rintro ⟨⟩
    exact ⟨by omega, by omega, rfl⟩
  · rintro ⟨-, -, rfl⟩
    rfl

/-- An operator behind the end of its buffer: a writer that starts with a string throws. -/
theorem setString_bind_error {op : BufferOperator} (h : op.buf.length < op.cur) (s : Bytes)
    (lenType : BufferLenType) (w : BufferOperator → Except BufferError BufferOperator) :
    (op.setString s lenType >>= w) = .error .outOfBounds := by
  rw [BufferOperator.setString, if_pos (by omega)]
  rfl

theorem writes_setUint8 (n : UInt8) :
    Writes (BufferOperator.setUint8 n) (leBytes 1 n.toNat) True := writes_setBuffer _

theorem writes_setUint32 (n : UInt32) :
    Writes (BufferOperator.setUint32 n) (leBytes 4 n.toNat) True := writes_setBuffer _

/-- The loops of the encoders: one write for each element. -/
theorem writes_foldlM {β : Type} {f : β → BufferOperator → Except BufferError BufferOperator}
    {enc : β → Bytes} {P : β → Prop} (h : ∀ b, Writes (f b) (enc b) (P b)) (l : List β) :
    Writes (fun op => l.foldlM (fun op b => f b op) op) (l.flatMap enc) (∀ b ∈ l, P b) := by
  induction l with
  | nil => simpa using writes_pure
  | cons b l ih => simpa using (h b).bind ih

/-- The data behind the fields, one buffer after the other. -/
theorem writes_setBuffers (bufferArray : List Bytes) :
    Writes (fun op => bufferArray.foldlM (fun op data => BufferOperator.setBuffer data op) op)
      bufferArray.flatten True := by
  have h : Writes _ (bufferArray.flatMap id) (∀ b ∈ bufferArray, True) :=
    writes_foldlM writes_setBuffer bufferArray
  simpa using h

/-- A buffer of `n` bytes filled by a writer: the writer succeeds only where its bytes fill it, if
they are at least `n`. -/
theorem Writes.ofLen_buf {w : BufferOperator → Except BufferError BufferOperator} {bs : Bytes}
    {P : Prop} (h : Writes w bs P) {n : ℕ} (hn : n ≤ bs.length) {op : BufferOperator}
    (hw : w (BufferOperator.ofLen n) = .ok op) : op.buf = bs ∧ n = bs.length ∧ P := by
  obtain ⟨hroom, hP, rfl⟩ := (h _ op (by simp [BufferOperator.ofLen])).1 hw
  simp only [BufferOperator.ofLen, List.length_replicate, Nat.zero_add] at hroom
  obtain rfl : n = bs.length := by omega
  exact ⟨BufferOperator.ofLen_put_buf bs, rfl, hP⟩

/-- The bytes of a new buffer of the given size after a writer. -/
def fillBuffer (size : ℕ) (w : BufferOperator → Except BufferError BufferOperator) :
    Except BufferError Bytes :=
  match w (BufferOperator.ofLen size) with
  | .ok op => .ok op.buf
  | .error e => .error e

theorem fillBuffer_ok {size : ℕ} {w : BufferOperator → Except BufferError BufferOperator}
    {bs frame : Bytes} {P : Prop} (hw : Writes w bs P) (hsize : size ≤ bs.length)
    (h : fillBuffer size w = .ok frame) : frame = bs ∧ size = bs.length ∧ P := by
  unfold fillBuffer at h
  cases hop : w (BufferOperator.ofLen size) with
  | error e =>
    rw [hop] at h
    cases h
  | ok op =>
    rw [hop] at h
    obtain rfl := Except.ok.inj h
    exact hw.ofLen_buf hsize hop

theorem fillBuffer_of {w : BufferOperator → Except BufferError BufferOperator} {bs : Bytes} {P : Prop}
    (hw : Writes w bs P) (h : P) : fillBuffer bs.length w = .ok bs := by
  have hop := (hw (BufferOperator.ofLen bs.length) _ (Nat.zero_le _)).2
    ⟨by simp [BufferOperator.ofLen], h, rfl⟩
  rw [fillBuffer, hop]
  exact congrArg Except.ok (BufferOperator.ofLen_put_buf bs)

theorem toOption_eq_some_iff {ε β : Type} {x : Except ε β} {b : β} :
    x.toOption = some b ↔ x = .ok b := by
  cases x with
  | error e => exact ⟨nofun, nofun⟩
  | ok a => exact ⟨fun h => congrArg _ (Option.some.inj h), fun h => congrArg _ (Except.ok.inj h)⟩

/-- A buffer that is not larger than what is written has to have its size. -/
theorem fillBuffer_eq_ok_iff {size : ℕ} {w : BufferOperator → Except BufferError BufferOperator}
    {bs frame : Bytes} {P : Prop} (hw : Writes w bs P) (hsize : size ≤ bs.length) :
    fillBuffer size w = .ok frame ↔ P ∧ size = bs.length ∧ frame = bs := by
  constructor
  · intro h
    obtain ⟨hframe, hlen, hP⟩ := fillBuffer_ok hw hsize h
    exact ⟨hP, hlen, hframe⟩
  · rintro ⟨hP, rfl, rfl⟩
    exact fillBuffer_of hw hP

/-! ### Reading -/

structure ConstBufferOperator where
  buf : Bytes
  cur : ℕ
  deriving DecidableEq, Repr

abbrev BufferReader := StateT ConstBufferOperator (Except BufferError)

namespace ConstBufferOperator

def ofBytes (bs : Bytes) : ConstBufferOperator := ⟨bs, 0⟩

/-- The bytes from `cur_` to `end_`. -/
def rest (op : ConstBufferOperator) : Bytes := op.buf.drop op.cur

def skip (op : ConstBufferOperator) (n : ℕ) : ConstBufferOperator := { op with cur := op.cur + n }

@[simp] theorem rest_skip (op : ConstBufferOperator) (n : ℕ) :
    (op.skip n).rest = op.rest.drop n := by
  simp [rest, skip]

def getBuffer (len : ℕ) : BufferReader Bytes := fun op =>
  if op.cur + len > op.buf.length then throw .outOfBounds
  else pure (op.rest.take len, op.skip len)

def getUint8 : BufferReader UInt8 := return UInt8.ofNat (ofLe (← getBuffer 1))

def getUint16 : BufferReader UInt16 := return UInt16.ofNat (ofLe (← getBuffer 2))

def getUint32 : BufferReader UInt32 := return UInt32.ofNat (ofLe (← getBuffer 4))

def getUint64 : BufferReader UInt64 := return UInt64.ofNat (ofLe (← getBuffer 8))

/-- The length prefix of a string, in the type that `GetString` switches to. -/
def getLen : BufferLenType → BufferReader ℕ
  | .uInt8 => return (← getUint8).toNat
  | .uInt16 => return (← getUint16).toNat
  | .uInt32 => return (← getUint32).toNat
  | .uInt64 => return (← getUint64).toNat

def getString (lenType : BufferLenType) : BufferReader Bytes := do
  let strLen ← getLen lenType
  getBuffer strLen

def getRemainingBuffer : BufferReader Bytes := do
  let op ← get
  getBuffer (op.buf.length - op.cur)

end ConstBufferOperator

/-- What a reader does: see the head of the module. -/
def Reads {β : Type} (r : BufferReader β) (bs : Bytes) (b : β) : Prop :=
  ∀ op : ConstBufferOperator, op.cur ≤ op.buf.length → bs <+: op.rest →
    r op = .ok (b, op.skip bs.length)

/-- A reader that takes all that is left. -/
def ReadsAll {β : Type} (r : BufferReader β) (bs : Bytes) (b : β) : Prop :=
  ∀ op : ConstBufferOperator, op.cur ≤ op.buf.length → op.rest = bs →
    r op = .ok (b, op.skip bs.length)

/-- After a prefix of the rest the operator is still inside its buffer. -/
theorem ConstBufferOperator.skip_cur_le {op : ConstBufferOperator} {bs : Bytes}
    (hcur : op.cur ≤ op.buf.length) (hpre : bs <+: op.rest) :
    (op.skip bs.length).cur ≤ (op.skip bs.length).buf.length := by
  have := hpre.length_le
  simp only [ConstBufferOperator.rest, List.length_drop] at this
  simp only [ConstBufferOperator.skip]
  omega

theorem reads_pure {β : Type} (b : β) : Reads (pure b) [] b := by
  intro op _ _
  rfl

theorem Reads.bind {β γ : Type} {r : BufferReader β} {f : β → BufferReader γ} {bs bs' : Bytes}
    {b : β} {c : γ} (h : Reads r bs b) (h' : Reads (f b) bs' c) :
    Reads (r >>= f) (bs ++ bs') c := by
  intro op hcur hpre
  have hpre₁ : bs <+: op.rest := (List.prefix_append bs bs').trans hpre
  have hpre₂ : bs' <+: (op.skip bs.length).rest := by
    obtain ⟨t, ht⟩ := hpre
    rw [ConstBufferOperator.rest_skip, ← ht, List.append_assoc, List.drop_left]
    exact List.prefix_append _ _
  show (r op >>= fun p => f p.1 p.2) = _
  rw [h op hcur hpre₁]
  show f b (op.skip bs.length) = _
  rw [h' _ (ConstBufferOperator.skip_cur_le hcur hpre₁) hpre₂]
  simp [ConstBufferOperator.skip, Nat.add_assoc]

theorem Reads.bindAll {β γ : Type} {r : BufferReader β} {f : β → BufferReader γ} {bs bs' : Bytes}
    {b : β} {c : γ} (h : Reads r bs b) (h' : ReadsAll (f b) bs' c) :
    ReadsAll (r >>= f) (bs ++ bs') c := by
  intro op hcur hrest
  have hpre : bs <+: op.rest := hrest ▸ List.prefix_append bs bs'
  have hrest' : (op.skip bs.length).rest = bs' := by
    rw [ConstBufferOperator.rest_skip, hrest, List.drop_left]
  show (r op >>= fun p => f p.1 p.2) = _
  rw [h op hcur hpre]
  show f b (op.skip bs.length) = _
  rw [h' _ (ConstBufferOperator.skip_cur_le hcur hpre) hrest']
  simp [ConstBufferOperator.skip, Nat.add_assoc]

theorem reads_getBuffer (bs : Bytes) : Reads (ConstBufferOperator.getBuffer bs.length) bs bs := by
  intro op hcur hpre
  have hin := ConstBufferOperator.skip_cur_le hcur hpre
  simp only [ConstBufferOperator.skip] at hin
  rw [ConstBufferOperator.getBuffer, if_neg (by omega), ← List.prefix_iff_eq_take.1 hpre]
  rfl

/-- A reader that only computes on what another one returns. -/
theorem Reads.map {β γ : Type} {r : BufferReader β} {bs : Bytes} {b : β} (h : Reads r bs b)
    (f : β → γ) : Reads (r >>= fun b => pure (f b)) bs (f b) := by
  have := Reads.bind (f := fun b => pure (f b)) h (reads_pure (f b))
  rwa [List.append_nil] at this

/-- The number behind `k` bytes of it, when it fits. -/
theorem reads_ofLe {k n : ℕ} (h : n < 256 ^ k) {γ : Type} (f : ℕ → γ) :
    Reads (ConstBufferOperator.getBuffer k >>= fun bs => pure (f (ofLe bs))) (leBytes k n) (f n) := by
  have := (reads_getBuffer (leBytes k n)).map fun bs => f (ofLe bs)
  rwa [leBytes_length, ofLe_leBytes_of_lt h] at this

theorem reads_getUint8 (n : UInt8) : Reads ConstBufferOperator.getUint8 (leBytes 1 n.toNat) n := by
  have := reads_ofLe (k := 1) n.toNat_lt UInt8.ofNat
  rwa [UInt8.ofNat_toNat] at this

theorem reads_getUint32 (n : UInt32) :
    Reads ConstBufferOperator.getUint32 (leBytes 4 n.toNat) n := by
  have := reads_ofLe (k := 4) n.toNat_lt UInt32.ofNat
  rwa [UInt32.ofNat_toNat] at this

theorem reads_getLen {n : ℕ} {lenType : BufferLenType} (h : n ≤ lenType.max) :
    Reads (ConstBufferOperator.getLen lenType) (leBytes lenType.size n) n := by
  have hlt : n < lenType.max + 1 := Nat.lt_succ_of_le h
  cases lenType with
  | uInt8 =>
    have := (reads_ofLe (k := 1) hlt UInt8.ofNat).map UInt8.toNat
    rwa [UInt8.toNat_ofNat_of_lt' hlt] at this
  | uInt16 =>
    have := (reads_ofLe (k := 2) hlt UInt16.ofNat).map UInt16.toNat
    rwa [UInt16.toNat_ofNat_of_lt' hlt] at this
  | uInt32 =>
    have := (reads_ofLe (k := 4) hlt UInt32.ofNat).map UInt32.toNat
    rwa [UInt32.toNat_ofNat_of_lt' hlt] at this
  | uInt64 =>
    have := (reads_ofLe (k := 8) hlt UInt64.ofNat).map UInt64.toNat
    rwa [UInt64.toNat_ofNat_of_lt' hlt] at this

theorem reads_getString {s : Bytes} {lenType : BufferLenType} (h : s.length ≤ lenType.max) :
    Reads (ConstBufferOperator.getString lenType) (encodeString lenType s) s :=
  (reads_getLen h).bind (reads_getBuffer s)

theorem readsAll_getRemainingBuffer (bs : Bytes) :
    ReadsAll ConstBufferOperator.getRemainingBuffer bs bs := by
  intro op hcur hrest
  have hlen : op.buf.length - op.cur = bs.length := by
    rw [← hrest, ConstBufferOperator.rest, List.length_drop]
  show ConstBufferOperator.getBuffer (op.buf.length - op.cur) op = _
  rw [hlen]
  exact reads_getBuffer bs op hcur (hrest ▸ List.prefix_rfl)

theorem ReadsAll.map {β γ : Type} {r : BufferReader β} {bs : Bytes} {b : β} (h : ReadsAll r bs b)
    (f : β → γ) : ReadsAll (r >>= fun b => pure (f b)) bs (f b) := by
  intro op hcur hrest
  show (r op >>= fun p => pure (f p.1, p.2)) = _
  rw [h op hcur hrest]
  rfl

/-- Decoding a whole frame. -/
theorem ReadsAll.run {β : Type} {r : BufferReader β} {bs : Bytes} {b : β} (h : ReadsAll r bs b) :
    r.run' (ConstBufferOperator.ofBytes bs) = .ok b := by
  show Prod.fst <$> r (ConstBufferOperator.ofBytes bs) = _
  rw [h (ConstBufferOperator.ofBytes bs) (Nat.zero_le _) rfl]
  rfl

end AimRT.Util
