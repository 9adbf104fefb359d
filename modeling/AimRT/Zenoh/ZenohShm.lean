import AimRT.Lib.Ownership
import AimRT.Util.BufferArray

/-!
# Sending through shared memory

`ZenohChannelBackend::Publish`, `ZenohRpcBackend::Invoke` and the callback of its services send through
shared memory in the same way: a loop loans a block of the remembered size, writes the header, and
serializes behind it, until the block is large enough; then the block is put.  When a loan is refused,
the data goes into a frame without shared memory.

`ShmUser` is what differs between the three.  A loan result that the next round overwrites stays
allocated, so that every round takes room from the provider; this ends the loop.
-/

namespace AimRT.Zenoh

open AimRT.Lib AimRT.Util

/-! ### The loop -/

/-- The provider of shared memory.  `others i` are the bytes that others hold when this thread asks for
its block `i`, and `content i n` is what this block of `n` bytes holds before it is written to; a
segment is not larger than an offset into it. -/
structure Provider where
  capacity : ℕ
  capacity_lt : capacity < 2 ^ 63
  others : ℕ → ℕ
  content : ℕ → ℕ → Bytes
  content_length : ∀ i n, (content i n).length = n

/-- `z_shm_provider_alloc`, when this thread holds `held` bytes in `i` blocks: granted where there is
room. -/
def Provider.Grants (p : Provider) (i held size : ℕ) : Prop := p.others i + held + size ≤ p.capacity

instance (p : Provider) (i held size : ℕ) : Decidable (p.Grants i held size) := Nat.decLe _ _

/-- What differs between the senders: the header that they write behind the first four bytes, the
length that they compute for it, the width of `msg_size` and of the arithmetic on it, the length that
they write in front, and the frame without shared memory, where there is one. -/
structure ShmUser where
  setHeader : BufferOperator → Except BufferError BufferOperator
  headerLen : ℕ
  msgSizeBits : ℕ
  pkgLen : ℕ → UInt32
  netFrame : List Bytes → Option Bytes

/-- The variables of the loop.  `loanSize` is the remembered size, `block` the loaned block, `held` the
bytes of the blocks so far, which are in `ledger` under their numbers. -/
structure LoopState where
  loanSize : ℕ
  bufferArrayCachePtr : Option BufferArrayView
  isShmLoanSizeEnough : Bool
  msgSize : ℕ
  block : Bytes
  held : ℕ
  ledger : Ledger ℕ

def LoopState.init (size : UInt64) : LoopState where
  loanSize := size.toNat
  bufferArrayCachePtr := none
  isShmLoanSizeEnough := true
  msgSize := 0
  block := []
  held := 0
  ledger := []

/-- The loan that a round makes. -/
def LoopState.loan (p : Provider) (s : LoopState) : LoopState :=
  { s with
    block := p.content s.ledger.length s.loanSize
    held := s.held + s.loanSize
    ledger := s.ledger ++ [.acquire s.ledger.length] }

/-- How a round leaves the loop, other than at its condition: the loan is refused, the header throws,
the serialization fails in a block that was enough, or something writes outside the block. -/
inductive Stop where
  | poolNotEnough
  | thrown
  | failed
  | undefined
  deriving DecidableEq, Repr

/-- The part of a round that `buffer_array_cache_ptr == nullptr` guards: `SerializeMsgSupportedZenoh`
or a sibling, and what is done with its result. -/
def ShmUser.serializeSupportedZenoh (u : ShmUser) (m : Payload) (remainingSize : ℕ) (s : LoopState) :
    LoopState × Option Stop :=
  match m.cache with
  | some view =>
    let msgSize := view.bufferSize % 2 ^ u.msgSizeBits
    let s := { s with msgSize := msgSize, bufferArrayCachePtr := some view }
    if msgSize > remainingSize then
      let size := (4 + u.headerLen + msgSize) % 2 ^ u.msgSizeBits
      ({ s with isShmLoanSizeEnough := false, loanSize := size }, none)
    else ({ s with isShmLoanSizeEnough := true }, none)
  | none =>
    let zAllocator := ZenohBufferArrayAllocator.new remainingSize (4 + u.headerLen)
    match m.serialization.serialize ZenohBufferArrayAllocator.allocator zAllocator s.block with
    | none => (s, some .undefined)
    | some (ret, zAllocator, block) =>
      let s := { s with block := block }
      if ret then
        let msgSize := m.serialization.body.length % 2 ^ u.msgSizeBits
        ({ s with msgSize := msgSize, isShmLoanSizeEnough := true }, none)
      else if !zAllocator.zIsShmEnough then
        ({ s with loanSize := s.loanSize * 2 % 2 ^ 64, isShmLoanSizeEnough := false }, none)
      else (s, some .failed)

/-- One round.  Once a cached serialization was found, a round does not look at the size again. -/
def ShmUser.round (u : ShmUser) (p : Provider) (m : Payload) (s : LoopState) :
    LoopState × Option Stop :=
  if p.Grants s.ledger.length s.held s.loanSize then
    let s := s.loan p
    match u.setHeader ⟨s.block, 4⟩ with
    | .error _ => (s, some .thrown)
    | .ok bufOper =>
      let s := { s with block := bufOper.buf }
      match s.bufferArrayCachePtr with
      | some _ => (s, none)
      | none => u.serializeSupportedZenoh m (bufOper.buf.length - bufOper.cur) s
  else (s, some .poolNotEnough)

/-- Up to `fuel` rounds; no value where the loop has not ended. -/
def ShmUser.loop (u : ShmUser) (p : Provider) (m : Payload) :
    (fuel : ℕ) → LoopState → Option (LoopState × Option Stop)
  | 0, _ => none
  | fuel + 1, s =>
    match u.round p m s with
    | (s, some stop) => some (s, some stop)
    | (s, none) => if s.isShmLoanSizeEnough then some (s, none) else u.loop p m fuel s

/-! ### Behind the loop -/

/-- `buffer_array_cache_ptr.get()[ii].Data()` as a buffer: the pointer is to one view, so that only the
index `0` is inside, and there `Data()` is the first buffer. -/
def cacheData (view : BufferArrayView) : ℕ → Option Bytes
  | 0 => view.buffers.head?
  | _ + 1 => none

/-- The copy loop from `ii` on, for `n` buffers. -/
def copyCache (view : BufferArrayView) : (n ii : ℕ) → (block : Bytes) → (startPos : ℕ) → Option Bytes
  | 0, _, block, _ => some block
  | n + 1, ii, block, startPos => do
    let data ← cacheData view ii
    let block ← memcpy block startPos data
    copyCache view n (ii + 1) block (startPos + data.length)

/-- The block that is put; no value where something outside the block or the view is touched. -/
def ShmUser.payload (u : ShmUser) (s : LoopState) : Option Bytes := do
  let block ← match s.bufferArrayCachePtr with
    | some view => copyCache view view.buffers.length 0 s.block (4 + u.headerLen)
    | none => some s.block
  memcpy block 0 (leBytes 4 (u.pkgLen s.msgSize).toNat)

/-- What becomes of what is sent: nothing without a publisher. -/
inductive SendOutcome where
  | notRegistered
  | shm (payload : Option Bytes)
  | net (frame : Bytes)
  | thrown
  | serializationFailed
  | undefined
  deriving DecidableEq, Repr

/-- Without shared memory, or where its pool is not enough. -/
def ShmUser.sendNet (u : ShmUser) (m : Payload) : SendOutcome :=
  match m.trySerialize with
  | none => .serializationFailed
  | some bufferArray =>
    match u.netFrame bufferArray with
    | none => .thrown
    | some frame => .net frame

structure ShmRun where
  outcome : SendOutcome
  ledger : Ledger ℕ
  deriving DecidableEq, Repr

/-- What is done behind the loop.  The last block is handed over when it is put. -/
def ShmUser.afterLoop (u : ShmUser) (m : Payload) : LoopState × Option Stop → ShmRun
  | (s, none) => ⟨.shm (u.payload s), s.ledger ++ [.handOver (s.ledger.length - 1)]⟩
  | (s, some .poolNotEnough) => ⟨u.sendNet m, s.ledger⟩
  | (s, some .thrown) => ⟨.thrown, s.ledger⟩
  | (s, some .failed) => ⟨.serializationFailed, s.ledger⟩
  | (s, some .undefined) => ⟨.undefined, s.ledger⟩

/-- Sending with shared memory, for the remembered size `size`. -/
def ShmUser.send (u : ShmUser) (p : Provider) (m : Payload) (size : UInt64) (fuel : ℕ) :
    Option ShmRun :=
  (u.loop p m fuel (.init size)).map (u.afterLoop m)

/-! ### What one round does -/

/-- What the senders have in common: the header is a fixed string of bytes, written where there is room
for it and its fields fit their lengths; a frame has the length of what follows in front, and is there
below a limit. -/
structure ShmUser.Lawful (u : ShmUser) (header : Bytes) (fits : Prop) (netLimit : ℕ) : Prop where
  writes : Writes u.setHeader header fits
  rejects : ∀ op : BufferOperator, op.buf.length < op.cur → ∃ e, u.setHeader op = .error e
  headerLen : u.headerLen = header.length
  netFrame : ∀ bufferArray frame, u.netFrame bufferArray = some frame ↔
    fits ∧ 4 + (header ++ bufferArray.flatten).length < netLimit ∧
      frame = leBytes 4 (UInt32.ofNat (header ++ bufferArray.flatten).length).toNat ++
        (header ++ bufferArray.flatten)

/-- A frame with the length of what follows in front, where sizes have `bits` bits. -/
theorem fillFrame_eq_ok_iff {w : BufferOperator → Except BufferError BufferOperator} {header : Bytes}
    {fits : Prop} (hw : Writes w header fits) (bufferArray : List Bytes) (bits : ℕ) (frame : Bytes) :
    (fillBuffer (((header ++ bufferArray.flatten).length % 2 ^ bits + 4) % 2 ^ bits) fun op => do
      let op ← op.setUint32 (UInt32.ofNat ((header ++ bufferArray.flatten).length % 2 ^ bits))
      let op ← w op
      bufferArray.foldlM (fun op data => op.setBuffer data) op) = .ok frame ↔
    fits ∧ 4 + (header ++ bufferArray.flatten).length < 2 ^ bits ∧
      frame = leBytes 4 (UInt32.ofNat (header ++ bufferArray.flatten).length).toNat ++
        (header ++ bufferArray.flatten) := by
  generalize hn : (header ++ bufferArray.flatten).length = n
  have hwrites := (writes_setUint32 (UInt32.ofNat (n % 2 ^ bits))).bind
    (hw.bind (writes_setBuffers bufferArray))
  have hlen : (leBytes 4 (UInt32.ofNat (n % 2 ^ bits)).toNat ++
      (header ++ bufferArray.flatten)).length = 4 + n := by
    rw [List.length_append, leBytes_length, hn]
  have hmod := Nat.mod_le n (2 ^ bits)
  have hmod' := Nat.mod_le (n % 2 ^ bits + 4) (2 ^ bits)
  refine (fillBuffer_eq_ok_iff hwrites (by rw [hlen]; omega)).trans ?_
  rw [hlen]
  constructor
  · rintro ⟨⟨-, hfits, -⟩, hsize, rfl⟩
    -- the size is not cut, and neither is the length
    have hlt : 4 + n < 2 ^ bits := by
      rw [← hsize]
      exact Nat.mod_lt _ (Nat.two_pow_pos _)
    exact ⟨hfits, hlt, by rw [Nat.mod_eq_of_lt (by omega)]⟩
  · rintro ⟨hfits, hlt, rfl⟩
    have hcut : n % 2 ^ bits = n := Nat.mod_eq_of_lt (by omega)
    rw [hcut]
    exact ⟨⟨trivial, hfits, trivial⟩, by rw [Nat.mod_eq_of_lt (by omega), Nat.add_comm], rfl⟩

section Rounds

variable {u : ShmUser} {header : Bytes} {fits : Prop} {netLimit : ℕ} {p : Provider} {m : Payload}
  {s s' : LoopState} {stop : Option Stop}

theorem LoopState.loan_block_length (p : Provider) (s : LoopState) :
    (s.loan p).block.length = s.loanSize := p.content_length _ _

theorem Provider.Grants.lt {i held size : ℕ} (h : p.Grants i held size) : size < 2 ^ 63 := by
  have := p.capacity_lt
  unfold Provider.Grants at h
  omega

/-- The header is written into a block that is large enough for it. -/
theorem ShmUser.Lawful.setHeader_eq (hu : u.Lawful header fits netLimit) (block : Bytes)
    (hfits : fits) (hroom : 4 + header.length ≤ block.length) :
    u.setHeader ⟨block, 4⟩ = .ok ⟨overwrite block 4 header, 4 + header.length⟩ :=
  (hu.writes ⟨block, 4⟩ _ (by show 4 ≤ block.length; omega)).2 ⟨hroom, hfits, rfl⟩

theorem ShmUser.Lawful.setHeader_error (hu : u.Lawful header fits netLimit) {block : Bytes}
    (h : ¬ (fits ∧ 4 + header.length ≤ block.length)) : ∃ e, u.setHeader ⟨block, 4⟩ = .error e := by
  by_cases hcur : 4 ≤ block.length
  · cases hset : u.setHeader ⟨block, 4⟩ with
    | error e => exact ⟨e, rfl⟩
    | ok op =>
      obtain ⟨hroom, hfits, -⟩ := (hu.writes ⟨block, 4⟩ op hcur).1 hset
      exact absurd ⟨hfits, hroom⟩ h
  · exact hu.rejects ⟨block, 4⟩ (Nat.not_le.1 hcur)

theorem ShmUser.round_refused (h : ¬ p.Grants s.ledger.length s.held s.loanSize) :
    u.round p m s = (s, some .poolNotEnough) := if_neg h

theorem ShmUser.Lawful.round_thrown (hu : u.Lawful header fits netLimit)
    (h : p.Grants s.ledger.length s.held s.loanSize)
    (hheader : ¬ (fits ∧ 4 + header.length ≤ s.loanSize)) :
    u.round p m s = (s.loan p, some .thrown) := by
  rw [← s.loan_block_length p] at hheader
  obtain ⟨e, he⟩ := hu.setHeader_error hheader
  rw [round, if_pos h]
  simp only [he]

/-- The state behind the header of a round. -/
def LoopState.written (p : Provider) (header : Bytes) (s : LoopState) : LoopState :=
  { s.loan p with block := overwrite (s.loan p).block 4 header }

theorem LoopState.written_block_length (hheader : 4 + header.length ≤ s.loanSize) :
    (s.written p header).block.length = s.loanSize := by
  rw [← s.loan_block_length p] at hheader
  rw [← s.loan_block_length p]
  exact overwrite_length hheader

theorem ShmUser.Lawful.round_written (hu : u.Lawful header fits netLimit)
    (h : p.Grants s.ledger.length s.held s.loanSize) (hfits : fits)
    (hheader : 4 + header.length ≤ s.loanSize) :
    u.round p m s = match s.bufferArrayCachePtr with
      | some _ => (s.written p header, none)
      | none => u.serializeSupportedZenoh m (s.loanSize - (4 + header.length)) (s.written p header) := by
  have hset := hu.setHeader_eq (s.loan p).block hfits (by rwa [s.loan_block_length p])
  have hlen := LoopState.written_block_length (p := p) hheader
  rw [round, if_pos h]
  simp only [hset]
  show (match s.bufferArrayCachePtr with
    | some _ => _
    | none => u.serializeSupportedZenoh m ((s.written p header).block.length - _) _) = _
  rw [hlen]
  rfl

/-- The allocator of a round: `serialize_fits` and `serialize_full` for the block behind the header. -/
theorem ShmUser.Lawful.serialize_eq (hu : u.Lawful header fits netLimit)
    (hcache : m.cache = none) (hheader : 4 + header.length ≤ s.loanSize) :
    if 4 + header.length + m.serialization.asked ≤ s.loanSize then
      u.serializeSupportedZenoh m (s.loanSize - (4 + header.length)) (s.written p header) =
        if m.serialization.ok then
          ({ s.written p header with
              block := overwrite (s.written p header).block (4 + header.length) m.serialization.body
              msgSize := m.serialization.body.length % 2 ^ u.msgSizeBits
              isShmLoanSizeEnough := true }, none)
        else
          ({ s.written p header with
              block := overwrite (s.written p header).block (4 + header.length)
                m.serialization.body }, some .failed)
    else
      ∃ block, u.serializeSupportedZenoh m (s.loanSize - (4 + header.length)) (s.written p header) =
        ({ s.written p header with
            block := block
            loanSize := s.loanSize * 2 % 2 ^ 64
            isShmLoanSizeEnough := false }, none) := by
  have hlen := LoopState.written_block_length (p := p) hheader
  let a := ZenohBufferArrayAllocator.new (s.loanSize - (4 + header.length)) (4 + u.headerLen)
  have hgood : a.Good := ⟨Nat.zero_le _, rfl⟩
  have hlim : a.zShmCurPtr + (a.zShmCapacity - a.zShmUsedSize) = s.loanSize := by
    show 4 + u.headerLen + (s.loanSize - (4 + header.length) - 0) = s.loanSize
    rw [hu.headerLen]
    omega
  have hcur : a.zShmCurPtr = 4 + header.length := by
    show 4 + u.headerLen = _
    rw [hu.headerLen]
  split
  · rename_i hroom
    obtain ⟨a', hserialize, hshort⟩ := ZenohBufferArrayAllocator.flat.serialize_fits m.serialization
      (s.written p header).block hgood (by rw [hlim, hlen])
      (by rw [hlim, hcur]; exact hroom)
    rw [hcur] at hserialize
    rw [serializeSupportedZenoh, hcache]
    simp only [a] at hserialize
    simp only [hserialize]
    split
    · rfl
    · have henough : (!a'.zIsShmEnough) = false := hshort
      rw [henough]
      rfl
  · rename_i hroom
    obtain ⟨a', block', hserialize, hshort⟩ := ZenohBufferArrayAllocator.flat.serialize_full
      m.serialization (s.written p header).block hgood (by rw [hlim, hlen])
      (by rw [hlim, hcur]; exact hroom) (by rw [hlim, hcur]; exact hheader)
    refine ⟨block', ?_⟩
    have henough : (!a'.zIsShmEnough) = true := hshort
    rw [serializeSupportedZenoh, hcache]
    simp only [a] at hserialize
    simp only [hserialize, henough]
    rfl

/-- The part of a round behind the header takes no block. -/
theorem ShmUser.serializeSupportedZenoh_held (remainingSize : ℕ) :
    (u.serializeSupportedZenoh m remainingSize s).1.held = s.held ∧
      (u.serializeSupportedZenoh m remainingSize s).1.ledger = s.ledger ∧
      (u.serializeSupportedZenoh m remainingSize s).2 ≠ some .poolNotEnough := by
  unfold serializeSupportedZenoh
  cases m.cache with
  | some view =>
    dsimp only
    split <;> exact ⟨rfl, rfl, nofun⟩
  | none =>
    dsimp only
    split
    · exact ⟨rfl, rfl, nofun⟩
    split
    · exact ⟨rfl, rfl, nofun⟩
    split <;> exact ⟨rfl, rfl, nofun⟩

/-- **What a round takes.**  A refused loan leaves the loop; any other round takes one block, and goes
on only if the header was written into it. -/
theorem ShmUser.Lawful.round_takes (hu : u.Lawful header fits netLimit)
    (h : u.round p m s = (s', stop)) :
    (¬ p.Grants s.ledger.length s.held s.loanSize ∧ s' = s ∧ stop = some .poolNotEnough) ∨
      (p.Grants s.ledger.length s.held s.loanSize ∧ s'.held = s.held + s.loanSize ∧
        s'.ledger = s.ledger ++ [Transfer.acquire s.ledger.length] ∧ stop ≠ some .poolNotEnough ∧
        (stop = none → fits ∧ 4 + header.length ≤ s.loanSize)) := by
  by_cases hgrants : p.Grants s.ledger.length s.held s.loanSize
  swap
  · rw [round_refused hgrants] at h
    obtain ⟨rfl, rfl⟩ := Prod.mk.inj h
    exact Or.inl ⟨hgrants, rfl, rfl⟩
  by_cases hheader : fits ∧ 4 + header.length ≤ s.loanSize
  swap
  · rw [hu.round_thrown hgrants hheader] at h
    obtain ⟨rfl, rfl⟩ := Prod.mk.inj h
    exact Or.inr ⟨hgrants, rfl, rfl, nofun, nofun⟩
  rw [hu.round_written hgrants hheader.1 hheader.2] at h
  refine Or.inr ⟨hgrants, ?_⟩
  cases hptr : s.bufferArrayCachePtr with
  | some view =>
    rw [hptr] at h
    obtain ⟨rfl, rfl⟩ := Prod.mk.inj h
    exact ⟨rfl, rfl, nofun, fun _ => hheader⟩
  | none =>
    rw [hptr] at h
    obtain ⟨hheld, hledger, hstop⟩ := u.serializeSupportedZenoh_held (m := m)
      (s := s.written p header) (s.loanSize - (4 + header.length))
    rw [show u.serializeSupportedZenoh m _ _ = (s', stop) from h] at hheld hledger hstop
    exact ⟨hheld, hledger, hstop, fun _ => hheader⟩

end Rounds

end AimRT.Zenoh
