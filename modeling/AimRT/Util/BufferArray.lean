import AimRT.Util.BufferUtil

/-!
# Serializing into a block

A type support serializes a message into buffers that it asks of an allocator, one after the other.
The allocators here cut the buffers out of one block of memory, so that the serialization lies in the
block without gaps.  `BlockAllocator.Flat.serialize_fits` says so for every allocator of this kind.
-/

namespace AimRT.Util

open AimRT.Lib

/-! ### Blocks of memory -/

/-- The block with `data` at `pos`. -/
def overwrite (block : Bytes) (pos : ℕ) (data : Bytes) : Bytes :=
  (BufferOperator.put ⟨block, pos⟩ data).buf

/-- `memcpy` into a block; no value where it would leave the block. -/
def memcpy (block : Bytes) (pos : ℕ) (data : Bytes) : Option Bytes :=
  if pos + data.length ≤ block.length then some (overwrite block pos data) else none

variable {block data data' : Bytes} {pos : ℕ}

theorem memcpy_eq_some (h : pos + data.length ≤ block.length) :
    memcpy block pos data = some (overwrite block pos data) := if_pos h

theorem memcpy_eq_none (h : ¬ pos + data.length ≤ block.length) : memcpy block pos data = none :=
  if_neg h

@[simp] theorem overwrite_nil (block : Bytes) (pos : ℕ) : overwrite block pos [] = block := by
  simp [overwrite, BufferOperator.put]

theorem overwrite_length (h : pos + data.length ≤ block.length) :
    (overwrite block pos data).length = block.length :=
  @BufferOperator.put_length ⟨block, pos⟩ data h

/-- Two pieces of data, one behind the other. -/
theorem overwrite_overwrite (h : pos + data.length ≤ block.length) :
    overwrite (overwrite block pos data) (pos + data.length) data' =
      overwrite block pos (data ++ data') :=
  congrArg BufferOperator.buf (@BufferOperator.put_put ⟨block, pos⟩ data data' h)

/-- The length in front of what is behind it. -/
theorem overwrite_front {c pre data : Bytes} (hpre : pre.length = 4)
    (hroom : 4 + data.length ≤ c.length) :
    overwrite (overwrite c 4 data) 0 pre = pre ++ data ++ c.drop (4 + data.length) := by
  have htake : (c.take 4).length = 4 := by
    rw [List.length_take]
    omega
  have hdrop : (c.take 4 ++ data ++ c.drop (4 + data.length)).drop 4 =
      data ++ c.drop (4 + data.length) := by
    rw [List.append_assoc]
    calc (c.take 4 ++ (data ++ c.drop (4 + data.length))).drop 4
        = (c.take 4 ++ (data ++ c.drop (4 + data.length))).drop (c.take 4).length := by rw [htake]
      _ = data ++ c.drop (4 + data.length) := List.drop_left
  show (overwrite c 4 data).take 0 ++ pre ++ (overwrite c 4 data).drop (0 + pre.length) = _
  rw [List.take_zero, List.nil_append, Nat.zero_add, hpre]
  show pre ++ (c.take 4 ++ data ++ c.drop (4 + data.length)).drop 4 = _
  rw [hdrop, List.append_assoc]

/-! ### Copies of buffers -/

/-- The loops that copy the buffers of a message one behind the other. -/
def copyBuffers (block : Bytes) (pos : ℕ) : List Bytes → Option Bytes
  | [] => some block
  | data :: bufferArray => do
    copyBuffers (← memcpy block pos data) (pos + data.length) bufferArray

/-- `data`, resized to the size of the buffer array and filled. -/
def fillData (bufferArray : List Bytes) : Option Bytes :=
  copyBuffers (List.replicate (bufferArray.map List.length).sum 0) 0 bufferArray

theorem copyBuffers_eq (bufferArray : List Bytes) : ∀ (block : Bytes) (pos : ℕ),
    pos + (bufferArray.map List.length).sum ≤ block.length →
    copyBuffers block pos bufferArray = some (overwrite block pos bufferArray.flatten) := by
  induction bufferArray with
  | nil =>
    intro block pos _
    simp [copyBuffers]
  | cons data bufferArray ih =>
    intro block pos hroom
    simp only [List.map_cons, List.sum_cons] at hroom
    have hdata : pos + data.length ≤ block.length := by omega
    have hrest : pos + data.length + (bufferArray.map List.length).sum ≤
        (overwrite block pos data).length := by
      rw [overwrite_length hdata]
      omega
    simp only [copyBuffers, memcpy_eq_some hdata, Option.bind_eq_bind, Option.bind_some]
    rw [ih _ _ hrest, overwrite_overwrite hdata, List.flatten_cons]

theorem fillData_eq (bufferArray : List Bytes) : fillData bufferArray = some bufferArray.flatten := by
  rw [fillData, copyBuffers_eq _ _ _ (by simp), ← List.length_flatten]
  exact congrArg some (BufferOperator.ofLen_put_buf _)

/-! ### Serializations -/

/-- `BufferArrayView`: buffers in memory, whose bytes a `size_t` counts. -/
structure BufferArrayView where
  buffers : List Bytes
  size_lt : buffers.flatten.length < 2 ^ 64

def BufferArrayView.bufferSize (view : BufferArrayView) : ℕ := view.buffers.flatten.length

/-- A buffer that a type support asks for, and what it leaves in it. -/
structure Buffer where
  size : ℕ
  data : Bytes
  data_le : data.length ≤ size

/-- What a type support does with a message: the buffers it asks for, of which it fills all but the
last to their end, and whether it succeeds when it gets them all. -/
structure Serialization where
  buffers : List Buffer
  ok : Bool
  filled : ∀ b ∈ buffers.dropLast, b.data.length = b.size

namespace Serialization

def body (s : Serialization) : Bytes := (s.buffers.map Buffer.data).flatten

/-- The bytes it asks for. -/
def asked (s : Serialization) : ℕ := (s.buffers.map Buffer.size).sum

/-- The buffers it returns when an allocator gives every buffer memory of its own. -/
def result (s : Serialization) : Option (List Bytes) :=
  if s.ok then some (s.buffers.map Buffer.data) else none

theorem body_length_le (s : Serialization) : s.body.length ≤ s.asked := by
  rw [body, asked, List.length_flatten, List.map_map]
  exact List.sum_le_sum fun b _ => b.data_le

end Serialization

/-! ### Payloads -/

/-- What is sent: its serialization in the cache, or what the type support does. -/
structure Payload where
  cache : Option BufferArrayView
  serialization : Serialization

/-- What is sent as bytes. -/
def Payload.body (m : Payload) : Bytes :=
  match m.cache with
  | some view => view.buffers.flatten
  | none => m.serialization.body

theorem Payload.body_of_cached {m : Payload} {view : BufferArrayView} (h : m.cache = some view) :
    m.body = view.buffers.flatten := by
  rw [Payload.body, h]

theorem Payload.body_of_not_cached {m : Payload} (h : m.cache = none) :
    m.body = m.serialization.body := by
  rw [Payload.body, h]

/-- `SerializeMsgWithCache` and its siblings: the buffers for a frame without shared memory. -/
def Payload.trySerialize (m : Payload) : Option (List Bytes) :=
  match m.cache with
  | some view => some view.buffers
  | none => m.serialization.result

theorem Payload.flatten_of_trySerialize {m : Payload} {bufferArray : List Bytes}
    (h : m.trySerialize = some bufferArray) : bufferArray.flatten = m.body := by
  unfold Payload.trySerialize at h
  cases hcache : m.cache with
  | some view =>
    rw [hcache] at h
    obtain rfl := Option.some.inj h
    exact (Payload.body_of_cached hcache).symm
  | none =>
    rw [hcache] at h
    rw [Payload.body_of_not_cached hcache]
    simp only [Serialization.result] at h
    split at h
    · obtain rfl := Option.some.inj h
      rfl
    · cases h

/-! ### Allocators in a block -/

/-- An allocator in a block: `allocate` gives the place of a buffer, and `short` says that the block
was not enough. -/
structure BlockAllocator (σ : Type) where
  allocate : σ → ℕ → σ × Option ℕ
  short : σ → Bool

variable {σ : Type}

/-- The buffers of a serialization, one after the other, up to the first that is not to be had. -/
def BlockAllocator.serializeBuffers (A : BlockAllocator σ) :
    List Buffer → σ → Bytes → Option (Bool × σ × Bytes)
  | [], a, block => some (true, a, block)
  | b :: buffers, a, block =>
    match A.allocate a b.size with
    | (a, none) => some (false, a, block)
    | (a, some pos) => do
      let block ← memcpy block pos b.data
      A.serializeBuffers buffers a block

/-- `Serialize` with an allocator: its result, the allocator and the block behind it; no value where
it writes outside the block. -/
def Serialization.serialize (s : Serialization) (A : BlockAllocator σ) (a : σ) (block : Bytes) :
    Option (Bool × σ × Bytes) := do
  let (ret, a, block) ← A.serializeBuffers s.buffers a block
  return (ret && s.ok, a, block)

/-- The allocator gives the places from `cur` to `lim`, without gaps, as long as it is `good`. -/
structure BlockAllocator.Flat (A : BlockAllocator σ) (cur lim : σ → ℕ) (good : σ → Prop) : Prop where
  fits : ∀ a n, good a → cur a + n ≤ lim a →
    ∃ a', A.allocate a n = (a', some (cur a)) ∧ good a' ∧ cur a' = cur a + n ∧ lim a' = lim a
  full : ∀ a n, good a → ¬ cur a + n ≤ lim a → ∃ a', A.allocate a n = (a', none) ∧ A.short a' = true
  short : ∀ a, good a → A.short a = false

namespace BlockAllocator.Flat

variable {A : BlockAllocator σ} {cur lim : σ → ℕ} {good : σ → Prop}

theorem serializeBuffers_fits (h : A.Flat cur lim good) {buffers : List Buffer}
    (hfilled : ∀ b ∈ buffers.dropLast, b.data.length = b.size) {a : σ} {block : Bytes}
    (ha : good a) (hlim : lim a ≤ block.length)
    (hroom : cur a + (buffers.map Buffer.size).sum ≤ lim a) :
    ∃ a', A.serializeBuffers buffers a block =
      some (true, a', overwrite block (cur a) (buffers.map Buffer.data).flatten) ∧ good a' := by
  induction buffers generalizing a block with
  | nil => exact ⟨a, by simp [BlockAllocator.serializeBuffers], ha⟩
  | cons b buffers ih =>
    rw [List.map_cons, List.sum_cons] at hroom
    obtain ⟨a₁, hallocate, ha₁, hcur, hlim₁⟩ := h.fits a b.size ha (by omega)
    have hle := b.data_le
    have hin : cur a + b.data.length ≤ block.length := by omega
    have hserialize : A.serializeBuffers (b :: buffers) a block =
        A.serializeBuffers buffers a₁ (overwrite block (cur a) b.data) := by
      rw [BlockAllocator.serializeBuffers, hallocate]
      show (memcpy block (cur a) b.data >>= fun block => A.serializeBuffers buffers a₁ block) = _
      rw [memcpy_eq_some hin]
      rfl
    rw [hserialize]
    cases buffers with
    | nil =>
      refine ⟨a₁, ?_, ha₁⟩
      simp [BlockAllocator.serializeBuffers]
    | cons b' buffers =>
      -- the buffer is not the last one, so that the next one starts where its data ends
      have hfull : b.data.length = b.size := hfilled b (by simp)
      obtain ⟨a', hrest, ha'⟩ := ih (fun c hc => hfilled c (by simp [hc])) ha₁
        (by rw [overwrite_length hin]; omega) (by omega)
      refine ⟨a', ?_, ha'⟩
      rw [hrest, hcur, ← hfull, overwrite_overwrite hin]
      rfl

theorem serializeBuffers_full (h : A.Flat cur lim good) {buffers : List Buffer} {a : σ}
    {block : Bytes} (ha : good a) (hlim : lim a ≤ block.length)
    (hroom : ¬ cur a + (buffers.map Buffer.size).sum ≤ lim a) (hcur : cur a ≤ lim a) :
    ∃ a' block', A.serializeBuffers buffers a block = some (false, a', block') ∧
      A.short a' = true := by
  induction buffers generalizing a block with
  | nil => exact absurd (by simpa using hcur) hroom
  | cons b buffers ih =>
    rw [List.map_cons, List.sum_cons] at hroom
    by_cases hfits : cur a + b.size ≤ lim a
    · obtain ⟨a₁, hallocate, ha₁, hcur₁, hlim₁⟩ := h.fits a b.size ha hfits
      have hin : cur a + b.data.length ≤ block.length := by
        have := b.data_le
        omega
      obtain ⟨a', block', hrest, hshort⟩ := @ih a₁ (overwrite block (cur a) b.data) ha₁
        (by rw [overwrite_length hin]; omega) (by omega) (by omega)
      refine ⟨a', block', ?_, hshort⟩
      rw [BlockAllocator.serializeBuffers, hallocate]
      show (memcpy block (cur a) b.data >>= fun block => A.serializeBuffers buffers a₁ block) = _
      rw [memcpy_eq_some hin]
      exact hrest
    · obtain ⟨a₁, hallocate, hshort⟩ := h.full a b.size ha hfits
      exact ⟨a₁, block, by rw [BlockAllocator.serializeBuffers, hallocate], hshort⟩

/-- **A serialization that fits** lies in the block without gaps. -/
theorem serialize_fits (h : A.Flat cur lim good) (s : Serialization) {a : σ} (block : Bytes)
    (ha : good a) (hlim : lim a ≤ block.length) (hroom : cur a + s.asked ≤ lim a) :
    ∃ a', s.serialize A a block = some (s.ok, a', overwrite block (cur a) s.body) ∧
      A.short a' = false := by
  obtain ⟨a', hserialize, ha'⟩ := h.serializeBuffers_fits s.filled ha hlim hroom
  refine ⟨a', ?_, h.short a' ha'⟩
  rw [Serialization.serialize, hserialize]
  rfl

theorem serialize_full (h : A.Flat cur lim good) (s : Serialization) {a : σ} (block : Bytes)
    (ha : good a) (hlim : lim a ≤ block.length) (hroom : ¬ cur a + s.asked ≤ lim a)
    (hcur : cur a ≤ lim a) :
    ∃ a' block', s.serialize A a block = some (false, a', block') ∧ A.short a' = true := by
  obtain ⟨a', block', hserialize, hshort⟩ := h.serializeBuffers_full ha hlim hroom hcur
  refine ⟨a', block', ?_, hshort⟩
  rw [Serialization.serialize, hserialize]
  rfl

end BlockAllocator.Flat

/-! ### The allocator of the zenoh plugin -/

/-- `z_shm_cur_ptr_` is a place in the block. -/
structure ZenohBufferArrayAllocator where
  zShmCapacity : ℕ
  zShmUsedSize : ℕ
  zShmCurPtr : ℕ
  zIsShmEnough : Bool

namespace ZenohBufferArrayAllocator

def new (zShmCapacity zShmHeadPtr : ℕ) : ZenohBufferArrayAllocator := ⟨zShmCapacity, 0, zShmHeadPtr, true⟩

def allocate (a : ZenohBufferArrayAllocator) (size : ℕ) : ZenohBufferArrayAllocator × Option ℕ :=
  let a' := { a with
    zShmCurPtr := a.zShmCurPtr + size
    zShmUsedSize := a.zShmUsedSize + size }
  if a'.zShmUsedSize > a'.zShmCapacity then ({ a' with zIsShmEnough := false }, none)
  else (a', some a.zShmCurPtr)

def allocator : BlockAllocator ZenohBufferArrayAllocator := ⟨allocate, fun a => !a.zIsShmEnough⟩

def Good (a : ZenohBufferArrayAllocator) : Prop :=
  a.zShmUsedSize ≤ a.zShmCapacity ∧ a.zIsShmEnough = true

theorem flat : allocator.Flat zShmCurPtr
    (fun a => a.zShmCurPtr + (a.zShmCapacity - a.zShmUsedSize)) Good where
  fits := by
    intro a n ha hroom
    obtain ⟨hused, henough⟩ := ha
    refine ⟨_, if_neg ?_, ⟨?_, henough⟩, rfl, ?_⟩
    · show ¬ a.zShmUsedSize + n > a.zShmCapacity
      omega
    · show a.zShmUsedSize + n ≤ a.zShmCapacity
      omega
    · show a.zShmCurPtr + n + (a.zShmCapacity - (a.zShmUsedSize + n)) = _
      omega
  full := by
    intro a n ha hroom
    refine ⟨_, if_pos ?_, rfl⟩
    show a.zShmUsedSize + n > a.zShmCapacity
    omega
  short a ha := by
    show (!a.zIsShmEnough) = false
    rw [ha.2]
    rfl

end ZenohBufferArrayAllocator

/-! ### The flat allocator -/

/-- `end_ptr_` and `cur_ptr_` are places in the block. -/
structure FlatBufferArrayAllocator where
  endPtr : ℕ
  curPtr : ℕ
  outOfMemory : Bool

namespace FlatBufferArrayAllocator

def new (ptr size : ℕ) : FlatBufferArrayAllocator := ⟨ptr + size, ptr, false⟩

def allocate (a : FlatBufferArrayAllocator) (size : ℕ) : FlatBufferArrayAllocator × Option ℕ :=
  if a.outOfMemory then (a, none)
  else
    let a' := { a with curPtr := a.curPtr + size }
    if a'.curPtr > a'.endPtr then ({ a' with outOfMemory := true }, none)
    else (a', some a.curPtr)

def allocator : BlockAllocator FlatBufferArrayAllocator := ⟨allocate, outOfMemory⟩

theorem flat : allocator.Flat curPtr endPtr (fun a => a.outOfMemory = false) where
  fits := by
    intro a n ha hroom
    have hallocate : a.allocate n = ({ a with curPtr := a.curPtr + n }, some a.curPtr) := by
      rw [allocate, ha, if_neg Bool.false_ne_true]
      exact if_neg (Nat.not_lt.2 hroom)
    exact ⟨_, hallocate, ha, rfl, rfl⟩
  full := by
    intro a n ha hroom
    refine ⟨{ a with curPtr := a.curPtr + n, outOfMemory := true }, ?_, rfl⟩
    show a.allocate n = _
    rw [allocate, ha, if_neg Bool.false_ne_true]
    exact if_pos (Nat.not_le.1 hroom)
  short _ ha := ha

end FlatBufferArrayAllocator

end AimRT.Util
