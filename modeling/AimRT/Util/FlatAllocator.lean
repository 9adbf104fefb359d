import AimRT.Util.BufferArray

/-!
# Buffers in a block of memory

`FlatBufferArrayAllocator` with the addresses and the buffer array it works on.  It takes its buffers from a block, one
behind the other, and records them in the array, which is made larger when it is full.

The cursor is moved before it is compared with the end, and stays behind the end when a request does not fit; the flag
that is set then keeps it from being used again.
-/

namespace AimRT.Util

/-! ### Buffer arrays -/

/-- `aimrt_buffer_t`. -/
structure AimrtBuffer where
  data : ℕ
  len : ℕ
  deriving DecidableEq, Repr

/-- `aimrt_buffer_t{nullptr, 0}`. -/
def AimrtBuffer.null : AimrtBuffer := ⟨0, 0⟩

/-- `aimrt_buffer_array_t`; the slots from `len` on hold nothing. -/
structure AimrtBufferArray where
  data : List AimrtBuffer
  len : ℕ
  capacity : ℕ
  length_data : data.length = capacity
  len_le : len ≤ capacity

namespace AimrtBufferArray

/-- A new array of a `BufferArray`. -/
def empty : AimrtBufferArray := ⟨[], 0, 0, rfl, le_rfl⟩

/-- What is recorded. -/
def entries (b : AimrtBufferArray) : List AimrtBuffer := b.data.take b.len

/-- `Reserve`: the entries are copied to a new area. -/
def reserve (b : AimrtBufferArray) (newCap : ℕ) (h : b.len ≤ newCap) : AimrtBufferArray where
  data := b.data.take b.len ++ List.replicate (newCap - b.len) .null
  len := b.len
  capacity := newCap
  length_data := by
    rw [List.length_append, List.length_take, List.length_replicate, b.length_data, min_eq_left b.len_le]
    omega
  len_le := h

/-- `data[len++] = buffer`. -/
def push (b : AimrtBufferArray) (buffer : AimrtBuffer) (h : b.len < b.capacity) : AimrtBufferArray where
  data := b.data.set b.len buffer
  len := b.len + 1
  capacity := b.capacity
  length_data := by rw [List.length_set, b.length_data]
  len_le := h

def kInitCapacitySize : ℕ := 2

def newCapacity (b : AimrtBufferArray) : ℕ :=
  if b.capacity < kInitCapacitySize then kInitCapacitySize else b.capacity <<< 1

theorem len_lt_newCapacity (b : AimrtBufferArray) (h : ¬b.capacity > b.len) : b.len < b.newCapacity := by
  have hle := b.len_le
  simp only [newCapacity, kInitCapacitySize, Nat.shiftLeft_eq]
  split_ifs <;> omega

/-- The end of `Allocate`: the buffer is put into the area, or into a larger one. -/
def record (b : AimrtBufferArray) (buffer : AimrtBuffer) : AimrtBufferArray :=
  if h : b.capacity > b.len then b.push buffer h
  else (b.reserve b.newCapacity (b.len_lt_newCapacity h).le).push buffer (b.len_lt_newCapacity h)

variable {b : AimrtBufferArray} {buffer : AimrtBuffer}

theorem entries_push (h : b.len < b.capacity) : (b.push buffer h).entries = b.entries ++ [buffer] := by
  have hlt : b.len < b.data.length := by rw [b.length_data]; exact h
  simp only [entries, push]
  rw [List.take_add_one, List.getElem?_set_self hlt, List.take_set_of_le le_rfl]
  rfl

theorem entries_reserve {newCap : ℕ} (h : b.len ≤ newCap) : (b.reserve newCap h).entries = b.entries := by
  have hlen : (b.data.take b.len).length = b.len := by
    rw [List.length_take, b.length_data, min_eq_left b.len_le]
  calc (b.reserve newCap h).entries
      = (b.data.take b.len ++ List.replicate (newCap - b.len) AimrtBuffer.null).take (b.data.take b.len).length := by
        rw [hlen]
        rfl
    _ = b.entries := List.take_left

/-- The entries are kept, whether the area is made larger or not. -/
theorem entries_record (b : AimrtBufferArray) (buffer : AimrtBuffer) :
    (b.record buffer).entries = b.entries ++ [buffer] := by
  unfold record
  split_ifs with h
  · exact entries_push h
  · have hreserve : (b.reserve b.newCapacity (b.len_lt_newCapacity h).le).entries = b.entries := entries_reserve _
    exact (entries_push (b.len_lt_newCapacity h)).trans (congrArg (· ++ [buffer]) hreserve)

end AimrtBufferArray

/-! ### The allocator -/

namespace FlatBufferArrayAllocator

/-- `Allocate`, with 64-bit addresses. -/
def allocateBuffer (a : FlatBufferArrayAllocator) (bufferArray : AimrtBufferArray) (size : ℕ) :
    AimrtBuffer × FlatBufferArrayAllocator × AimrtBufferArray :=
  if a.outOfMemory then (.null, a, bufferArray)
  else if a.curPtr = 0 then (.null, { a with outOfMemory := true }, bufferArray)
  else
    let lastPtr := a.curPtr
    let a := { a with curPtr := (a.curPtr + size) % 2 ^ 64 }
    if a.curPtr > a.endPtr then (.null, { a with outOfMemory := true }, bufferArray)
    else (⟨lastPtr, size⟩, a, bufferArray.record ⟨lastPtr, size⟩)

/-- One request after the other: what they return, and the allocator and the array behind them. -/
def allocateAll (a : FlatBufferArrayAllocator) (bufferArray : AimrtBufferArray) :
    List ℕ → List AimrtBuffer × FlatBufferArrayAllocator × AimrtBufferArray
  | [] => ([], a, bufferArray)
  | size :: sizes =>
    let (buffer, a, bufferArray) := a.allocateBuffer bufferArray size
    let (buffers, a, bufferArray) := a.allocateAll bufferArray sizes
    (buffer :: buffers, a, bufferArray)

variable {a : FlatBufferArrayAllocator} {bufferArray : AimrtBufferArray} {size : ℕ}

/-- Where no address wraps round, it is the allocator of places in a block. -/
theorem allocateBuffer_eq (hcur : a.curPtr ≠ 0) (hwrap : a.curPtr + size < 2 ^ 64) :
    a.allocateBuffer bufferArray size =
      match a.allocate size with
      | (a', none) => (.null, a', bufferArray)
      | (a', some pos) => (⟨pos, size⟩, a', bufferArray.record ⟨pos, size⟩) := by
  unfold allocateBuffer allocate
  simp only [Nat.mod_eq_of_lt hwrap, if_neg hcur]
  split_ifs <;> rfl

/-- After a request that failed all fail, and change nothing. -/
theorem allocateBuffer_of_outOfMemory (h : a.outOfMemory = true) :
    a.allocateBuffer bufferArray size = (.null, a, bufferArray) := if_pos h

theorem allocateBuffer_of_fits (hmemory : a.outOfMemory = false) (hcur : a.curPtr ≠ 0)
    (hwrap : a.curPtr + size < 2 ^ 64) (hfits : a.curPtr + size ≤ a.endPtr) :
    a.allocateBuffer bufferArray size =
      (⟨a.curPtr, size⟩, { a with curPtr := a.curPtr + size }, bufferArray.record ⟨a.curPtr, size⟩) := by
  have hallocate : a.allocate size = ({ a with curPtr := a.curPtr + size }, some a.curPtr) := by
    rw [allocate, hmemory, if_neg Bool.false_ne_true]
    exact if_neg (Nat.not_lt.2 hfits)
  rw [allocateBuffer_eq hcur hwrap, hallocate]

theorem allocateBuffer_of_not_fits (hmemory : a.outOfMemory = false) (hcur : a.curPtr ≠ 0)
    (hwrap : a.curPtr + size < 2 ^ 64) (hfits : a.endPtr < a.curPtr + size) :
    a.allocateBuffer bufferArray size =
      (.null, { a with curPtr := a.curPtr + size, outOfMemory := true }, bufferArray) := by
  have hallocate : a.allocate size = ({ a with curPtr := a.curPtr + size, outOfMemory := true }, none) := by
    rw [allocate, hmemory, if_neg Bool.false_ne_true]
    exact if_pos hfits
  rw [allocateBuffer_eq hcur hwrap, hallocate]

theorem allocateAll_of_outOfMemory (h : a.outOfMemory = true) (sizes : List ℕ) :
    a.allocateAll bufferArray sizes = (sizes.map fun _ => .null, a, bufferArray) := by
  induction sizes with
  | nil => rfl
  | cons size sizes ih =>
    rw [allocateAll, allocateBuffer_of_outOfMemory h]
    dsimp only
    rw [ih, List.map_cons]

end FlatBufferArrayAllocator

/-! ### The layout -/

/-- A block of memory: an object that is somewhere in the address space. -/
structure MemoryBlock where
  ptr : ℕ
  size : ℕ
  ptr_pos : 0 < ptr
  end_lt : ptr + size < 2 ^ 64

/-- Buffers of some sizes, one directly behind the other. -/
def places (ptr : ℕ) : List ℕ → List AimrtBuffer
  | [] => []
  | size :: sizes => ⟨ptr, size⟩ :: places (ptr + size) sizes

/-- As long as the requests fit, none of them wraps round the address space. -/
def NotWrapping (curPtr endPtr : ℕ) : List ℕ → Prop
  | [] => True
  | size :: sizes => curPtr + size < 2 ^ 64 ∧ (curPtr + size ≤ endPtr → NotWrapping (curPtr + size) endPtr sizes)

/-- The buffers lie in the space that they need. -/
theorem mem_places {ptr : ℕ} {sizes : List ℕ} {b : AimrtBuffer} (h : b ∈ places ptr sizes) :
    ptr ≤ b.data ∧ b.data + b.len ≤ ptr + sizes.sum := by
  induction sizes generalizing ptr with
  | nil => exact absurd h List.not_mem_nil
  | cons size sizes ih =>
    rw [List.sum_cons]
    rcases List.mem_cons.1 h with rfl | hrest
    · dsimp only
      omega
    · have hle := ih hrest
      omega

theorem places_pairwise (ptr : ℕ) (sizes : List ℕ) :
    (places ptr sizes).Pairwise fun b b' => b.data + b.len ≤ b'.data := by
  induction sizes generalizing ptr with
  | nil => exact List.Pairwise.nil
  | cons size sizes ih => exact List.Pairwise.cons (fun b hb => (mem_places hb).1) (ih (ptr + size))

/-- **The layout** of what an allocator returns from a place on up to an end: some of the requests, from the first one
on, are served, and the rest is refused. -/
structure LaysOut (ptr endPtr : ℕ) (bufferArray : AimrtBufferArray) (served refused : List ℕ)
    (result : List AimrtBuffer × FlatBufferArrayAllocator × AimrtBufferArray) : Prop where
  /-- The buffers are consecutive, in the order of the requests. -/
  returned : result.1 = places ptr served ++ refused.map fun _ => .null
  disjoint : (places ptr served).Pairwise fun b b' => b.data + b.len ≤ b'.data
  inside : ∀ b ∈ places ptr served, ptr ≤ b.data ∧ b.data + b.len ≤ endPtr
  recorded : result.2.2.entries = bufferArray.entries ++ places ptr served
  outOfMemory_iff : result.2.1.outOfMemory = true ↔ refused ≠ []
  /-- The first request that is refused does not fit in what is left. -/
  not_fits : ∀ size ∈ refused.head?, endPtr < ptr + served.sum + size
  /-- After that every request fails, and the array stays as it is. -/
  stays : result.2.1.outOfMemory = true → ∀ size,
    result.2.1.allocateBuffer result.2.2 size = (.null, result.2.1, result.2.2)

theorem laysOut_nil {a : FlatBufferArrayAllocator} {ptr endPtr : ℕ} (hmemory : a.outOfMemory = false)
    (bufferArray : AimrtBufferArray) : LaysOut ptr endPtr bufferArray [] [] ([], a, bufferArray) where
  returned := rfl
  disjoint := List.Pairwise.nil
  inside _ hb := absurd hb List.not_mem_nil
  recorded := (List.append_nil _).symm
  outOfMemory_iff := by simp [hmemory]
  not_fits _ hsize := absurd hsize (Option.not_mem_none _)
  stays h _ := FlatBufferArrayAllocator.allocateBuffer_of_outOfMemory h

/-- The first request is served. -/
theorem LaysOut.cons {ptr endPtr size : ℕ} {bufferArray : AimrtBufferArray} {served refused : List ℕ}
    {result : List AimrtBuffer × FlatBufferArrayAllocator × AimrtBufferArray}
    (h : LaysOut (ptr + size) endPtr (bufferArray.record ⟨ptr, size⟩) served refused result)
    (hfits : ptr + size ≤ endPtr) :
    LaysOut ptr endPtr bufferArray (size :: served) refused (⟨ptr, size⟩ :: result.1, result.2) where
  returned := congrArg _ h.returned
  disjoint := places_pairwise ptr (size :: served)
  inside b hb := by
    rcases List.mem_cons.1 hb with rfl | hrest
    · exact ⟨le_rfl, hfits⟩
    · have hinside := h.inside b hrest
      omega
  recorded := by rw [h.recorded, AimrtBufferArray.entries_record, List.append_assoc]; rfl
  outOfMemory_iff := h.outOfMemory_iff
  not_fits size' hsize' := by
    have hnot := h.not_fits size' hsize'
    rw [List.sum_cons]
    omega
  stays := h.stays

/-- The first request is refused, and with it all others. -/
theorem laysOut_refused {a : FlatBufferArrayAllocator} {ptr endPtr size : ℕ} {bufferArray : AimrtBufferArray}
    (hmemory : a.outOfMemory = true) (hnot : endPtr < ptr + size) (sizes : List ℕ) :
    LaysOut ptr endPtr bufferArray [] (size :: sizes)
      ((size :: sizes).map fun _ => .null, a, bufferArray) where
  returned := rfl
  disjoint := List.Pairwise.nil
  inside _ hb := absurd hb List.not_mem_nil
  recorded := (List.append_nil _).symm
  outOfMemory_iff := by simp [hmemory]
  not_fits size' hsize' := by
    obtain rfl := Option.some.inj hsize'
    exact hnot
  stays h _ := FlatBufferArrayAllocator.allocateBuffer_of_outOfMemory h

namespace FlatBufferArrayAllocator

/-- The induction over the requests, from a cursor that is not behind the end. -/
theorem exists_laysOut {a : FlatBufferArrayAllocator} {bufferArray : AimrtBufferArray} {sizes : List ℕ}
    (hmemory : a.outOfMemory = false) (hcur : a.curPtr ≠ 0) (h : NotWrapping a.curPtr a.endPtr sizes) :
    ∃ served refused, sizes = served ++ refused ∧
      LaysOut a.curPtr a.endPtr bufferArray served refused (a.allocateAll bufferArray sizes) := by
  induction sizes generalizing a bufferArray with
  | nil => exact ⟨[], [], rfl, laysOut_nil hmemory bufferArray⟩
  | cons size sizes ih =>
    obtain ⟨hwrap, hrest⟩ := h
    rcases Nat.lt_or_ge a.endPtr (a.curPtr + size) with hlt | hfits
    · refine ⟨[], size :: sizes, rfl, ?_⟩
      rw [allocateAll, allocateBuffer_of_not_fits hmemory hcur hwrap hlt]
      dsimp only
      rw [allocateAll_of_outOfMemory rfl]
      exact laysOut_refused rfl hlt sizes
    · rw [allocateAll, allocateBuffer_of_fits hmemory hcur hwrap hfits]
      obtain ⟨served, refused, rfl, hlays⟩ :=
        @ih { a with curPtr := a.curPtr + size } (bufferArray.record ⟨a.curPtr, size⟩) hmemory
          (fun hzero => hcur (Nat.eq_zero_of_add_eq_zero_right hzero)) (hrest hfits)
      exact ⟨size :: served, refused, rfl, hlays.cons hfits⟩

/-- **The flat allocator** over a block: for every sequence of requests that do not wrap round the address space, the
buffers are laid out in the block, one behind the other, as long as they fit. -/
theorem allocateAll_laysOut (block : MemoryBlock) (bufferArray : AimrtBufferArray) {sizes : List ℕ}
    (h : NotWrapping block.ptr (block.ptr + block.size) sizes) :
    ∃ served refused, sizes = served ++ refused ∧
      LaysOut block.ptr (block.ptr + block.size) bufferArray served refused
        ((new block.ptr block.size).allocateAll bufferArray sizes) :=
  @exists_laysOut (new block.ptr block.size) bufferArray sizes rfl (Nat.pos_iff_ne_zero.1 block.ptr_pos) h

/-- A block of eight bytes, three requests that fill it, and one for which nothing is left. -/
theorem allocateAll_laysOut_eight :
    ∃ served refused, [3, 5, 0, 1] = served ++ refused ∧
      LaysOut 4096 4104 .empty served refused ((new 4096 8).allocateAll .empty [3, 5, 0, 1]) :=
  allocateAll_laysOut ⟨4096, 8, by decide, by decide⟩ .empty
    ⟨by decide, fun _ => ⟨by decide, fun _ => ⟨by decide, fun _ => ⟨by decide, fun _ => trivial⟩⟩⟩⟩

end FlatBufferArrayAllocator

end AimRT.Util
