import AimRT.Lib.Run
import AimRT.Util.BufferArray

/-!
# Zero-copy streams

Protobuf messages are serialized into the buffers of an array by `BufferArrayZeroCopyOutputStream`, and parsed from
them by `BufferArrayZeroCopyInputStream`.  `Next` gives the user of a stream a region of a buffer, and `BackUp` takes back
the end of the region that `Next` has given last.  The user fills a region before it goes on, calls `BackUp` only behind
`Next`, and does not go on behind a `Next` that has failed (`Writer.Allowed`, `Reader.Allowed`).

* `Writer.allHold_holds_iff`: what is in the buffers is what was written, at all times, exactly if no new buffer is asked
  for behind the first `2 ^ 31 - 1024` bytes, where the size of the buffer is no `int`;
* `Reader.allHold_correct_iff`: the input stream gives the bytes of the buffers in their order, exactly if no `Next` is to
  give the end of the last buffer once more, and no `Skip` is called at the end with no more bytes than the stream
  takes to be left.
-/

namespace AimRT.Util.ZeroCopy

open AimRT.Lib

/-! ### The output stream -/

/-- A `size_t` as an `int`. -/
def toInt (n : ℤ) : ℤ := n.bmod (2 ^ 32)

theorem toInt_of_lt {n : ℕ} (h : n < 2 ^ 31) : toInt n = n := by
  rw [toInt, Int.bmod_eq_of_le] <;> omega

/-- `BufferArrayZeroCopyOutputStream` with the buffers of its array. -/
structure OutputStream where
  bufferArray : List Bytes
  curBlockSize : ℕ
  curBufUsedSize : ℕ
  byteCount : ℤ
  deriving DecidableEq, Repr

def kInitBlockSize : ℕ := 1024

namespace OutputStream

def init : OutputStream := ⟨[], kInitBlockSize / 2, kInitBlockSize / 2, 0⟩

/-- `Next`: the place in the last buffer and the size of the region.  What is in a new buffer does not matter. -/
def next (s : OutputStream) (allocated : Bool) : OutputStream × Option (ℕ × ℤ) :=
  if s.curBufUsedSize = s.curBlockSize then
    let size := s.curBlockSize * 2
    if allocated then
      (⟨s.bufferArray ++ [List.replicate size 0], size, size, s.byteCount + toInt size⟩, some (0, toInt size))
    else ({ s with curBlockSize := size }, none)
  else
    let size := toInt ↑(s.curBlockSize - s.curBufUsedSize)
    ({ s with curBufUsedSize := s.curBlockSize, byteCount := s.byteCount + size }, some (s.curBufUsedSize, size))

def backUp (s : OutputStream) (count : ℕ) : OutputStream :=
  { s with curBufUsedSize := s.curBufUsedSize - count, byteCount := s.byteCount - count }

/-- `CommitLastBuf`: the buffers that are given away. -/
def commitLastBuf (s : OutputStream) : List Bytes :=
  match s.bufferArray.getLast? with
  | some last => s.bufferArray.dropLast ++ [last.take s.curBufUsedSize]
  | none => []

end OutputStream

/-- The user of an output stream. -/
structure Writer where
  stream : OutputStream
  /-- What the user has written. -/
  written : Bytes
  /-- The size of the region that `Next` has given, until another call. -/
  lastSize : Option ℕ
  /-- `Next` has failed. -/
  failed : Bool
  /-- The user has written outside the last buffer. -/
  fault : Bool
  deriving DecidableEq, Repr

namespace Writer

/-- `Next`, whether the allocator has memory, and what the user fills the region with. -/
inductive Op where
  | next (allocated : Bool) (fill : ℕ → UInt8)
  | backUp (count : ℕ)

def init : Writer := ⟨OutputStream.init, [], none, false, false⟩

/-- The user writes into the last buffer. -/
def fillRegion (w : Writer) (offset : ℕ) (bytes : Bytes) : Writer :=
  match w.stream.bufferArray.getLast?.bind fun last => memcpy last offset bytes with
  | some last =>
    { w with
      stream := { w.stream with bufferArray := w.stream.bufferArray.dropLast ++ [last] }
      written := w.written ++ bytes
      lastSize := some bytes.length }
  | none => { w with fault := true }

def step (w : Writer) : Op → Writer
  | .next allocated fill =>
    match w.stream.next allocated with
    | (stream, some (offset, size)) =>
      { w with stream := stream }.fillRegion offset ((List.range size.toNat).map fill)
    | (stream, none) => { w with stream := stream, lastSize := none, failed := true }
  | .backUp count =>
    { w with
      stream := w.stream.backUp count
      written := w.written.take (w.written.length - count)
      lastSize := none }

/-- What the user of a stream has to keep to. -/
def Allowed (w : Writer) : Op → Prop
  | .next _ _ => w.failed = false
  | .backUp count => ∃ n ∈ w.lastSize, count ≤ n

/-- A buffer that is asked for has a size that is an `int`. -/
def Meets (w : Writer) : Op → Prop
  | .next allocated _ => allocated → w.written.length < 2 ^ 31 - kInitBlockSize
  | .backUp _ => True

/-- The stream has what was written. -/
structure Holds (w : Writer) : Prop where
  contents : w.stream.commitLastBuf.flatten = w.written
  byteCount : w.stream.byteCount = w.written.length
  fault : w.fault = false

/-- The blocks double, and the last buffer is one of the size of the block. -/
structure Normal (w : Writer) : Prop where
  blocks : w.written.length + kInitBlockSize = w.stream.curBlockSize + w.stream.curBufUsedSize
  used_le : w.stream.curBufUsedSize ≤ w.stream.curBlockSize
  lastBuf : (w.stream.bufferArray = [] ∧ w.stream.curBufUsedSize = w.stream.curBlockSize) ∨
    ∃ full last, w.stream.bufferArray = full ++ [last] ∧ last.length = w.stream.curBlockSize
  lastSize : ∀ n ∈ w.lastSize, n ≤ w.stream.curBufUsedSize ∧ w.stream.bufferArray ≠ []
  doubled : ∃ k ≤ 21, w.stream.curBlockSize = 2 ^ (9 + k)

structure Inv (w : Writer) : Prop where
  holds : Holds w
  normal : w.failed = false → Normal w
  lastSize : w.failed = true → w.lastSize = none

section Steps

variable {w : Writer} {full : List Bytes} {last : Bytes}

theorem inv_init : Inv init :=
  ⟨⟨rfl, rfl, rfl⟩, fun _ => ⟨rfl, le_rfl, .inl ⟨rfl, rfl⟩, (fun _ h => by cases h), 0, by decide, rfl⟩, fun h => by cases h⟩

theorem commitLastBuf_concat {s : OutputStream} (h : s.bufferArray = full ++ [last]) :
    s.commitLastBuf = full ++ [last.take s.curBufUsedSize] := by
  rw [OutputStream.commitLastBuf, h, List.getLast?_concat, List.dropLast_concat]

theorem fillRegion_concat (h : w.stream.bufferArray = full ++ [last]) {offset : ℕ} {bytes : Bytes}
    (hin : offset + bytes.length ≤ last.length) :
    w.fillRegion offset bytes =
      { w with
        stream := { w.stream with bufferArray := full ++ [overwrite last offset bytes] }
        written := w.written ++ bytes
        lastSize := some bytes.length } := by
  rw [fillRegion, h, List.getLast?_concat, List.dropLast_concat, Option.bind_some, memcpy_eq_some hin]

theorem overwrite_end {offset : ℕ} {bytes : Bytes} (h : offset + bytes.length = last.length) :
    overwrite last offset bytes = last.take offset ++ bytes := by
  show last.take offset ++ bytes ++ last.drop (offset + bytes.length) = _
  rw [h, List.drop_length, List.append_nil]

theorem length_fill (fill : ℕ → UInt8) (n : ℕ) : ((List.range n).map fill).length = n := by
  rw [List.length_map, List.length_range]

theorem Normal.small (h : Normal w) : w.stream.curBlockSize ≤ 2 ^ 30 := by
  obtain ⟨k, hk, heq⟩ := h.doubled
  rw [heq]
  exact Nat.pow_le_pow_right (by decide) (by omega)

/-- All that the buffers hold is written when the last one is full. -/
theorem Normal.contents_of_full (h : Normal w) (hend : w.stream.curBufUsedSize = w.stream.curBlockSize) :
    w.stream.commitLastBuf.flatten = w.stream.bufferArray.flatten := by
  rcases h.lastBuf with ⟨hnil, -⟩ | ⟨full, last, hconcat, hlength⟩
  · rw [OutputStream.commitLastBuf, hnil]
    rfl
  · rw [commitLastBuf_concat hconcat, hconcat, hend, ← hlength, List.take_length]

/-- `Next` with a new buffer. -/
theorem Inv.next_new (h : Inv w) (hfailed : w.failed = false) (hend : w.stream.curBufUsedSize = w.stream.curBlockSize)
    (fill : ℕ → UInt8) (hmeets : w.written.length < 2 ^ 31 - kInitBlockSize) :
    Inv (w.step (.next true fill)) := by
  have hnormal := h.normal hfailed
  have hblocks := hnormal.blocks
  rw [hend, kInitBlockSize] at hblocks
  rw [kInitBlockSize] at hmeets
  have hsmall : w.stream.curBlockSize * 2 < 2 ^ 31 := by omega
  have hdoubled : ∃ k ≤ 21, w.stream.curBlockSize * 2 = 2 ^ (9 + k) := by
    obtain ⟨k, -, heq⟩ := hnormal.doubled
    rw [heq, ← Nat.pow_succ] at hsmall
    have hlt := (Nat.pow_lt_pow_iff_right (by decide : 1 < 2)).1 hsmall
    exact ⟨k + 1, by omega, by rw [heq, ← Nat.pow_succ]; rfl⟩
  have hlength := length_fill fill (w.stream.curBlockSize * 2)
  have hstep : w.step (.next true fill) =
      { w with
        stream := ⟨w.stream.bufferArray ++ [(List.range (w.stream.curBlockSize * 2)).map fill],
          w.stream.curBlockSize * 2, w.stream.curBlockSize * 2, w.stream.byteCount + ↑(w.stream.curBlockSize * 2)⟩
        written := w.written ++ (List.range (w.stream.curBlockSize * 2)).map fill
        lastSize := some (w.stream.curBlockSize * 2) } := by
    simp only [step, OutputStream.next, hend, if_true, toInt_of_lt hsmall, Int.toNat_natCast]
    rw [fillRegion_concat rfl (by rw [hlength, List.length_replicate, Nat.zero_add]),
      overwrite_end (by rw [hlength, List.length_replicate, Nat.zero_add]), List.take_zero, List.nil_append, hlength]
  rw [hstep]
  refine ⟨⟨?_, ?_, h.holds.fault⟩, fun _ => ⟨?_, le_rfl, .inr ⟨_, _, rfl, hlength⟩, ?_, hdoubled⟩, fun hf => ?_⟩
  · rw [commitLastBuf_concat rfl, List.take_of_length_le hlength.le, List.flatten_append, List.flatten_singleton,
      ← hnormal.contents_of_full hend, h.holds.contents]
  · show w.stream.byteCount + ↑(w.stream.curBlockSize * 2) = _
    rw [h.holds.byteCount, List.length_append, hlength, Nat.cast_add]
  · show (w.written ++ _).length + kInitBlockSize = w.stream.curBlockSize * 2 + w.stream.curBlockSize * 2
    rw [List.length_append, hlength, kInitBlockSize]
    omega
  · rintro n hn
    obtain rfl := Option.some.inj hn
    exact ⟨le_rfl, List.append_ne_nil_of_right_ne_nil _ (List.cons_ne_nil _ _)⟩
  · rw [hfailed] at hf
    cases hf

/-- `Next` with what is left of the last buffer. -/
theorem Inv.next_rest (h : Inv w) (hfailed : w.failed = false) (hend : w.stream.curBufUsedSize ≠ w.stream.curBlockSize)
    (allocated : Bool) (fill : ℕ → UInt8) : Inv (w.step (.next allocated fill)) := by
  have hnormal := h.normal hfailed
  have hblocks := hnormal.blocks
  have hle := hnormal.used_le
  have hsmall := hnormal.small
  obtain ⟨full, last, hconcat, hlast⟩ := hnormal.lastBuf.resolve_left fun hnil => hend hnil.2
  have hsize : w.stream.curBlockSize - w.stream.curBufUsedSize < 2 ^ 31 := by omega
  have hlength := length_fill fill (w.stream.curBlockSize - w.stream.curBufUsedSize)
  have hin : w.stream.curBufUsedSize +
      ((List.range (w.stream.curBlockSize - w.stream.curBufUsedSize)).map fill).length = last.length := by
    rw [hlength, hlast]
    omega
  have hstep : w.step (.next allocated fill) =
      { w with
        stream := ⟨full ++ [last.take w.stream.curBufUsedSize ++
            (List.range (w.stream.curBlockSize - w.stream.curBufUsedSize)).map fill],
          w.stream.curBlockSize, w.stream.curBlockSize,
          w.stream.byteCount + ↑(w.stream.curBlockSize - w.stream.curBufUsedSize)⟩
        written := w.written ++ (List.range (w.stream.curBlockSize - w.stream.curBufUsedSize)).map fill
        lastSize := some (w.stream.curBlockSize - w.stream.curBufUsedSize) } := by
    simp only [step, OutputStream.next, hend, if_false, toInt_of_lt hsize, Int.toNat_natCast]
    rw [fillRegion_concat (w := { w with stream := { w.stream with
      curBufUsedSize := w.stream.curBlockSize
      byteCount := w.stream.byteCount + ↑(w.stream.curBlockSize - w.stream.curBufUsedSize) } }) hconcat hin.le,
      overwrite_end hin, hlength]
  have hnew : (last.take w.stream.curBufUsedSize ++
      (List.range (w.stream.curBlockSize - w.stream.curBufUsedSize)).map fill).length = w.stream.curBlockSize := by
    rw [← overwrite_end hin, overwrite_length hin.le, hlast]
  have hcontents := h.holds.contents
  rw [commitLastBuf_concat hconcat, List.flatten_append, List.flatten_singleton] at hcontents
  rw [hstep]
  refine ⟨⟨?_, ?_, h.holds.fault⟩, fun _ => ⟨?_, le_rfl, .inr ⟨_, _, rfl, hnew⟩, ?_, hnormal.doubled⟩, fun hf => ?_⟩
  · rw [commitLastBuf_concat rfl, List.take_of_length_le hnew.le, List.flatten_append, List.flatten_singleton,
      ← List.append_assoc, hcontents]
  · show w.stream.byteCount + ↑(w.stream.curBlockSize - w.stream.curBufUsedSize) = _
    rw [h.holds.byteCount, List.length_append, hlength, Nat.cast_add]
  · show (w.written ++ _).length + kInitBlockSize = w.stream.curBlockSize + w.stream.curBlockSize
    rw [List.length_append, hlength]
    omega
  · rintro n hn
    obtain rfl := Option.some.inj hn
    exact ⟨Nat.sub_le _ _, List.append_ne_nil_of_right_ne_nil _ (List.cons_ne_nil _ _)⟩
  · rw [hfailed] at hf
    cases hf

/-- The allocator has no memory. -/
theorem Inv.next_failed (h : Inv w) (hend : w.stream.curBufUsedSize = w.stream.curBlockSize) (fill : ℕ → UInt8) :
    Inv (w.step (.next false fill)) := by
  have hstep : w.step (.next false fill) =
      { w with
        stream := { w.stream with curBlockSize := w.stream.curBlockSize * 2 }
        lastSize := none
        failed := true } := by
    simp only [step, OutputStream.next, hend, if_true, Bool.false_eq_true, if_false]
  rw [hstep]
  exact ⟨⟨h.holds.contents, h.holds.byteCount, h.holds.fault⟩, (fun hf => by cases hf), fun _ => rfl⟩

theorem Inv.backUp (h : Inv w) {count : ℕ} (hallowed : w.Allowed (.backUp count)) : Inv (w.step (.backUp count)) := by
  obtain ⟨n, hn, hcount⟩ := hallowed
  have hfailed : w.failed = false := by
    cases hf : w.failed with
    | false => rfl
    | true =>
      rw [h.lastSize hf] at hn
      cases hn
  have hnormal := h.normal hfailed
  obtain ⟨hused, hne⟩ := hnormal.lastSize n hn
  have hblocks := hnormal.blocks
  have hle := hnormal.used_le
  obtain ⟨full, last, hconcat, hlast⟩ := hnormal.lastBuf.resolve_left fun hnil => hne hnil.1
  have hcontents := h.holds.contents
  rw [commitLastBuf_concat hconcat, List.flatten_append, List.flatten_singleton] at hcontents
  have hlen : w.written.length = full.flatten.length + w.stream.curBufUsedSize := by
    rw [← hcontents, List.length_append, List.length_take, hlast, min_eq_left hle]
  have hwritten : w.written.take (w.written.length - count) =
      full.flatten ++ last.take (w.stream.curBufUsedSize - count) := by
    rw [← hcontents, List.take_append, hcontents, hlen, List.take_of_length_le (by omega), List.take_take]
    congr 2
    omega
  refine ⟨⟨?_, ?_, h.holds.fault⟩, fun _ => ⟨?_, ?_, .inr ⟨full, last, hconcat, hlast⟩, nofun, hnormal.doubled⟩, fun _ => rfl⟩
  · show (w.stream.backUp count).commitLastBuf.flatten = w.written.take (w.written.length - count)
    rw [hwritten, commitLastBuf_concat (s := w.stream.backUp count) hconcat, List.flatten_append, List.flatten_singleton]
    rfl
  · show w.stream.byteCount - count = ((w.written.take (w.written.length - count)).length : ℤ)
    rw [h.holds.byteCount, List.length_take]
    omega
  · show (w.written.take (w.written.length - count)).length + kInitBlockSize =
      w.stream.curBlockSize + (w.stream.curBufUsedSize - count)
    rw [List.length_take]
    omega
  · exact (Nat.sub_le _ _).trans hle

theorem Inv.step (h : Inv w) {op : Op} (hallowed : w.Allowed op) (hmeets : w.Meets op) : Inv (w.step op) := by
  cases op with
  | next allocated fill =>
    have hfailed : w.failed = false := hallowed
    by_cases hend : w.stream.curBufUsedSize = w.stream.curBlockSize
    · cases allocated with
      | true => exact h.next_new hfailed hend fill (hmeets rfl)
      | false => exact h.next_failed hend fill
    · exact h.next_rest hfailed hend allocated fill
  | backUp count => exact h.backUp hallowed

/-- The size of a buffer that is too large is negative, and the stream counts it. -/
theorem Inv.meets_of_holds (h : Inv w) {op : Op} (hallowed : w.Allowed op) (hholds : Holds (w.step op)) :
    w.Meets op := by
  cases op with
  | backUp count => trivial
  | next allocated fill =>
    have hnormal := h.normal hallowed
    have hblocks := hnormal.blocks
    have hle := hnormal.used_le
    have hsmall := hnormal.small
    by_contra hnot
    obtain ⟨rfl, hlarge⟩ := Classical.not_imp.1 hnot
    rw [kInitBlockSize] at hblocks hlarge
    have hend : w.stream.curBufUsedSize = w.stream.curBlockSize := by omega
    have hneg : toInt ↑(w.stream.curBlockSize * 2) = ↑(w.stream.curBlockSize * 2) - 2 ^ 32 := by
      rw [toInt, Int.bmod_def]
      omega
    have hzero : (toInt ↑(w.stream.curBlockSize * 2)).toNat = 0 := by
      rw [hneg]
      omega
    have hcount := hholds.byteCount
    simp only [Writer.step, OutputStream.next, hend, if_true, hzero, List.range_zero, List.map_nil] at hcount
    rw [fillRegion_concat rfl (Nat.zero_le _)] at hcount
    have hsum : w.stream.byteCount + toInt ↑(w.stream.curBlockSize * 2) = ((w.written ++ []).length : ℤ) := hcount
    rw [List.append_nil, h.holds.byteCount, hneg] at hsum
    omega

end Steps

/-- **What is written is in the buffers**, and counted, at all times, exactly if no new buffer is asked for when there are
`2 ^ 31 - 1024` bytes or more. -/
theorem allHold_holds_iff {ops : List Op} (hallowed : Run.AllMeet step Allowed init ops) :
    Run.AllHold step Holds init ops ↔ Run.AllMeet step Meets init ops := by
  have hstep : ∀ {w : Writer}, Inv w → ∀ {op}, w.Allowed op → w.Meets op → Inv (w.step op) := fun h _ => h.step
  exact Run.allHold_iff_allMeet_of Inv Inv.holds hstep (fun h _ => h.meets_of_holds) inv_init hallowed

/-- Some bytes into the first buffer, the rest of it taken back, and then what is left of it. -/
theorem allHold_holds_of_backUp :
    Run.AllHold step Holds init [.next true fun _ => 7, .backUp 1000, .next true fun _ => 8] := by
  have hallowed : Run.AllMeet step Allowed init [.next true fun _ => 7, .backUp 1000, .next true fun _ => 8] :=
    ⟨rfl, ⟨1024, (by decide +kernel : (init.step (.next true fun _ => 7)).lastSize = some 1024), by decide⟩,
      (by decide +kernel : ((init.step (.next true fun _ => 7)).step (.backUp 1000)).failed = false), trivial⟩
  exact (allHold_holds_iff hallowed).2 ⟨fun _ => by decide, trivial, fun _ => by decide +kernel, trivial⟩

end Writer

/-! ### The input stream -/

/-- `BufferArrayZeroCopyInputStream`. -/
structure InputStream where
  bufferArrayView : List Bytes
  curBufUnusedSize : ℕ
  curBufIndex : ℕ
  byteCount : ℤ
  deriving DecidableEq, Repr

namespace InputStream

def init (bufferArrayView : List Bytes) : InputStream := ⟨bufferArrayView, 0, 0, 0⟩

/-- The buffer in front of `curBufIndex`. -/
def curBuffer (s : InputStream) : Bytes := s.bufferArrayView.getD (s.curBufIndex - 1) []

/-- `Next`: the number of a buffer, the place in it and the size of the region. -/
def next (s : InputStream) : InputStream × Option (ℕ × ℕ × ℤ) :=
  match s.bufferArrayView[s.curBufIndex]? with
  | none => (s, none)
  | some buffer =>
    if s.curBufUnusedSize = 0 then
      ({ s with curBufIndex := s.curBufIndex + 1, byteCount := s.byteCount + toInt buffer.length },
        some (s.curBufIndex, 0, toInt buffer.length))
    else
      ({ s with curBufUnusedSize := 0, byteCount := s.byteCount + toInt s.curBufUnusedSize },
        some (s.curBufIndex - 1, s.curBuffer.length - s.curBufUnusedSize, toInt s.curBufUnusedSize))

def backUp (s : InputStream) (count : ℕ) : InputStream :=
  { s with curBufUnusedSize := s.curBufUnusedSize + count, byteCount := s.byteCount - count }

/-- The loop of `Skip`, with the buffers from `curBufIndex` on. -/
def skipLoop (s : InputStream) (count : ℤ) (buffers : List Bytes) : InputStream × Bool :=
  if count < toInt s.curBufUnusedSize then ({ s with curBufUnusedSize := s.curBufUnusedSize - count.toNat }, true)
  else
    let count := toInt (count - s.curBufUnusedSize)
    match buffers with
    | buffer :: buffers =>
      { s with curBufUnusedSize := buffer.length, curBufIndex := s.curBufIndex + 1 }.skipLoop count buffers
    | [] => (s, decide (count = 0))

theorem skipLoop_nil (s : InputStream) (count : ℤ) :
    s.skipLoop count [] =
      if count < toInt s.curBufUnusedSize then ({ s with curBufUnusedSize := s.curBufUnusedSize - count.toNat }, true)
      else (s, decide (toInt (count - s.curBufUnusedSize) = 0)) := rfl

theorem skipLoop_cons (s : InputStream) (count : ℤ) (buffer : Bytes) (buffers : List Bytes) :
    s.skipLoop count (buffer :: buffers) =
      if count < toInt s.curBufUnusedSize then ({ s with curBufUnusedSize := s.curBufUnusedSize - count.toNat }, true)
      else { s with curBufUnusedSize := buffer.length, curBufIndex := s.curBufIndex + 1 }.skipLoop
        (toInt (count - s.curBufUnusedSize)) buffers := rfl

def skip (s : InputStream) (count : ℕ) : InputStream × Bool :=
  { s with byteCount := s.byteCount + count }.skipLoop count (s.bufferArrayView.drop s.curBufIndex)

end InputStream

/-- The user of an input stream. -/
structure Reader where
  stream : InputStream
  /-- What the user is still to get. -/
  rest : Bytes
  /-- The region that `Next` has given, until another call. -/
  lastChunk : Option Bytes
  /-- The stream has given something else, or has come to its end too early or too late. -/
  wrong : Bool
  deriving DecidableEq, Repr

namespace Reader

inductive Op where
  | next
  | backUp (count : ℕ)
  | skip (count : ℕ)
  deriving DecidableEq, Repr

def init (bufferArrayView : List Bytes) : Reader :=
  ⟨InputStream.init bufferArrayView, bufferArrayView.flatten, none, false⟩

/-- The bytes of a region; no value where it is not inside a buffer. -/
def region (bufferArrayView : List Bytes) (i offset : ℕ) (size : ℤ) : Option Bytes :=
  bufferArrayView[i]?.bind fun buffer =>
    if offset + size.toNat ≤ buffer.length then some ((buffer.drop offset).take size.toNat) else none

def step (r : Reader) : Op → Reader
  | .next =>
    match r.stream.next with
    | (stream, some (i, offset, size)) =>
      match region r.stream.bufferArrayView i offset size with
      | some chunk =>
        { stream := stream
          rest := r.rest.drop chunk.length
          lastChunk := some chunk
          wrong := r.wrong || !chunk.isPrefixOf r.rest }
      | none => { r with stream := stream, lastChunk := none, wrong := true }
    | (stream, none) => { r with stream := stream, lastChunk := none, wrong := r.wrong || !r.rest.isEmpty }
  | .backUp count =>
    { r with
      stream := r.stream.backUp count
      rest := (r.lastChunk.map fun chunk => chunk.drop (chunk.length - count)).getD [] ++ r.rest
      lastChunk := none }
  | .skip count =>
    let (stream, skipped) := r.stream.skip count
    { stream := stream
      rest := r.rest.drop count
      lastChunk := none
      wrong := r.wrong || skipped != decide (count ≤ r.rest.length) }

/-- What the user of a stream has to keep to. -/
def Allowed (r : Reader) : Op → Prop
  | .next => True
  | .backUp count => ∃ chunk ∈ r.lastChunk, count ≤ chunk.length
  | .skip count => count < 2 ^ 31

/-- No bytes of the last buffer are given back and asked for again, and what the stream takes to be left at the end is not
skipped. -/
def Meets (r : Reader) : Op → Prop
  | .next => r.stream.curBufIndex < r.stream.bufferArrayView.length ∨ r.rest = []
  | .backUp _ => True
  | .skip count => ¬ (r.rest = [] ∧ 0 < count ∧ count ≤ r.stream.curBufUnusedSize)

instance (r : Reader) : DecidablePred r.Meets
  | .next => inferInstanceAs (Decidable (_ ∨ _))
  | .backUp _ => isTrue trivial
  | .skip _ => inferInstanceAs (Decidable (¬ _))

def Correct (r : Reader) : Prop := r.wrong = false

/-! ### What is left -/

section Steps

variable {s s' : InputStream} {rest : Bytes}

/-- The end of the current buffer is left, and the buffers behind it. -/
structure Live (s : InputStream) (rest tail : Bytes) : Prop where
  rest_eq : rest = tail ++ (s.bufferArrayView.drop s.curBufIndex).flatten
  length_tail : tail.length = s.curBufUnusedSize
  suffix : tail <:+ s.curBuffer
  index_pos : tail ≠ [] → 0 < s.curBufIndex
  index_le : s.curBufIndex ≤ s.bufferArrayView.length

/-- Nothing is left, but the size of a region may be. -/
structure Ended (s : InputStream) (rest : Bytes) : Prop where
  rest_eq : rest = []
  index_eq : s.curBufIndex = s.bufferArrayView.length
  small : s.curBufUnusedSize < 2 ^ 31

/-- All buffers have sizes that are an `int`. -/
def Small (view : List Bytes) : Prop := ∀ buffer ∈ view, buffer.length < 2 ^ 31

theorem curBuffer_eq {buffer : Bytes} {view : List Bytes} {unused i : ℕ} {count : ℤ} (h : view[i]? = some buffer) :
    (⟨view, unused, i + 1, count⟩ : InputStream).curBuffer = buffer := by
  show view.getD i [] = buffer
  rw [List.getD_eq_getElem?_getD, h, Option.getD_some]

theorem length_curBuffer_lt (hsmall : Small s.bufferArrayView) : s.curBuffer.length < 2 ^ 31 := by
  unfold InputStream.curBuffer
  rw [List.getD_eq_getElem?_getD]
  cases hi : s.bufferArrayView[s.curBufIndex - 1]? with
  | none => decide
  | some buffer => exact hsmall buffer (List.mem_of_getElem? hi)

theorem Live.unused_lt {tail : Bytes} (h : Live s rest tail) (hsmall : Small s.bufferArrayView) :
    s.curBufUnusedSize < 2 ^ 31 := by
  rw [← h.length_tail]
  exact h.suffix.length_le.trans_lt (length_curBuffer_lt hsmall)

theorem flatten_drop_eq {buffer : Bytes} {view : List Bytes} {i : ℕ} (h : view[i]? = some buffer) :
    (view.drop i).flatten = buffer ++ (view.drop (i + 1)).flatten := by
  obtain ⟨hi, hbuffer⟩ := List.getElem?_eq_some_iff.1 h
  rw [List.drop_eq_getElem_cons hi, hbuffer, List.flatten_cons]

theorem getElem?_of_drop_eq {buffer : Bytes} {view buffers : List Bytes} {i : ℕ} (h : view.drop i = buffer :: buffers) :
    view[i]? = some buffer ∧ view.drop (i + 1) = buffers := by
  constructor
  · rw [← List.head?_drop, h, List.head?_cons]
  · rw [← List.drop_drop, h, List.drop_one, List.tail_cons]

theorem Live.count_le {tail : Bytes} (h : Live s rest tail) {count : ℕ} (hcount : count ≤ s.curBufUnusedSize) :
    count ≤ rest.length := by
  rw [h.rest_eq, List.length_append, h.length_tail]
  omega

theorem Live.drop {tail : Bytes} (h : Live s rest tail) {count : ℕ} (hcount : count ≤ s.curBufUnusedSize) :
    Live { s with curBufUnusedSize := s.curBufUnusedSize - count } (rest.drop count) (tail.drop count) := by
  have hle : count ≤ tail.length := h.length_tail.symm ▸ hcount
  refine ⟨?_, ?_, (List.drop_suffix _ _).trans h.suffix, fun hne => h.index_pos fun hnil => hne ?_, h.index_le⟩
  · rw [h.rest_eq, List.drop_append_of_le_length hle]
  · rw [List.length_drop, h.length_tail]
  · rw [hnil, List.drop_nil]

theorem toInt_sub {count unused : ℕ} (hcount : count < 2 ^ 31) (hle : unused ≤ count) :
    toInt ((count : ℤ) - unused) = ↑(count - unused) := by
  rw [← Nat.cast_sub hle]
  exact toInt_of_lt (by omega)

/-- `Skip` takes what it is told, or all that is left. -/
theorem skipLoop_spec (hsmall : Small s.bufferArrayView) {count : ℕ} (hcount : count < 2 ^ 31) {tail : Bytes}
    (h : Live s rest tail) {buffers : List Bytes} (hbuffers : s.bufferArrayView.drop s.curBufIndex = buffers) :
    (s.skipLoop count buffers).2 = decide (count ≤ rest.length) ∧
      (s.skipLoop count buffers).1.bufferArrayView = s.bufferArrayView ∧
      ((∃ tail', Live (s.skipLoop count buffers).1 (rest.drop count) tail') ∨
        Ended (s.skipLoop count buffers).1 (rest.drop count)) := by
  induction buffers generalizing s count rest tail with
  | nil =>
    have hrest : rest = tail := by rw [h.rest_eq, hbuffers, List.flatten_nil, List.append_nil]
    rw [InputStream.skipLoop_nil, toInt_of_lt (h.unused_lt hsmall)]
    by_cases hlt : count < s.curBufUnusedSize
    · rw [if_pos (Nat.cast_lt.2 hlt), Int.toNat_natCast]
      exact ⟨(decide_eq_true (h.count_le hlt.le)).symm, rfl, .inl ⟨_, h.drop hlt.le⟩⟩
    · rw [if_neg fun hneg => hlt (Nat.cast_lt.1 hneg)]
      rw [toInt_sub hcount (not_lt.1 hlt)]
      refine ⟨decide_eq_decide.2 ?_, rfl, .inr ⟨?_, le_antisymm h.index_le ?_, h.unused_lt hsmall⟩⟩
      · rw [hrest, h.length_tail]
        omega
      · rw [hrest]
        exact List.drop_eq_nil_of_le (h.length_tail.trans_le (not_lt.1 hlt))
      · exact List.drop_eq_nil_iff.1 hbuffers
  | cons buffer buffers ih =>
    rw [InputStream.skipLoop_cons, toInt_of_lt (h.unused_lt hsmall)]
    by_cases hlt : count < s.curBufUnusedSize
    · rw [if_pos (Nat.cast_lt.2 hlt), Int.toNat_natCast]
      exact ⟨(decide_eq_true (h.count_le hlt.le)).symm, rfl, .inl ⟨_, h.drop hlt.le⟩⟩
    · rw [if_neg fun hneg => hlt (Nat.cast_lt.1 hneg)]
      have hle := not_lt.1 hlt
      rw [toInt_sub hcount hle]
      -- the loop goes on with the next buffer, and what is left of the count
      obtain ⟨hget, hdropNext⟩ := getElem?_of_drop_eq hbuffers
      have hlive : Live { s with curBufUnusedSize := buffer.length, curBufIndex := s.curBufIndex + 1 }
          (s.bufferArrayView.drop s.curBufIndex).flatten buffer :=
        ⟨flatten_drop_eq hget, rfl, by rw [curBuffer_eq hget], fun _ => Nat.succ_pos _,
          (List.getElem?_eq_some_iff.1 hget).1⟩
      obtain ⟨hskipped, hview, hleft⟩ :=
        ih (s := { s with curBufUnusedSize := buffer.length, curBufIndex := s.curBufIndex + 1 }) hsmall
          (by omega : count - s.curBufUnusedSize < 2 ^ 31) hlive hdropNext
      have hdrop : rest.drop count = (s.bufferArrayView.drop s.curBufIndex).flatten.drop (count - s.curBufUnusedSize) := by
        rw [h.rest_eq, List.drop_append, List.drop_eq_nil_of_le (h.length_tail.trans_le hle), h.length_tail,
          List.nil_append]
      refine ⟨hskipped.trans (decide_eq_decide.2 ?_), hview, ?_⟩
      · rw [h.rest_eq, List.length_append, h.length_tail]
        omega
      · rw [hdrop]
        exact hleft

/-- At the end, `Skip` takes the size of the last region for bytes that are left. -/
theorem skipLoop_of_ended (h : Ended s rest) {count : ℕ} (hcount : count < 2 ^ 31) :
    ((s.skipLoop count []).2 = decide (count ≤ rest.length) ↔ ¬ (0 < count ∧ count ≤ s.curBufUnusedSize)) ∧
      (s.skipLoop count []).1.bufferArrayView = s.bufferArrayView ∧ Ended (s.skipLoop count []).1 (rest.drop count) := by
  have hdrop : rest.drop count = [] := by rw [h.rest_eq, List.drop_nil]
  rw [InputStream.skipLoop_nil, toInt_of_lt h.small]
  by_cases hlt : count < s.curBufUnusedSize
  · rw [if_pos (Nat.cast_lt.2 hlt), Int.toNat_natCast]
    refine ⟨?_, rfl, hdrop, h.index_eq, (Nat.sub_le _ _).trans_lt h.small⟩
    rw [h.rest_eq, List.length_nil, eq_comm, decide_eq_true_iff]
    omega
  · rw [if_neg fun hneg => hlt (Nat.cast_lt.1 hneg)]
    rw [toInt_sub hcount (not_lt.1 hlt)]
    refine ⟨?_, rfl, hdrop, h.index_eq, h.small⟩
    rw [h.rest_eq, List.length_nil, decide_eq_decide]
    omega

end Steps

/-! ### Runs -/

/-- While all was right, the bytes that are left are those that the stream takes for them, up to the end. -/
structure Inv (r : Reader) : Prop where
  correct : r.wrong = false
  small : Small r.stream.bufferArrayView
  left : (∃ tail, Live r.stream r.rest tail) ∨ Ended r.stream r.rest
  lastChunk : ∀ chunk ∈ r.lastChunk, Live r.stream r.rest [] ∧ chunk <:+ r.stream.curBuffer ∧ 0 < r.stream.curBufIndex

section Runs

variable {r : Reader}

theorem inv_init {view : List Bytes} (hsmall : Small view) : Inv (init view) :=
  ⟨rfl, hsmall, .inl ⟨[], ⟨rfl, rfl, List.nil_suffix, (fun h => absurd rfl h), Nat.zero_le _⟩⟩, fun _ h => by cases h⟩

theorem region_eq {view : List Bytes} {i : ℕ} {buffer : Bytes} (hbuffer : view[i]? = some buffer) {n : ℕ}
    (hn : n ≤ buffer.length) : region view i (buffer.length - n) n = some (buffer.drop (buffer.length - n)) := by
  rw [region, hbuffer, Option.bind_some, Int.toNat_natCast, if_pos (by omega),
    List.take_of_length_le (by rw [List.length_drop]; omega)]

/-- `Next` has given `chunk`, which is the begin of what was left. -/
theorem Inv.next_chunk (h : Inv r) (chunk : Bytes) {stream : InputStream} {i offset : ℕ} {size : ℤ}
    (hnext : r.stream.next = (stream, some (i, offset, size)))
    (hregion : region r.stream.bufferArrayView i offset size = some chunk) (hbegin : chunk <+: r.rest)
    (hview : stream.bufferArrayView = r.stream.bufferArrayView) (hlive : Live stream (r.rest.drop chunk.length) [])
    (hsuffix : chunk <:+ stream.curBuffer) (hpos : 0 < stream.curBufIndex) : Inv (r.step .next) := by
  have hstep : r.step .next = ⟨stream, r.rest.drop chunk.length, some chunk, r.wrong || !chunk.isPrefixOf r.rest⟩ := by
    simp only [step, hnext, hregion]
  rw [hstep]
  refine ⟨?_, ?_, .inl ⟨[], hlive⟩, fun chunk' hchunk => ?_⟩
  · show (r.wrong || !chunk.isPrefixOf r.rest) = false
    rw [h.correct, List.isPrefixOf_iff_prefix.2 hbegin]
    rfl
  · show Small stream.bufferArrayView
    rw [hview]
    exact h.small
  · obtain rfl := Option.some.inj hchunk
    exact ⟨hlive, hsuffix, hpos⟩

theorem Inv.next_live (h : Inv r) {tail : Bytes} (hlive : Live r.stream r.rest tail)
    (hindex : r.stream.curBufIndex < r.stream.bufferArrayView.length) : Inv (r.step .next) := by
  have hget := List.getElem?_eq_getElem hindex
  generalize r.stream.bufferArrayView[r.stream.curBufIndex] = buffer at hget
  have hbuffer : buffer.length < 2 ^ 31 := h.small buffer (List.mem_of_getElem? hget)
  have hrest := hlive.rest_eq
  by_cases hunused : r.stream.curBufUnusedSize = 0
  · -- a new buffer
    have htail : tail = [] := List.length_eq_zero_iff.1 (hlive.length_tail.trans hunused)
    rw [htail, List.nil_append, flatten_drop_eq hget] at hrest
    have hnext : r.stream.next = (⟨r.stream.bufferArrayView, 0, r.stream.curBufIndex + 1,
        r.stream.byteCount + buffer.length⟩, some (r.stream.curBufIndex, 0, ↑buffer.length)) := by
      rw [InputStream.next, hget]
      simp only [hunused, if_true, toInt_of_lt hbuffer]
    refine h.next_chunk buffer hnext ?_ ?_ rfl ?_ ?_ (Nat.succ_pos _)
    · have hregion := region_eq hget le_rfl
      rw [Nat.sub_self, List.drop_zero] at hregion
      exact hregion
    · rw [hrest]
      exact List.prefix_append _ _
    · refine ⟨?_, rfl, List.nil_suffix, fun hne => absurd rfl hne, hindex⟩
      rw [hrest, List.drop_left, List.nil_append]
    · rw [curBuffer_eq hget]
  · -- what was given back
    have hne : tail ≠ [] := fun hnil => hunused (by rw [← hlive.length_tail, hnil, List.length_nil])
    have hpos := hlive.index_pos hne
    have hnext : r.stream.next = (⟨r.stream.bufferArrayView, 0, r.stream.curBufIndex,
        r.stream.byteCount + r.stream.curBufUnusedSize⟩, some (r.stream.curBufIndex - 1,
          r.stream.curBuffer.length - r.stream.curBufUnusedSize, ↑r.stream.curBufUnusedSize)) := by
      rw [InputStream.next, hget]
      simp only [hunused, if_false, toInt_of_lt (hlive.unused_lt h.small)]
    have hcur : r.stream.bufferArrayView[r.stream.curBufIndex - 1]? = some r.stream.curBuffer := by
      rw [InputStream.curBuffer, List.getD_eq_getElem?_getD, List.getElem?_eq_getElem (by omega), Option.getD_some]
    refine h.next_chunk tail hnext ?_ ?_ rfl ?_ hlive.suffix hpos
    · have hregion := region_eq hcur hlive.suffix.length_le
      rw [← List.suffix_iff_eq_drop.1 hlive.suffix, hlive.length_tail] at hregion
      exact hregion
    · rw [hrest]
      exact List.prefix_append _ _
    · refine ⟨?_, rfl, List.nil_suffix, fun hne => absurd rfl hne, hlive.index_le⟩
      rw [hrest, List.drop_left, List.nil_append]

/-- `Next` behind the last buffer. -/
theorem step_next_of_none (hnone : r.stream.bufferArrayView[r.stream.curBufIndex]? = none) :
    r.step .next = { r with lastChunk := none, wrong := r.wrong || !r.rest.isEmpty } := by
  simp only [step, InputStream.next, hnone]

theorem Inv.next_end (h : Inv r) (hindex : r.stream.bufferArrayView.length ≤ r.stream.curBufIndex) (hrest : r.rest = []) :
    Inv (r.step .next) := by
  rw [step_next_of_none (List.getElem?_eq_none_iff.2 hindex)]
  refine ⟨?_, h.small, h.left, nofun⟩
  show (r.wrong || !r.rest.isEmpty) = false
  rw [h.correct, hrest]
  rfl

theorem Inv.backUp (h : Inv r) {count : ℕ} (hallowed : r.Allowed (.backUp count)) : Inv (r.step (.backUp count)) := by
  obtain ⟨chunk, hchunk, hcount⟩ := hallowed
  obtain ⟨hlive, hsuffix, hpos⟩ := h.lastChunk chunk hchunk
  have hstep : r.step (.backUp count) =
      { r with stream := r.stream.backUp count, rest := chunk.drop (chunk.length - count) ++ r.rest, lastChunk := none } := by
    rw [step, hchunk]
    rfl
  rw [hstep]
  refine ⟨h.correct, h.small, .inl ⟨chunk.drop (chunk.length - count), ?_, ?_, ?_, fun _ => hpos, hlive.index_le⟩, nofun⟩
  · show _ = chunk.drop (chunk.length - count) ++ (r.stream.bufferArrayView.drop r.stream.curBufIndex).flatten
    rw [hlive.rest_eq, List.nil_append]
  · show _ = r.stream.curBufUnusedSize + count
    rw [List.length_drop, ← hlive.length_tail, List.length_nil]
    omega
  · exact (List.drop_suffix _ _).trans hsuffix

theorem Inv.skip_spec (h : Inv r) {count : ℕ} (hcount : count < 2 ^ 31) :
    ((r.stream.skip count).2 = decide (count ≤ r.rest.length) ↔ r.Meets (.skip count)) ∧
      (r.stream.skip count).1.bufferArrayView = r.stream.bufferArrayView ∧
      ((∃ tail, Live (r.stream.skip count).1 (r.rest.drop count) tail) ∨
        Ended (r.stream.skip count).1 (r.rest.drop count)) := by
  rcases h.left with ⟨tail, hlive⟩ | hended
  · have hlive' : Live { r.stream with byteCount := r.stream.byteCount + count } r.rest tail :=
      ⟨hlive.rest_eq, hlive.length_tail, hlive.suffix, hlive.index_pos, hlive.index_le⟩
    obtain ⟨hskipped, hview, hleft⟩ := skipLoop_spec
      (s := { r.stream with byteCount := r.stream.byteCount + count }) h.small hcount hlive' rfl
    refine ⟨iff_of_true hskipped ?_, hview, hleft⟩
    rintro ⟨hnil, hpos, hle⟩
    have hcount' := hlive.count_le hle
    rw [hnil, List.length_nil] at hcount'
    omega
  · have hended' : Ended { r.stream with byteCount := r.stream.byteCount + count } r.rest :=
      ⟨hended.rest_eq, hended.index_eq, hended.small⟩
    have hdrop : r.stream.bufferArrayView.drop r.stream.curBufIndex = [] :=
      List.drop_eq_nil_of_le hended.index_eq.ge
    obtain ⟨hskipped, hview, hended''⟩ := skipLoop_of_ended hended' hcount
    have hskip : r.stream.skip count =
        { r.stream with byteCount := r.stream.byteCount + count }.skipLoop count [] :=
      congrArg (InputStream.skipLoop { r.stream with byteCount := r.stream.byteCount + count } count) hdrop
    rw [hskip]
    refine ⟨hskipped.trans ?_, hview, .inr hended''⟩
    exact not_congr ⟨fun hle => ⟨hended.rest_eq, hle⟩, fun hle => hle.2⟩

theorem Inv.step (h : Inv r) {op : Op} (hallowed : r.Allowed op) (hmeets : r.Meets op) : Inv (r.step op) := by
  cases op with
  | next =>
    have hmeets' : r.stream.curBufIndex < r.stream.bufferArrayView.length ∨ r.rest = [] := hmeets
    by_cases hindex : r.stream.curBufIndex < r.stream.bufferArrayView.length
    · rcases h.left with ⟨tail, hlive⟩ | hended
      · exact h.next_live hlive hindex
      · exact absurd hended.index_eq hindex.ne
    · exact h.next_end (not_lt.1 hindex) (hmeets'.resolve_left hindex)
  | backUp count => exact h.backUp hallowed
  | skip count =>
    obtain ⟨hskipped, hview, hleft⟩ := h.skip_spec hallowed
    refine ⟨?_, ?_, hleft, nofun⟩
    · show (r.wrong || (r.stream.skip count).2 != decide (count ≤ r.rest.length)) = false
      rw [h.correct, hskipped.2 hmeets, bne_self_eq_false]
      rfl
    · show Small (r.stream.skip count).1.bufferArrayView
      rw [hview]
      exact h.small

theorem Inv.meets_of_correct (h : Inv r) {op : Op} (hallowed : r.Allowed op) (hcorrect : Correct (r.step op)) :
    r.Meets op := by
  cases op with
  | next =>
    by_contra hnot
    obtain ⟨hindex, hrest⟩ := not_or.1 hnot
    unfold Correct at hcorrect
    rw [step_next_of_none (List.getElem?_eq_none_iff.2 (not_lt.1 hindex))] at hcorrect
    cases hbytes : r.rest with
    | nil => exact hrest hbytes
    | cons byte bytes =>
      rw [hbytes] at hcorrect
      simp at hcorrect
  | backUp count => trivial
  | skip count =>
    refine (h.skip_spec hallowed).1.1 ?_
    have hwrong : (r.wrong || (r.stream.skip count).2 != decide (count ≤ r.rest.length)) = false := hcorrect
    rw [Bool.or_eq_false_iff] at hwrong
    exact bne_eq_false_iff_eq.1 hwrong.2

end Runs

/-- **The stream gives the bytes of the buffers**, piece by piece, exactly if bytes of the last buffer that were given back
are not asked for again, and nothing is skipped at the end that only looks as if it was left. -/
theorem allHold_correct_iff {view : List Bytes} (hsmall : Small view) {ops : List Op}
    (hallowed : Run.AllMeet step Allowed (init view) ops) :
    Run.AllHold step Correct (init view) ops ↔ Run.AllMeet step Meets (init view) ops := by
  have hstep : ∀ {r : Reader}, Inv r → ∀ {op}, r.Allowed op → r.Meets op → Inv (r.step op) := fun h _ => h.step
  exact Run.allHold_iff_allMeet_of Inv Inv.correct hstep (fun h _ => h.meets_of_correct) (inv_init hsmall) hallowed

/-- Some bytes of the first buffer are given back and read again, and so are some of the last one, but they are lost. -/
theorem not_allHold_correct_of_backUp :
    Run.AllHold step Correct (init [[1, 2, 3], [4, 5]]) [.next, .backUp 2, .skip 1, .next, .next] ∧
      ¬ Run.AllHold step Correct (init [[1, 2, 3], [4, 5]]) [.next, .next, .backUp 1, .next] := by
  have hsmall : Small [[1, 2, 3], [4, 5]] := by
    unfold Small
    decide
  constructor
  · refine (allHold_correct_iff hsmall ?_).2 ?_
    · exact ⟨trivial, ⟨[1, 2, 3], rfl, by decide⟩, (by decide : 1 < 2 ^ 31), trivial, trivial, trivial⟩
    · exact ⟨.inl (by decide), trivial, by decide, .inl (by decide), .inl (by decide), trivial⟩
  · intro h
    have hallowed : Run.AllMeet step Allowed (init [[1, 2, 3], [4, 5]]) [.next, .next, .backUp 1, .next] :=
      ⟨trivial, trivial, ⟨[4, 5], rfl, by decide⟩, trivial, trivial⟩
    have hmeets := (allHold_correct_iff hsmall hallowed).1 h
    exact absurd hmeets.2.2.2.1 (by decide)

/-- What a writer leaves in the buffers is what a reader of them gets. -/
theorem init_commitLastBuf {w : Writer} (h : w.Holds) : (init w.stream.commitLastBuf).rest = w.written := h.contents

end Reader

end AimRT.Util.ZeroCopy
