import AimRT.Lib.Fragments
import AimRT.Net.HttpChannelPublish
import AimRT.Util.BufferArray

/-!
# Filling the body of a message

The loop that copies the serialized buffers into the segments that are prepared in the body of a request or a response.
It stands in the two coroutines of the rpc backend and in `Publish` of the channel backend with the same text.  The
buffers and the segments are fragments of the same bytes; the loop is in a place of both of them.

The number of the buffer is an `int`.  Where it overflows, or a buffer is read behind the end of the array or behind its
own end, there is no value.
-/

namespace AimRT.Net.BodyCopy

open AimRT.Lib AimRT.Lib.Fragments AimRT.Util

/-! ### The loops -/

/-- The greatest `int`. -/
def intMax : ℕ := 2 ^ 31 - 1

/-- `++` of an `int`. -/
def increment (n : ℕ) : Option ℕ := if n = intMax then none else some (n + 1)

/-- The bytes that `memcpy` reads in a buffer. -/
def piece (buffer : Bytes) (pos len : ℕ) : Option Bytes :=
  if pos + len ≤ buffer.length then some ((buffer.drop pos).take len) else none

/-- `buffer_array_pos` and `buffer_pos`. -/
structure CopyPos where
  bufferArrayPos : ℕ
  bufferPos : ℕ
  deriving DecidableEq, Repr

variable (data : List Bytes)

/-- The body of the inner loop: the segment `buf`, `cur_beast_buf_pos` and the place in the buffers behind it. -/
def copyPiece (buf : Bytes) (curBeastBufPos : ℕ) (pos : CopyPos) : Option (Bytes × ℕ × CopyPos) := do
  let curBeastBufferSize := buf.length - curBeastBufPos
  let buffer ← data[pos.bufferArrayPos]?
  let curBufferSize := buffer.length - pos.bufferPos
  let curCopySize := min curBeastBufferSize curBufferSize
  let buf ← memcpy buf curBeastBufPos (← piece buffer pos.bufferPos curCopySize)
  let bufferPos := pos.bufferPos + curCopySize
  if bufferPos = buffer.length then
    return (buf, curBeastBufPos + curCopySize, ⟨← increment pos.bufferArrayPos, 0⟩)
  else
    return (buf, curBeastBufPos + curCopySize, ⟨pos.bufferArrayPos, bufferPos⟩)

variable {data} {buf buf' : Bytes} {cur cur' : ℕ} {pos pos' : CopyPos}

/-- What the body has done when it has come to its end. -/
theorem copyPiece_eq_some (h : copyPiece data buf cur pos = some (buf', cur', pos')) :
    ∃ buffer n, data[pos.bufferArrayPos]? = some buffer ∧ n = min (buf.length - cur) (buffer.length - pos.bufferPos) ∧
      pos.bufferPos + n ≤ buffer.length ∧ memcpy buf cur ((buffer.drop pos.bufferPos).take n) = some buf' ∧
      cur' = cur + n ∧
      (pos.bufferPos + n = buffer.length ∧ pos.bufferArrayPos ≠ intMax ∧ pos' = ⟨pos.bufferArrayPos + 1, 0⟩ ∨
        pos.bufferPos + n ≠ buffer.length ∧ pos' = ⟨pos.bufferArrayPos, pos.bufferPos + n⟩) := by
  obtain ⟨buffer, hbuffer, hpiece⟩ := Option.bind_eq_some_iff.1 h
  obtain ⟨bytes, hbytes, hcopy⟩ := Option.bind_eq_some_iff.1 hpiece
  obtain ⟨buf₁, hbuf, hnext⟩ := Option.bind_eq_some_iff.1 hcopy
  unfold piece at hbytes
  split_ifs at hbytes with hin
  obtain rfl := Option.some.inj hbytes
  refine ⟨buffer, _, hbuffer, rfl, hin, ?_⟩
  dsimp only at hnext
  split_ifs at hnext with hend
  · obtain ⟨next, hinc, hres⟩ := Option.bind_eq_some_iff.1 hnext
    unfold increment at hinc
    split_ifs at hinc with hmax
    obtain rfl := Option.some.inj hinc
    cases hres
    exact ⟨hbuf, rfl, .inl ⟨hend, hmax, rfl⟩⟩
  · cases hnext
    exact ⟨hbuf, rfl, .inr ⟨hend, rfl⟩⟩

theorem memcpy_length {block block' bytes : Bytes} {pos : ℕ} (h : memcpy block pos bytes = some block') :
    block'.length = block.length := by
  unfold memcpy at h
  split_ifs at h with hroom
  obtain rfl := Option.some.inj h
  exact overwrite_length hroom

/-- A piece fills the segment or completes a buffer. -/
theorem copyPiece_decreases (hcur : cur < buf.length) (h : copyPiece data buf cur pos = some (buf', cur', pos')) :
    data.length - pos'.bufferArrayPos + (buf'.length - cur') <
      data.length - pos.bufferArrayPos + (buf.length - cur) := by
  obtain ⟨buffer, n, hbuffer, hn, hin, hbuf, rfl, hpos⟩ := copyPiece_eq_some h
  rw [memcpy_length hbuf]
  have hlt := (List.getElem?_eq_some_iff.1 hbuffer).1
  rcases hpos with ⟨-, -, rfl⟩ | ⟨hend, rfl⟩
  · dsimp only
    omega
  · dsimp only
    omega

variable (data)

/-- The inner loop, on one segment. -/
def copyWhile (buf : Bytes) (curBeastBufPos : ℕ) (pos : CopyPos) : Option (Bytes × CopyPos) :=
  if _hcur : curBeastBufPos < buf.length then
    match _hpiece : copyPiece data buf curBeastBufPos pos with
    | none => none
    | some (buf, curBeastBufPos, pos) => copyWhile buf curBeastBufPos pos
  else some (buf, pos)
termination_by data.length - pos.bufferArrayPos + (buf.length - curBeastBufPos)
decreasing_by exact copyPiece_decreases _hcur _hpiece

/-- The loop over the segments. -/
def copySegments : List Bytes → CopyPos → Option (List Bytes × CopyPos)
  | [], pos => some ([], pos)
  | buf :: bufs, pos => do
    let (buf, pos) ← copyWhile data buf 0 pos
    let (bufs, pos) ← copySegments bufs pos
    return (buf :: bufs, pos)

/-- The area that `prepare` returns for a size, in segments, with what is in it. -/
structure PreparedArea (size : ℕ) where
  segments : List Bytes
  size_eq : (segments.map List.length).sum = size

/-- The body, as it is committed. -/
def fillBody (area : PreparedArea (data.map List.length).sum) : Option (List Bytes) :=
  (copySegments data area.segments ⟨0, 0⟩).map Prod.fst

variable {data}

theorem copyWhile_done (hcur : ¬cur < buf.length) : copyWhile data buf cur pos = some (buf, pos) := by
  rw [copyWhile, dif_neg hcur]

theorem copyWhile_eq (hcur : cur < buf.length) :
    copyWhile data buf cur pos = (copyPiece data buf cur pos).bind fun r => copyWhile data r.1 r.2.1 r.2.2 := by
  rw [copyWhile, dif_pos hcur]
  split
  · next hpiece => rw [hpiece, Option.bind_none]
  · next hpiece => rw [hpiece, Option.bind_some]

/-! ### What is copied -/

/-- A place in the buffers that the loop can be in. -/
structure At (data : List Bytes) (pos : CopyPos) : Prop where
  proper : Proper data pos.bufferArrayPos pos.bufferPos
  le_intMax : pos.bufferArrayPos ≤ intMax

/-- What is left of the buffers. -/
def left (data : List Bytes) (pos : CopyPos) : Bytes := rest data pos.bufferArrayPos pos.bufferPos

/-- The segment has got the front of what was left, and the place is behind that. -/
structure Copied (data : List Bytes) (buf : Bytes) (cur : ℕ) (pos : CopyPos) (buf' : Bytes) (cur' : ℕ)
    (pos' : CopyPos) : Prop where
  le_cur : cur ≤ cur'
  cur_le : cur' ≤ buf.length
  room : cur' - cur ≤ (left data pos).length
  buf_eq : buf' = overwrite buf cur ((left data pos).take (cur' - cur))
  left_eq : left data pos' = (left data pos).drop (cur' - cur)
  atPos : At data pos'

theorem copied_refl (hpos : At data pos) (hcur : cur ≤ buf.length) : Copied data buf cur pos buf cur pos where
  le_cur := le_rfl
  cur_le := hcur
  room := by omega
  buf_eq := by rw [Nat.sub_self, List.take_zero, overwrite_nil]
  left_eq := by rw [Nat.sub_self, List.drop_zero]
  atPos := hpos

theorem Copied.length_eq (h : Copied data buf cur pos buf' cur' pos') : buf'.length = buf.length := by
  rw [h.buf_eq]
  refine overwrite_length ?_
  have := h.le_cur
  have := h.cur_le
  rw [List.length_take]
  omega

/-- One piece behind the other. -/
theorem Copied.trans {buf'' : Bytes} {cur'' : ℕ} {pos'' : CopyPos} (h : Copied data buf cur pos buf' cur' pos')
    (h' : Copied data buf' cur' pos' buf'' cur'' pos'') : Copied data buf cur pos buf'' cur'' pos'' := by
  have hcur := h.le_cur
  have hcur' := h'.le_cur
  have hroom := h.room
  have hroom' := h'.room
  have hend := h'.cur_le
  rw [h.length_eq] at hend
  rw [h.left_eq, List.length_drop] at hroom'
  have hsum : cur'' - cur = cur' - cur + (cur'' - cur') := by omega
  refine ⟨hcur.trans hcur', hend, by omega, ?_, ?_, h'.atPos⟩
  · have htake : ((left data pos).take (cur' - cur)).length = cur' - cur := List.length_take_of_le hroom
    have hseam : overwrite (overwrite buf cur ((left data pos).take (cur' - cur))) cur'
        ((left data pos').take (cur'' - cur')) =
          overwrite buf cur ((left data pos).take (cur' - cur) ++ (left data pos').take (cur'' - cur')) := by
      rw [← overwrite_overwrite (by omega), htake, Nat.add_sub_cancel' hcur]
    rw [h'.buf_eq, h.buf_eq, hseam, h.left_eq, hsum, List.take_add]
  · rw [h'.left_eq, h.left_eq, List.drop_drop, hsum]

/-- What one piece does. -/
theorem copied_of_copyPiece (hpos : At data pos) (hcur : cur < buf.length)
    (h : copyPiece data buf cur pos = some (buf', cur', pos')) : Copied data buf cur pos buf' cur' pos' := by
  obtain ⟨buffer, n, hbuffer, hn, hin, hbuf, rfl, hnext⟩ := copyPiece_eq_some h
  obtain ⟨htake, hlen⟩ := take_rest hbuffer hin
  have hsub : cur + n - cur = n := Nat.add_sub_cancel_left cur n
  unfold memcpy at hbuf
  split_ifs at hbuf with hroom
  refine ⟨Nat.le_add_right _ _, by omega, ?_, ?_, ?_, ?_⟩
  · rw [hsub]
    exact hlen
  · rw [hsub, ← Option.some.inj hbuf, htake]
    rfl
  · rw [hsub]
    show _ = (rest data _ _).drop n
    rw [← rest_add]
    rcases hnext with ⟨hend, -, rfl⟩ | ⟨-, rfl⟩
    · rw [hend, rest_end hbuffer]
      rfl
    · rfl
  · rcases hnext with ⟨-, hmax, rfl⟩ | ⟨hend, rfl⟩
    · exact ⟨.inl rfl, Nat.lt_of_le_of_ne hpos.le_intMax hmax⟩
    · exact ⟨.inr ⟨buffer, hbuffer, Nat.lt_of_le_of_ne hin hend⟩, hpos.le_intMax⟩

/-- The inner loop fills the segment. -/
theorem copied_of_copyWhile (hpos : At data pos) (hcur : cur ≤ buf.length)
    (h : copyWhile data buf cur pos = some (buf', pos')) : Copied data buf cur pos buf' buf.length pos' := by
  induction buf, cur, pos using copyWhile.induct data with
  | case1 buf cur pos hlt hpiece =>
    rw [copyWhile_eq hlt, hpiece] at h
    exact nomatch h
  | case2 buf cur pos hlt buf₁ cur₁ pos₁ hpiece ih =>
    rw [copyWhile_eq hlt, hpiece, Option.bind_some] at h
    have hcopied := copied_of_copyPiece hpos hlt hpiece
    have hlen := hcopied.length_eq
    rw [← hlen]
    exact hcopied.trans (ih hcopied.atPos (by rw [hlen]; exact hcopied.cur_le) h)
  | case3 buf cur pos hlt =>
    rw [copyWhile_done hlt] at h
    obtain ⟨rfl, rfl⟩ := Prod.mk.inj (Option.some.inj h)
    obtain rfl : cur = buf.length := by omega
    exact copied_refl hpos le_rfl

/-- A segment that is filled from its start on. -/
theorem Copied.segment_eq (h : Copied data buf 0 pos buf' buf.length pos') :
    buf' = (left data pos).take buf.length := by
  have htake : ((left data pos).take buf.length).length = buf.length := List.length_take_of_le h.room
  rw [h.buf_eq, Nat.sub_zero, overwrite, BufferOperator.put]
  dsimp only
  rw [List.take_zero, List.nil_append, htake, Nat.zero_add, List.drop_length, List.append_nil]

/-- The bytes that were left fill the segments, in order. -/
theorem flatten_of_copySegments {bufs bufs' : List Bytes} (hpos : At data pos)
    (h : copySegments data bufs pos = some (bufs', pos')) :
    bufs'.map List.length = bufs.map List.length ∧ (bufs.map List.length).sum ≤ (left data pos).length ∧
      bufs'.flatten = (left data pos).take (bufs.map List.length).sum ∧
      left data pos' = (left data pos).drop (bufs.map List.length).sum ∧ At data pos' := by
  induction bufs generalizing bufs' pos with
  | nil =>
    obtain ⟨rfl, rfl⟩ := Prod.mk.inj (Option.some.inj h)
    exact ⟨rfl, Nat.zero_le _, rfl, rfl, hpos⟩
  | cons buf bufs ih =>
    obtain ⟨⟨buf₁, pos₁⟩, hbuf, hrest⟩ := Option.bind_eq_some_iff.1 h
    obtain ⟨⟨bufs₁, pos₂⟩, hbufs, hres⟩ := Option.bind_eq_some_iff.1 hrest
    obtain ⟨rfl, rfl⟩ := Prod.mk.inj (Option.some.inj hres)
    have hcopied := copied_of_copyWhile hpos (Nat.zero_le _) hbuf
    obtain ⟨hlens, hroom, hflat, hleft, hat⟩ := ih hcopied.atPos hbufs
    have hlen : buf₁.length = buf.length := hcopied.length_eq
    have hfirst : buf.length ≤ (left data pos).length := hcopied.room
    have hleft₁ : left data pos₁ = (left data pos).drop buf.length := hcopied.left_eq
    rw [hleft₁, List.length_drop] at hroom
    have hsum : ((buf :: bufs).map List.length).sum = buf.length + (bufs.map List.length).sum := by
      rw [List.map_cons, List.sum_cons]
    rw [hsum]
    refine ⟨by rw [List.map_cons, List.map_cons, hlen, hlens], by omega, ?_, ?_, hat⟩
    · rw [List.flatten_cons, hflat, hleft₁, List.take_add, ← hcopied.segment_eq]
    · rw [hleft, hleft₁, List.drop_drop]

/-! ### Where the loops come to their end -/

/-- The buffers with bytes are those in front of the greatest `int`. -/
def CountedByInt (data : List Bytes) : Prop :=
  ∀ i buffer, data[i]? = some buffer → buffer ≠ [] → i < intMax

/-- A piece is copied: there is a buffer with bytes left, so that the number can be increased. -/
theorem exists_copyPiece (hdata : CountedByInt data) (hpos : At data pos) (hcur : cur < buf.length)
    (hroom : buf.length - cur ≤ (left data pos).length) : ∃ r, copyPiece data buf cur pos = some r := by
  have hleft : left data pos ≠ [] := List.ne_nil_of_length_pos (by omega)
  obtain ⟨hlt, k, hk, buffer', hbuffer', hne⟩ := exists_of_rest hleft
  have hmax : pos.bufferArrayPos ≠ intMax := (hk.trans_lt (hdata k buffer' hbuffer' hne)).ne
  obtain ⟨buffer, hbuffer⟩ : ∃ buffer, data[pos.bufferArrayPos]? = some buffer := ⟨_, List.getElem?_eq_getElem hlt⟩
  have hin : pos.bufferPos ≤ buffer.length := by
    rcases hpos.proper with hzero | ⟨part, hpart, hj⟩
    · rw [hzero]
      exact Nat.zero_le _
    · obtain rfl := Option.some.inj (hbuffer.symm.trans hpart)
      exact hj.le
  have hpiece : pos.bufferPos + min (buf.length - cur) (buffer.length - pos.bufferPos) ≤ buffer.length := by omega
  have hcopy : cur + ((buffer.drop pos.bufferPos).take
      (min (buf.length - cur) (buffer.length - pos.bufferPos))).length ≤ buf.length := by
    rw [List.length_take]
    omega
  have hinc : increment pos.bufferArrayPos = some (pos.bufferArrayPos + 1) := if_neg hmax
  unfold copyPiece
  rw [hbuffer]
  simp only [Option.bind_eq_bind, Option.bind_some, piece, if_pos hpiece, memcpy_eq_some hcopy, hinc]
  split_ifs with hend
  · exact ⟨_, rfl⟩
  · exact ⟨_, rfl⟩

theorem exists_copyWhile (hdata : CountedByInt data) (hpos : At data pos)
    (hroom : buf.length - cur ≤ (left data pos).length) : ∃ r, copyWhile data buf cur pos = some r := by
  induction buf, cur, pos using copyWhile.induct data with
  | case1 buf cur pos hlt hpiece =>
    obtain ⟨r, hr⟩ := exists_copyPiece hdata hpos hlt hroom
    exact nomatch hpiece.symm.trans hr
  | case2 buf cur pos hlt buf₁ cur₁ pos₁ hpiece ih =>
    have hcopied := copied_of_copyPiece hpos hlt hpiece
    have hle := hcopied.le_cur
    rw [copyWhile_eq hlt, hpiece, Option.bind_some]
    refine ih hcopied.atPos ?_
    rw [hcopied.length_eq, hcopied.left_eq, List.length_drop]
    omega
  | case3 buf cur pos hlt => exact ⟨_, copyWhile_done hlt⟩

theorem exists_copySegments (hdata : CountedByInt data) {bufs : List Bytes} (hpos : At data pos)
    (hroom : (bufs.map List.length).sum ≤ (left data pos).length) : ∃ r, copySegments data bufs pos = some r := by
  induction bufs generalizing pos with
  | nil => exact ⟨_, rfl⟩
  | cons buf bufs ih =>
    rw [List.map_cons, List.sum_cons] at hroom
    obtain ⟨⟨buf', pos'⟩, hbuf⟩ := exists_copyWhile hdata hpos (show buf.length - 0 ≤ _ by omega)
    have hcopied := copied_of_copyWhile hpos (Nat.zero_le _) hbuf
    obtain ⟨⟨bufs', pos''⟩, hbufs⟩ := ih hcopied.atPos (by
      rw [hcopied.left_eq, List.length_drop]
      omega)
    refine ⟨(buf' :: bufs', pos''), ?_⟩
    rw [copySegments, hbuf]
    show (copySegments data bufs pos').bind _ = _
    rw [hbufs]
    rfl

theorem at_start (data : List Bytes) : At data ⟨0, 0⟩ := ⟨.inl rfl, Nat.zero_le _⟩

/-- Where all the bytes have been copied, they are in buffers that an `int` counts. -/
theorem countedByInt_of_left (hpos : At data pos) (hleft : left data pos = []) : CountedByInt data := by
  intro i buffer hbuffer hne
  by_contra hmax
  have hle : pos.bufferArrayPos ≤ i := hpos.le_intMax.trans (Nat.not_lt.1 hmax)
  exact hne (eq_nil_of_rest hpos.proper hleft hle hbuffer)

/-- A body that is filled has the right bytes. -/
theorem flatten_of_fillBody {area : PreparedArea (data.map List.length).sum} {filled : List Bytes}
    (h : fillBody data area = some filled) :
    filled.map List.length = area.segments.map List.length ∧ filled.flatten = data.flatten ∧ CountedByInt data := by
  obtain ⟨⟨bufs, pos⟩, hcopy, rfl⟩ := Option.map_eq_some_iff.1 h
  obtain ⟨hlens, -, hflat, hleft, hat⟩ := flatten_of_copySegments (at_start data) hcopy
  have hstart : left data ⟨0, 0⟩ = data.flatten := rest_start data
  rw [area.size_eq, hstart, ← List.length_flatten] at hflat hleft
  rw [List.take_length] at hflat
  rw [List.drop_length] at hleft
  exact ⟨hlens, hflat, countedByInt_of_left hat hleft⟩

theorem exists_fillBody (hdata : CountedByInt data) (area : PreparedArea (data.map List.length).sum) :
    ∃ filled, fillBody data area = some filled := by
  have hroom : (area.segments.map List.length).sum ≤ (left data ⟨0, 0⟩).length := by
    have hstart : left data ⟨0, 0⟩ = data.flatten := rest_start data
    rw [area.size_eq, hstart, List.length_flatten]
  obtain ⟨r, hr⟩ := exists_copySegments hdata (at_start data) hroom
  exact ⟨r.1, by rw [fillBody, hr, Option.map_some]⟩

/-- **For all buffers and every way to split the area**: the loops come to their end, with every read in the array and
in its buffer, and leave the concatenation of the buffers in the segments, exactly when the buffers with bytes are
counted by an `int`. -/
theorem fillBody_flatten_iff (data : List Bytes) (area : PreparedArea (data.map List.length).sum) :
    (∃ filled, fillBody data area = some filled ∧ filled.map List.length = area.segments.map List.length ∧
      filled.flatten = data.flatten) ↔ CountedByInt data := by
  constructor
  · rintro ⟨filled, hfilled, -, -⟩
    exact (flatten_of_fillBody hfilled).2.2
  · intro hdata
    obtain ⟨filled, hfilled⟩ := exists_fillBody hdata area
    obtain ⟨hlens, hflat, -⟩ := flatten_of_fillBody hfilled
    exact ⟨filled, hfilled, hlens, hflat⟩

/-- One byte in each of too many buffers. -/
theorem not_countedByInt_replicate {n : ℕ} (hn : intMax < n) : ¬CountedByInt (List.replicate n [0]) := by
  intro hdata
  have hbuffer : (List.replicate n ([0] : Bytes))[intMax]? = some [0] := by
    rw [List.getElem?_replicate, if_pos hn]
  exact Nat.lt_irrefl _ (hdata intMax [0] hbuffer (List.cons_ne_nil _ _))

/-- A whole area in one segment. -/
def PreparedArea.single (size : ℕ) : PreparedArea size where
  segments := [List.replicate size 0]
  size_eq := by rw [List.map_singleton, List.sum_singleton, List.length_replicate]

/-- 2^31 + 1 buffers of one byte: the number of the last one is no `int`. -/
theorem not_fillBody_flatten : ¬∀ (data : List Bytes) (area : PreparedArea (data.map List.length).sum),
    ∃ filled, fillBody data area = some filled ∧ filled.map List.length = area.segments.map List.length ∧
      filled.flatten = data.flatten := by
  intro hall
  obtain ⟨filled, hfilled, -, -⟩ := hall (List.replicate (2 ^ 31 + 1) [0]) (PreparedArea.single _)
  exact not_countedByInt_replicate (by decide) (flatten_of_fillBody hfilled).2.2

/-- The body that a publication has is the one that the loops fill. -/
theorem flatten_eq_copyBody {area : PreparedArea (data.map List.length).sum} {filled : List Bytes}
    (h : fillBody data area = some filled) :
    filled.flatten = copyBody (area.segments.map List.length) data := by
  rw [(flatten_of_fillBody h).2.1, copyBody_eq, area.size_eq, ← List.length_flatten, List.take_length]

end AimRT.Net.BodyCopy
