import AimRT.Util.BufferCalls
import AimRT.Util.BufferPointers

/-!
# Pointers and positions

An operator by its pointers as one by its position in the bytes between `start_` and `end_`.  As long as no length takes
the cursor round the address space, a setter by pointers does to the one what the setter by positions does to the other,
and throws where that throws; and a getter reads the same bytes.
-/

namespace AimRT.Util

open AimRT.Lib

def CharSpan.bytes (s : CharSpan) : Bytes := (List.range s.size.toNat).map s.data

@[simp] theorem CharSpan.bytes_length (s : CharSpan) : s.bytes.length = s.size.toNat := by
  rw [bytes, List.length_map, List.length_range]

theorem CharSpan.getElem?_bytes (s : CharSpan) {i : ℕ} (hi : i < s.size.toNat) : s.bytes[i]? = some (s.data i) := by
  rw [bytes, List.getElem?_map, List.getElem?_range hi, Option.map_some]

theorem CharSpan.bytes_ofBytes (bs : Bytes) : (List.range bs.length).map (CharSpan.ofBytes bs).data = bs := by
  refine List.ext_getElem (by rw [List.length_map, List.length_range]) fun i hi hi' => ?_
  rw [List.getElem_map, List.getElem_range]
  show bs.getD i 0 = bs[i]
  rw [List.getD_eq_getElem?_getD, List.getElem?_eq_getElem hi', Option.getD_some]

/-- The bytes of a length prefix, and of a number. -/
theorem CharSpan.bytes_leBytes (len : UInt64) (n : ℕ) :
    (CharSpan.mk (CharSpan.ofBytes (leBytes len.toNat n)).data len).bytes = leBytes len.toNat n := by
  have hbytes := CharSpan.bytes_ofBytes (leBytes len.toNat n)
  rwa [leBytes_length] at hbytes

/-- The bytes of a buffer after a write. -/
theorem BufferOperator.getElem?_put {op : BufferOperator} {bs : Bytes} (h : op.cur ≤ op.buf.length) (i : ℕ) :
    (op.put bs).buf[i]? = if i < op.cur then op.buf[i]? else
      if i < op.cur + bs.length then bs[i - op.cur]? else op.buf[i]? := by
  have htake : (op.buf.take op.cur).length = op.cur := List.length_take_of_le h
  rw [BufferOperator.put]
  dsimp only
  split_ifs with hfront hmid
  · rw [List.append_assoc, List.getElem?_append_left (by rwa [htake]), List.getElem?_take_of_lt hfront]
  · rw [List.append_assoc, List.getElem?_append_right (by omega), htake, List.getElem?_append_left (by omega)]
  · rw [List.getElem?_append_right (by rw [List.length_append, htake]; omega), List.length_append, htake,
      List.getElem?_drop, Nat.add_sub_cancel' (Nat.le_of_not_lt hmid)]

/-- The same exception. -/
def BufferError.toOperatorError : BufferError → OperatorError
  | .outOfBounds => .outOfBounds
  | .stringLengthOutOfRange => .stringLengthOutOfRange

namespace PointerOperator

variable {op : PointerOperator} {s : CharSpan}

/-- The bytes from `start_` to `end_`. -/
def contents (op : PointerOperator) : Bytes :=
  (List.range (op.endPtr.toNat - op.startPtr.toNat)).map fun i => op.mem (op.startPtr + UInt64.ofNat i)

def position (op : PointerOperator) : ℕ := op.curPtr.toNat - op.startPtr.toNat

def positional (op : PointerOperator) : BufferOperator := ⟨op.contents, op.position⟩

@[simp] theorem contents_length (op : PointerOperator) :
    op.contents.length = op.endPtr.toNat - op.startPtr.toNat := by
  rw [contents, List.length_map, List.length_range]

theorem getElem?_contents {i : ℕ} (hi : i < op.endPtr.toNat - op.startPtr.toNat) :
    op.contents[i]? = some (op.mem (op.startPtr + UInt64.ofNat i)) := by
  rw [contents, List.getElem?_map, List.getElem?_range hi, Option.map_some]

/-- A place in the buffer, seen from the cursor. -/
theorem toNat_sub_cursor (h : op.Inside) {i : ℕ} (hi : i < op.endPtr.toNat - op.startPtr.toNat) :
    (op.startPtr + UInt64.ofNat i - op.curPtr).toNat =
      if op.position ≤ i then i - op.position else 2 ^ 64 + i - op.position := by
  have hstart := h.start_le
  have hle := h.le_end
  have hend := op.endPtr.toNat_lt
  have hofNat : (UInt64.ofNat i).toNat = i := UInt64.toNat_ofNat_of_lt' (by show i < 2 ^ 64; omega)
  rw [UInt64.toNat_sub, UInt64.toNat_add, hofNat, position]
  split_ifs with hpos
  · omega
  · omega

/-- The cursor behind a length that fits. -/
theorem position_access (h : op.Inside) {len : UInt64} (hroom : op.curPtr.toNat + len.toNat ≤ op.endPtr.toNat) :
    (op.access len).position = op.position + len.toNat := by
  have hstart := h.start_le
  have hend := op.endPtr.toNat_lt
  show (op.curPtr + len).toNat - op.startPtr.toNat = op.curPtr.toNat - op.startPtr.toNat + _
  rw [UInt64.toNat_add, Nat.mod_eq_of_lt (by omega)]
  omega

/-- A write meets the bytes of the buffer from the position on. -/
theorem store_eq (h : op.Inside) (hroom : op.curPtr.toNat + s.size.toNat ≤ op.endPtr.toNat) {i : ℕ}
    (hi : i < op.endPtr.toNat - op.startPtr.toNat) :
    store op.mem op.curPtr s.size s.data (op.startPtr + UInt64.ofNat i) =
      if op.position ≤ i ∧ i < op.position + s.size.toNat then s.data (i - op.position)
      else op.mem (op.startPtr + UInt64.ofNat i) := by
  have hstart := h.start_le
  have hend := op.endPtr.toNat_lt
  have hpos : op.position + s.size.toNat ≤ op.endPtr.toNat - op.startPtr.toNat := by
    rw [position]
    omega
  have hsub := toNat_sub_cursor h hi
  have hmid : op.startPtr + UInt64.ofNat i - op.curPtr < s.size ↔
      op.position ≤ i ∧ i < op.position + s.size.toNat := by
    rw [UInt64.lt_iff_toNat_lt, hsub]
    split_ifs with hle
    · omega
    · omega
  unfold store
  by_cases hin : op.position ≤ i ∧ i < op.position + s.size.toNat
  · rw [if_pos (hmid.2 hin), if_pos hin, hsub, if_pos hin.1]
  · rw [if_neg fun hlt => hin (hmid.1 hlt), if_neg hin]

/-- What a write leaves in the buffer is the data, put at the position. -/
theorem contents_put (h : op.Inside) (hroom : op.curPtr.toNat + s.size.toNat ≤ op.endPtr.toNat) :
    (op.put s).contents = (op.positional.put s.bytes).buf := by
  have hcur : op.position ≤ op.contents.length := by
    have hle := h.le_end
    rw [contents_length, position]
    omega
  have hlen : (op.put s).contents.length = op.contents.length :=
    (contents_length _).trans (contents_length op).symm
  refine List.ext_getElem? fun i => ?_
  have hget : (op.positional.put s.bytes).buf[i]? = if i < op.position then op.contents[i]? else
      if i < op.position + s.bytes.length then s.bytes[i - op.position]? else op.contents[i]? :=
    BufferOperator.getElem?_put hcur i
  rw [hget, CharSpan.bytes_length]
  by_cases hi : i < op.endPtr.toNat - op.startPtr.toNat
  · have hput : (op.put s).contents[i]? = some (store op.mem op.curPtr s.size s.data (op.startPtr + UInt64.ofNat i)) :=
      getElem?_contents hi
    rw [hput, store_eq h hroom hi, getElem?_contents hi]
    split_ifs with hin hfront hmid hfront hmid
    · omega
    · rw [CharSpan.getElem?_bytes s (by omega)]
    · omega
    · rfl
    · omega
    · rfl
  · rw [List.getElem?_eq_none (by rw [hlen, contents_length]; omega),
      List.getElem?_eq_none (by rw [contents_length]; omega)]
    have hstart := h.start_le
    have hpos : op.position + s.size.toNat ≤ i := by
      rw [position]
      omega
    rw [if_neg (by omega), if_neg (by omega)]

theorem positional_put (h : op.Inside) (hroom : op.curPtr.toNat + s.size.toNat ≤ op.endPtr.toNat) :
    (op.put s).positional = op.positional.put s.bytes := by
  have hcur : (op.put s).position = op.position + s.bytes.length := by
    rw [CharSpan.bytes_length]
    exact position_access h hroom
  show BufferOperator.mk (op.put s).contents (op.put s).position = ⟨(op.positional.put s.bytes).buf, _⟩
  rw [contents_put h hroom, hcur]
  rfl

/-! ### Setters -/

/-- A setter by pointers does what a setter by positions does, and throws what that throws. -/
def DoesAs (op : PointerOperator) (w : PointerOperator → Outcome Unit) (w' : BufferWriter Unit) : Prop :=
  (w op).2.positional = (w' op.positional).2 ∧ (w op).1 = (w' op.positional).1.mapError BufferError.toOperatorError

/-- The two checks. -/
theorem exceeds_iff (h : op.Inside) {len : UInt64} (hwrap : op.NoWrap len.toNat) :
    op.curPtr + len > op.endPtr ↔ op.position + len.toNat > op.contents.length := by
  have hstart := h.start_le
  have hle := h.le_end
  rw [gt_iff_lt, UInt64.lt_iff_toNat_lt, UInt64.toNat_add, Nat.mod_eq_of_lt hwrap, contents_length, position]
  omega

theorem doesAs_write (h : op.Inside) (hwrap : op.NoWrap s.size.toNat) :
    op.DoesAs (write s) (BufferWriter.write s.bytes) := by
  have hexceeds := exceeds_iff h hwrap
  rw [DoesAs, BufferWriter.write_eq, BufferWriter.keeping, BufferOperator.setBuffer, CharSpan.bytes_length]
  unfold write
  by_cases hroom : op.curPtr + s.size > op.endPtr
  · rw [if_pos hroom, if_pos (show op.positional.cur + _ > op.positional.buf.length from hexceeds.1 hroom)]
    exact ⟨rfl, rfl⟩
  · rw [if_neg hroom,
      if_neg (show ¬op.positional.cur + _ > op.positional.buf.length from fun h => hroom (hexceeds.2 h))]
    have hsum := ((not_exceeds_iff h).1 hroom).resolve_right (not_not.2 hwrap)
    exact ⟨positional_put h hsum, rfl⟩

/-- The same for a length behind another one. -/
theorem exceeds_add_iff (h : op.Inside) {pre len : UInt64} (hwrap : op.NoWrap (pre.toNat + len.toNat)) :
    op.curPtr + pre + len > op.endPtr ↔ op.position + pre.toNat + len.toNat > op.contents.length := by
  have hstart := h.start_le
  have hle := h.le_end
  rw [NoWrap] at hwrap
  have hpre : (op.curPtr + pre).toNat = op.curPtr.toNat + pre.toNat := by
    rw [UInt64.toNat_add, Nat.mod_eq_of_lt (by omega)]
  rw [gt_iff_lt, UInt64.lt_iff_toNat_lt, UInt64.toNat_add, hpre, Nat.mod_eq_of_lt (by omega), contents_length, position]
  omega

/-- Two writes, one behind the other. -/
theorem positional_put_put (h : op.Inside) {pre : CharSpan}
    (hroom : op.curPtr.toNat + pre.size.toNat + s.size.toNat ≤ op.endPtr.toNat) :
    ((op.put pre).put s).positional = (op.positional.put pre.bytes).put s.bytes := by
  have hend := op.endPtr.toNat_lt
  have hpre : op.curPtr.toNat + pre.size.toNat ≤ op.endPtr.toNat := by omega
  have hwrap : op.NoWrap pre.size.toNat := by
    rw [NoWrap]
    omega
  have hinside : (op.put pre).Inside := (inside_put_iff h ((not_exceeds_iff h).2 (.inl hpre))).2 hwrap
  have hcur : (op.put pre).curPtr.toNat = op.curPtr.toNat + pre.size.toNat := by
    show (op.curPtr + pre.size).toNat = _
    rw [UInt64.toNat_add, Nat.mod_eq_of_lt hwrap]
  rw [positional_put hinside (by rw [hcur]; exact hroom), positional_put h hpre]

/-- `SetString`, with a prefix of a known type. -/
theorem doesAs_setString (h : op.Inside) {lenType : UInt64} {t : BufferLenType} (ht : lenTypeOf lenType = some t)
    (hwrap : op.NoWrap (lenType.toNat + s.size.toNat)) (native : Endian) :
    op.DoesAs (setString s lenType) (BufferWriter.setString native s.bytes t) := by
  have hsize : lenType.toNat = t.size := lenTypeOf_eq_some ht
  have hstart := h.start_le
  have hexceeds := exceeds_add_iff h hwrap
  rw [hsize] at hexceeds
  rw [DoesAs, BufferWriter.setString_eq, BufferWriter.keeping, BufferOperator.setString, CharSpan.bytes_length]
  unfold setString
  by_cases hroom : op.curPtr + lenType + s.size > op.endPtr
  · rw [if_pos hroom, if_pos (show op.positional.cur + _ + _ > op.positional.buf.length from hexceeds.1 hroom)]
    exact ⟨rfl, rfl⟩
  have hsum : op.position + t.size + s.size.toNat ≤ op.contents.length :=
    Nat.not_lt.1 fun hlt => hroom (hexceeds.2 hlt)
  rw [if_neg hroom, if_neg (show ¬op.positional.cur + _ + _ > op.positional.buf.length from Nat.not_lt.2 hsum),
    setLen_eq ht]
  by_cases hmax : s.size.toNat > t.max
  · rw [if_pos hmax, if_pos hmax]
    exact ⟨rfl, rfl⟩
  -- both write the prefix and then the characters
  have hbytes : (lenSpan s.size lenType).bytes = leBytes t.size s.size.toNat := by
    rw [lenSpan, CharSpan.bytes_leBytes, hsize]
  have hlen : BufferOperator.setLen s.size.toNat t op.positional =
      .ok (op.positional.put (leBytes t.size s.size.toNat)) := by
    rw [AimRT.Util.setLen_eq (Nat.not_lt.1 hmax), BufferOperator.setBuffer, leBytes_length]
    refine if_neg ?_
    show ¬op.contents.length < op.position + t.size
    omega
  rw [contents_length, position] at hsum
  have hfit : op.curPtr.toNat + lenType.toNat + s.size.toNat ≤ op.endPtr.toNat := by
    have hle := h.le_end
    omega
  have hwrite : op.write (lenSpan s.size lenType) = (.ok (), op.put (lenSpan s.size lenType)) :=
    if_neg ((not_exceeds_iff h).2 (.inl (by show op.curPtr.toNat + lenType.toNat ≤ _; omega)))
  rw [if_neg hmax, if_neg hmax, hwrite, hlen]
  refine ⟨?_, rfl⟩
  rw [← hbytes]
  exact positional_put_put h hfit

/-! ### Getters -/

/-- What a getter reads are the bytes behind the position. -/
theorem load_eq (h : op.Inside) {len : ℕ} (hroom : op.curPtr.toNat + len ≤ op.endPtr.toNat) :
    op.load len = (op.contents.drop op.position).take len := by
  have hstart := h.start_le
  refine List.ext_getElem? fun i => ?_
  by_cases hi : i < len
  · have hplace : op.startPtr + UInt64.ofNat (op.position + i) = op.curPtr + UInt64.ofNat i := by
      have hcur : op.startPtr + UInt64.ofNat op.position = op.curPtr := by
        rw [← UInt64.toNat_inj, UInt64.toNat_add, position]
        have := op.curPtr.toNat_lt
        rw [UInt64.toNat_ofNat_of_lt' (by show _ < 2 ^ 64; omega), Nat.add_sub_cancel' hstart, Nat.mod_eq_of_lt this]
      rw [UInt64.ofNat_add, ← UInt64.add_assoc, hcur]
    rw [load, List.getElem?_map, List.getElem?_range hi, Option.map_some, List.getElem?_take_of_lt hi,
      List.getElem?_drop, getElem?_contents (by rw [position]; omega), hplace]
  · rw [List.getElem?_eq_none (by rw [load, List.length_map, List.length_range]; omega),
      List.getElem?_eq_none (by rw [List.length_take]; omega)]

/-- A getter by pointers that computes on its bytes is the getter by positions. -/
theorem read_eq {β : Type} (h : op.Inside) {len : UInt64} (hwrap : op.NoWrap len.toNat) (f : Bytes → β) :
    (ConstBufferOperator.getBuffer len.toNat >>= fun bs => pure (f bs)) ⟨op.contents, op.position⟩ =
      match op.read len fun op => f (op.load len.toNat) with
      | (.ok value, op') => .ok (value, ⟨op'.contents, op'.position⟩)
      | (.error _, _) => .error .outOfBounds := by
  have hexceeds := exceeds_iff h hwrap
  show (ConstBufferOperator.getBuffer len.toNat ⟨op.contents, op.position⟩ >>= fun p => pure (f p.1, p.2)) = _
  unfold ConstBufferOperator.getBuffer read
  by_cases hroom : op.curPtr + len > op.endPtr
  · rw [if_pos hroom, if_pos (show op.position + _ > op.contents.length from hexceeds.1 hroom)]
    rfl
  · have hsum := ((not_exceeds_iff h).1 hroom).resolve_right (not_not.2 hwrap)
    rw [if_neg hroom, if_neg (show ¬op.position + _ > op.contents.length from fun h => hroom (hexceeds.2 h))]
    show Except.ok _ =
      Except.ok (f (op.load len.toNat), (⟨op.contents, (op.access len).position⟩ : ConstBufferOperator))
    rw [load_eq h hsum, position_access h hsum]
    rfl

end PointerOperator

end AimRT.Util
