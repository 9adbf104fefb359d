import AimRT.Zenoh.ZenohShmLoop

/-!
# What is sent through shared memory

The block that is put behind the loop, the conditions under which a message is delivered and no block
is left behind, and that nothing is written outside a block before it is put.
-/

namespace AimRT.Zenoh

open AimRT.Lib AimRT.Util

variable {u : ShmUser} {header : Bytes} {fits : Prop} {netLimit : ℕ} {p : Provider} {m : Payload}
  {s : LoopState} {r : LoopState × Option Stop} {fuel : ℕ}

/-! ### The block that is put -/

/-- The copy loop stays in the view only for its first buffer. -/
theorem copyCache_eq (view : BufferArrayView) (block : Bytes) {pos : ℕ} (hpos : pos ≤ block.length) :
    copyCache view view.buffers.length 0 block pos =
      if view.buffers.length ≤ 1 then memcpy block pos view.buffers.flatten else none := by
  obtain ⟨buffers, hsize⟩ := view
  cases buffers with
  | nil =>
    have hmem : memcpy block pos [] = some (overwrite block pos []) :=
      memcpy_eq_some (by simpa using hpos)
    simp [copyCache, hmem]
  | cons data buffers =>
    cases buffers with
    | nil =>
      refine Eq.trans ?_ (if_pos le_rfl).symm
      rw [List.flatten_singleton]
      show (memcpy block pos data >>= fun block => some block) = _
      cases memcpy block pos data <;> rfl
    | cons data' buffers =>
      refine Eq.trans ?_ (if_neg (by simp)).symm
      show (memcpy block pos data >>= fun _ => none) = none
      cases memcpy block pos data <;> rfl

/-- A cached serialization that the copy loop copies within its bounds, into `room` bytes. -/
def Copyable (m : Payload) (room : ℕ) : Prop :=
  ∀ view, m.cache = some view → view.buffers.length ≤ 1 ∧ view.bufferSize ≤ room

/-- **The payload**: the length, the header and the data, and the rest of the block. -/
theorem Loaned.payload_eq {bits : ℕ} {c : Bytes} (h : Loaned header m bits s c)
    (hheaderLen : u.headerLen = header.length) :
    (Copyable m (c.length - (4 + header.length)) ∧
      u.payload s = some (leBytes 4 (u.pkgLen s.msgSize).toNat ++ (header ++ m.body) ++
        c.drop (4 + (header ++ m.body).length))) ∨
    (¬ Copyable m (c.length - (4 + header.length)) ∧ u.payload s = none) := by
  have hwritten := h.written
  have hroom := h.room
  cases hcache : m.cache with
  | none =>
    rw [hcache] at hwritten
    obtain ⟨hptr, hblock, hfit⟩ := hwritten
    refine Or.inl ⟨fun view hview => (nomatch hcache.symm.trans hview), ?_⟩
    have hlen : (overwrite c 4 (header ++ m.body)).length = c.length := overwrite_length hfit
    rw [ShmUser.payload, hptr, hblock]
    show memcpy (overwrite c 4 (header ++ m.body)) 0 _ = _
    rw [memcpy_eq_some (by rw [hlen, leBytes_length]; omega),
      overwrite_front (leBytes_length _ _) hfit]
  | some view =>
    rw [hcache] at hwritten
    obtain ⟨hptr, hblock, -⟩ := hwritten
    have hbody := Payload.body_of_cached hcache
    have hcopyable : Copyable m (c.length - (4 + header.length)) ↔
        view.buffers.length ≤ 1 ∧ view.bufferSize ≤ c.length - (4 + header.length) := by
      refine ⟨fun hm => hm view hcache, fun hm view' hview' => ?_⟩
      obtain rfl := Option.some.inj (hcache.symm.trans hview')
      exact hm
    have hsize : view.bufferSize = m.body.length := by
      rw [hbody]
      rfl
    have hlen : (overwrite c 4 header).length = c.length := overwrite_length hroom
    rw [ShmUser.payload, hptr, hblock, hheaderLen, hcopyable, hsize]
    simp only [copyCache_eq view (overwrite c 4 header) (hlen.symm ▸ hroom)]
    by_cases hone : view.buffers.length ≤ 1
    swap
    · rw [if_neg hone]
      exact Or.inr ⟨fun hc => hone hc.1, rfl⟩
    rw [if_pos hone, ← hbody]
    by_cases hfit : m.body.length ≤ c.length - (4 + header.length)
    swap
    · rw [memcpy_eq_none (by rw [hlen]; omega)]
      exact Or.inr ⟨fun hc => hfit hc.2, rfl⟩
    have hfit' : 4 + (header ++ m.body).length ≤ c.length := by
      rw [List.length_append]
      omega
    rw [memcpy_eq_some (by rw [hlen]; omega), overwrite_overwrite hroom]
    have hlen' : (overwrite c 4 (header ++ m.body)).length = c.length := overwrite_length hfit'
    refine Or.inl ⟨⟨hone, hfit⟩, ?_⟩
    show memcpy (overwrite c 4 (header ++ m.body)) 0 _ = _
    rw [memcpy_eq_some (by rw [hlen', leBytes_length]; omega),
      overwrite_front (leBytes_length _ _) hfit']

/-- A message that is copied or serialized into its block fits into it. -/
theorem Loaned.length_le {bits : ℕ} {c : Bytes} (h : Loaned header m bits s c)
    (hcopy : Copyable m (c.length - (4 + header.length))) :
    4 + (header ++ m.body).length ≤ c.length := by
  have hwritten := h.written
  have hroom := h.room
  cases hcache : m.cache with
  | none =>
    rw [hcache] at hwritten
    exact hwritten.2.2
  | some view =>
    have hle := (hcopy view hcache).2
    have hbody : m.body.length = view.bufferSize := by
      rw [Payload.body_of_cached hcache]
      rfl
    rw [List.length_append, hbody]
    omega

/-! ### Sending -/

/-- The message is published, or its serialization fails by itself. -/
def SendOutcome.Delivered (o : SendOutcome) : Prop :=
  (∃ payload, o = .shm (some payload)) ∨ (∃ frame, o = .net frame) ∨ o = .serializationFailed

theorem not_delivered_thrown : ¬ SendOutcome.thrown.Delivered := by
  rintro (⟨_, h⟩ | ⟨_, h⟩ | h) <;> cases h

theorem not_delivered_shm_none : ¬ (SendOutcome.shm none).Delivered := by
  rintro (⟨_, h⟩ | ⟨_, h⟩ | h) <;> cases h

/-- What is sent without shared memory: the serialization fails by itself, or there is a frame. -/
def NetDelivers (header : Bytes) (fits : Prop) (netLimit : ℕ) (m : Payload) : Prop :=
  m.trySerialize = none ∨ fits ∧ 4 + (header ++ m.body).length < netLimit

theorem ShmUser.Lawful.sendNet_delivered (hu : u.Lawful header fits netLimit) :
    (u.sendNet m).Delivered ↔ NetDelivers header fits netLimit m := by
  unfold sendNet NetDelivers
  cases hser : m.trySerialize with
  | none => exact ⟨fun _ => Or.inl rfl, fun _ => Or.inr (Or.inr rfl)⟩
  | some bufferArray =>
    rw [← Payload.flatten_of_trySerialize hser]
    dsimp only
    cases hframe : u.netFrame bufferArray with
    | none =>
      refine ⟨fun h => absurd h not_delivered_thrown, fun h => ?_⟩
      rcases h with h | h
      · cases h
      · have := (hu.netFrame bufferArray _).2 ⟨h.1, h.2, rfl⟩
        rw [hframe] at this
        cases this
    | some frame =>
      obtain ⟨hfits, hlimit, -⟩ := (hu.netFrame bufferArray frame).1 hframe
      exact ⟨fun _ => Or.inr ⟨hfits, hlimit⟩, fun _ => Or.inr (Or.inl ⟨frame, rfl⟩)⟩

/-- When sending ends with the message published.  If the first loan is refused, a frame has to do.
If it is granted, the header has to fit into the remembered size.  Then a cached serialization that is
small enough has to be one that the copy loop can copy; one that is too large ends as a frame, unless
the new size wraps around and is granted; and without one the provider has to grant a block that is
large enough, or a frame has to do. -/
def Delivers (header : Bytes) (fits : Prop) (netLimit bits : ℕ) (p : Provider) (m : Payload)
    (size : ℕ) : Prop :=
  (¬ p.Grants 0 0 size ∧ NetDelivers header fits netLimit m) ∨
  (p.Grants 0 0 size ∧ fits ∧ 4 + header.length ≤ size ∧
    match m.cache with
    | some view =>
      let msgSize := view.bufferSize % 2 ^ bits
      (msgSize ≤ size - (4 + header.length) ∧ Copyable m (size - (4 + header.length))) ∨
      (¬ msgSize ≤ size - (4 + header.length) ∧ NetDelivers header fits netLimit m ∧
        ¬ (2 ^ bits ≤ 4 + header.length + msgSize ∧
          p.Grants 1 size ((4 + header.length + msgSize) % 2 ^ bits)))
    | none =>
      NetDelivers header fits netLimit m ∨
        p.GrantsUpTo (4 + header.length + m.serialization.asked) 0 0 size)

/-- **Sending ends**, after no more rounds than the provider has bytes. -/
theorem ShmUser.Lawful.send_ends (hu : u.Lawful header fits netLimit) (size : UInt64) :
    ∃ r, ∀ fuel, p.capacity < fuel → u.send p m size fuel = some r := by
  obtain ⟨r, hr⟩ := hu.loop_ends (m := m) (p.capacity + 1) (.init size)
    (Nat.lt_succ_of_le (Nat.sub_le _ _))
  refine ⟨u.afterLoop m r, fun fuel hfuel => ?_⟩
  have := loop_add hr (fuel - (p.capacity + 1))
  rw [Nat.add_sub_cancel' hfuel] at this
  rw [send, this]
  rfl

/-- The end of the loop behind an end of sending. -/
theorem ShmUser.loop_of_send {size : UInt64} {run : ShmRun}
    (h : u.send p m size fuel = some run) :
    ∃ s stop, u.loop p m fuel (.init size) = some (s, stop) ∧ run = u.afterLoop m (s, stop) := by
  obtain ⟨⟨s, stop⟩, hloop, hrun⟩ := Option.map_eq_some_iff.1 h
  exact ⟨s, stop, hloop, hrun.symm⟩

/-- What is put is what the loop has left in the block. -/
theorem Loaned.delivered_iff {bits : ℕ} {c : Bytes} (h : Loaned header m bits s c)
    (hheaderLen : u.headerLen = header.length) :
    (SendOutcome.shm (u.payload s)).Delivered ↔ Copyable m (c.length - (4 + header.length)) := by
  rcases h.payload_eq hheaderLen with ⟨hcopy, hpayload⟩ | ⟨hcopy, hpayload⟩
  · rw [hpayload]
    exact ⟨fun _ => hcopy, fun _ => Or.inl ⟨_, rfl⟩⟩
  · rw [hpayload]
    exact ⟨fun hd => absurd hd not_delivered_shm_none, fun hc => absurd hc hcopy⟩

/-- **When the message is delivered.** -/
theorem ShmUser.Lawful.send_delivered (hu : u.Lawful header fits netLimit) {size : UInt64}
    {run : ShmRun} (h : u.send p m size fuel = some run) :
    run.outcome.Delivered ↔ Delivers header fits netLimit u.msgSizeBits p m size.toNat := by
  obtain ⟨s, stop, hloop, rfl⟩ := loop_of_send h
  unfold Delivers
  by_cases hgrants : p.Grants 0 0 size.toNat
  swap
  · obtain ⟨rfl, rfl⟩ := Prod.mk.inj (loop_refused hgrants hloop)
    show (u.sendNet m).Delivered ↔ _
    rw [hu.sendNet_delivered]
    exact ⟨fun hd => Or.inl ⟨hgrants, hd⟩, fun hd => hd.elim And.right fun hd => absurd hd.1 hgrants⟩
  by_cases hheader : fits ∧ 4 + header.length ≤ size.toNat
  swap
  · obtain ⟨rfl, -⟩ := hu.loop_thrown hgrants hheader hloop
    refine ⟨fun hd => absurd hd not_delivered_thrown, fun hd => ?_⟩
    rcases hd with hd | hd
    · exact absurd hgrants hd.1
    · exact absurd ⟨hd.2.1, hd.2.2.1⟩ hheader
  obtain ⟨hfits, hroom⟩ := hheader
  -- what is left of the condition
  rw [or_iff_right fun hc => hc.1 hgrants, and_iff_right hgrants, and_iff_right hfits,
    and_iff_right hroom]
  cases hcache : m.cache with
  | some view =>
    dsimp only
    by_cases hmsg : view.bufferSize % 2 ^ u.msgSizeBits ≤ size.toNat - (4 + header.length)
    · obtain ⟨rfl, -, c, hlen, hloaned⟩ :=
        hu.loop_cached_fits hcache hgrants hfits hroom hmsg hloop
      have hd := hloaned.delivered_iff hu.headerLen
      rw [hlen] at hd
      refine hd.trans ⟨fun hc => Or.inl ⟨hmsg, hc⟩, fun hc => ?_⟩
      exact hc.elim And.right fun hc => absurd hmsg hc.1
    · obtain ⟨hstop, hthrown⟩ := hu.loop_cached_large hcache hgrants hfits hroom hmsg hloop
      rcases hstop with rfl | rfl
      · have hwrap := mt hthrown.2 nofun
        refine hu.sendNet_delivered.trans ⟨fun hc => Or.inr ⟨hmsg, hc, hwrap⟩, fun hc => ?_⟩
        exact hc.elim (fun hc => absurd hc.1 hmsg) fun hc => hc.2.1
      · have hwrap := hthrown.1 rfl
        refine ⟨fun hd => absurd hd not_delivered_thrown, fun hc => ?_⟩
        exact hc.elim (fun hc => absurd hc.1 hmsg) fun hc => absurd hwrap hc.2.2
  | none =>
    dsimp only
    have hserialize := hu.loop_serialize (s := .init size) hcache hfits rfl hroom hloop
    rcases hserialize with ⟨hgranted, hend⟩ | ⟨hrefused, hend⟩
    · refine ⟨fun _ => Or.inr hgranted, fun _ => ?_⟩
      cases hok : m.serialization.ok with
      | false =>
        simp only [hok, Bool.false_eq_true, if_false] at hend
        subst hend
        exact Or.inr (Or.inr rfl)
      | true =>
        simp only [hok, if_true] at hend
        obtain ⟨rfl, c, hloaned⟩ := hend
        refine (hloaned.delivered_iff hu.headerLen).2 fun view hview => ?_
        exact absurd (hcache.symm.trans hview) nofun
    · obtain rfl : stop = some .poolNotEnough := hend
      refine hu.sendNet_delivered.trans ⟨Or.inl, fun hc => hc.elim id fun hg => absurd hg hrefused⟩

/-- The first block is large enough for what is sent: it is the one that is put. -/
def FirstFits (header : Bytes) (bits : ℕ) (m : Payload) (size : ℕ) : Prop :=
  match m.cache with
  | some view => view.bufferSize % 2 ^ bits ≤ size - (4 + header.length)
  | none => m.serialization.ok = true ∧ 4 + header.length + m.serialization.asked ≤ size

theorem acquired_settled_iff {n : ℕ} : (acquired n).Settled ↔ n = 0 := by
  constructor
  · intro h
    by_contra hn
    have := h 0 (List.mem_map_of_mem (List.mem_range.2 (Nat.pos_of_ne_zero hn)))
    rw [acquired, Ledger.disposals_eq_zero_of_acquires] at this
    cases this
  · rintro rfl
    exact Ledger.settled_nil

/-- Only the last block is handed over. -/
theorem acquired_handOver_settled_iff {n : ℕ} (hn : 0 < n) :
    (acquired n ++ [Transfer.handOver (n - 1)]).Settled ↔ n = 1 := by
  have hdisposals : ∀ i, Ledger.disposals (acquired n ++ [Transfer.handOver (n - 1)]) i =
      if n - 1 = i then 1 else 0 := by
    intro i
    rw [Ledger.disposals_append, acquired, Ledger.disposals_eq_zero_of_acquires,
      Ledger.disposals_handOver, Nat.zero_add]
  constructor
  · intro h
    have := h 0 (List.mem_append_left _ (List.mem_map_of_mem (List.mem_range.2 hn)))
    rw [hdisposals] at this
    split at this
    · omega
    · cases this
  · rintro rfl i hi
    rw [hdisposals]
    have hi : i = 0 := by simpa [acquired] using hi
    rw [if_pos hi.symm]

/-- The loop ends with the first block if this is large enough. -/
theorem ShmUser.Lawful.round_init_ends (hu : u.Lawful header fits netLimit) {size : UInt64}
    (hgrants : p.Grants 0 0 size.toNat) :
    (∃ s', u.round p m (.init size) = (s', none) ∧ s'.isShmLoanSizeEnough = true) ↔
      fits ∧ 4 + header.length ≤ size.toNat ∧ FirstFits header u.msgSizeBits m size.toNat := by
  by_cases hheader : fits ∧ 4 + header.length ≤ size.toNat
  swap
  · rw [hu.round_thrown (s := .init size) hgrants hheader]
    refine ⟨?_, fun h => absurd ⟨h.1, h.2.1⟩ hheader⟩
    rintro ⟨s', h, -⟩
    cases h
  obtain ⟨hfits, hroom⟩ := hheader
  rw [and_iff_right hfits, and_iff_right hroom]
  unfold FirstFits
  cases hcache : m.cache with
  | some view =>
    rw [hu.round_init_cached hcache hgrants hfits hroom]
    dsimp only
    split
    · rename_i hmsg
      refine ⟨fun ⟨s', h, hflag⟩ => ?_, fun h => absurd h (Nat.not_le.2 hmsg)⟩
      rw [← (Prod.mk.inj h).1] at hflag
      cases hflag
    · rename_i hmsg
      exact ⟨fun _ => Nat.not_lt.1 hmsg, fun _ => ⟨_, rfl, rfl⟩⟩
  | none =>
    have hround : u.round p m (.init size) = _ :=
      hu.round_written (s := .init size) (m := m) hgrants hfits hroom
    have hserialize := hu.serialize_eq (s := .init size) (p := p) hcache hroom
    rw [hround]
    by_cases hasked : 4 + header.length + m.serialization.asked ≤ (LoopState.init size).loanSize
    · rw [if_pos hasked] at hserialize
      rw [hserialize]
      cases hok : m.serialization.ok with
      | false =>
        simp only [Bool.false_eq_true, if_false, false_and, iff_false]
        rintro ⟨s', h, -⟩
        cases h
      | true =>
        simp only [if_true, true_and]
        exact ⟨fun _ => hasked, fun _ => ⟨_, rfl, rfl⟩⟩
    · rw [if_neg hasked] at hserialize
      obtain ⟨block, hserialize⟩ := hserialize
      rw [hserialize]
      refine ⟨fun ⟨s', h, hflag⟩ => ?_, fun h => absurd h.2 hasked⟩
      rw [← (Prod.mk.inj h).1] at hflag
      cases hflag

/-- A loop that ends without a put leaves its blocks, and a put takes the last one of them. -/
theorem ShmUser.afterLoop_settled_iff {stop : Option Stop} {n : ℕ} (hn : s.ledger = acquired n) (hpos : 0 < n) :
    (u.afterLoop m (s, stop)).ledger.Settled ↔ stop = none ∧ n = 1 := by
  cases stop with
  | some stop =>
    have heq : (u.afterLoop m (s, some stop)).ledger = s.ledger := by cases stop <;> rfl
    rw [heq, hn, acquired_settled_iff]
    exact iff_of_false (Nat.pos_iff_ne_zero.1 hpos) fun h => nomatch h.1
  | none =>
    have heq : (u.afterLoop m (s, none)).ledger = acquired n ++ [Transfer.handOver (n - 1)] := by
      show s.ledger ++ [Transfer.handOver (s.ledger.length - 1)] = _
      rw [hn, acquired_length]
    rw [heq, acquired_handOver_settled_iff hpos, and_iff_right rfl]

/-- **What a run leaves behind**: nothing if no block was loaned, or the only one was put. -/
theorem ShmUser.Lawful.send_settled (hu : u.Lawful header fits netLimit) {size : UInt64}
    {run : ShmRun} (h : u.send p m size fuel = some run) :
    run.ledger.Settled ↔ ¬ p.Grants 0 0 size.toNat ∨
      (fits ∧ 4 + header.length ≤ size.toNat ∧ FirstFits header u.msgSizeBits m size.toNat) := by
  obtain ⟨s, stop, hloop, rfl⟩ := loop_of_send h
  by_cases hgrants : p.Grants 0 0 size.toNat
  swap
  · obtain ⟨rfl, rfl⟩ := Prod.mk.inj (loop_refused hgrants hloop)
    exact ⟨fun _ => Or.inl hgrants, fun _ => Ledger.settled_nil⟩
  rw [← hu.round_init_ends hgrants]
  cases fuel with
  | zero => cases hloop
  | succ fuel =>
    rw [loop] at hloop
    cases hround : u.round p m (.init size) with
    | mk s₁ stop₁ =>
      rw [hround] at hloop
      rcases hu.round_takes hround with ⟨hno, -, -⟩ | ⟨-, -, hledger, -, -⟩
      · exact absurd hgrants hno
      have hledger : s₁.ledger = acquired 1 := hledger
      cases stop₁ with
      | some stop₁ =>
        obtain ⟨rfl, rfl⟩ := Prod.mk.inj (Option.some.inj hloop)
        refine iff_of_false (fun hs => ?_) ?_
        · cases ((afterLoop_settled_iff hledger Nat.one_pos).1 hs).1
        · rintro (hno | ⟨s', h, -⟩)
          · exact hno hgrants
          · cases h
      | none =>
        simp only [] at hloop
        split at hloop
        · rename_i hflag
          obtain ⟨rfl, rfl⟩ := Prod.mk.inj (Option.some.inj hloop)
          exact ⟨fun _ => Or.inr ⟨s₁, rfl, hflag⟩,
            fun _ => (afterLoop_settled_iff hledger Nat.one_pos).2 ⟨rfl, rfl⟩⟩
        · rename_i hflag
          obtain ⟨n, hn, hle, hlt⟩ := hu.loop_ledger hloop hledger
          have hends : ¬ (¬ p.Grants 0 0 size.toNat ∨
              ∃ s', (s₁, (none : Option Stop)) = (s', none) ∧ s'.isShmLoanSizeEnough = true) := by
            rintro (hno | ⟨s', heq, hflag'⟩)
            · exact hno hgrants
            · rw [← (Prod.mk.inj heq).1] at hflag'
              exact hflag hflag'
          refine ⟨fun hs => ?_, fun hc => absurd hc hends⟩
          obtain ⟨rfl, hone⟩ := (afterLoop_settled_iff hn hle).1 hs
          have := hlt (by simp)
          omega

/-- Nothing is written outside a block before it is put. -/
theorem ShmUser.Lawful.loop_ne_undefined (hu : u.Lawful header fits netLimit) {size : UInt64}
    (h : u.loop p m fuel (.init size) = some r) : r.2 ≠ some .undefined := by
  rcases hu.loop_cases h with (hstop | hstop | hstop) | ⟨hstop, -⟩ <;> rw [hstop] <;> exact nofun

theorem ShmUser.sendNet_cases (u : ShmUser) (m : Payload) : u.sendNet m = .serializationFailed ∨
    u.sendNet m = .thrown ∨ ∃ frame, u.sendNet m = .net frame := by
  unfold sendNet
  split
  · exact Or.inl rfl
  · split
    · exact Or.inr (Or.inl rfl)
    · exact Or.inr (Or.inr ⟨_, rfl⟩)

theorem ShmUser.sendNet_ne_undefined (u : ShmUser) (m : Payload) : u.sendNet m ≠ .undefined := by
  rcases u.sendNet_cases m with h | h | ⟨_, h⟩ <;> rw [h] <;> exact nofun

theorem ShmUser.sendNet_ne_shm (u : ShmUser) (m : Payload) (payload : Option Bytes) :
    u.sendNet m ≠ .shm payload := by
  rcases u.sendNet_cases m with h | h | ⟨_, h⟩ <;> rw [h] <;> exact nofun

theorem ShmUser.Lawful.send_ne_undefined (hu : u.Lawful header fits netLimit) {size : UInt64}
    {run : ShmRun} (h : u.send p m size fuel = some run) : run.outcome ≠ .undefined := by
  obtain ⟨s, stop, hloop, rfl⟩ := loop_of_send h
  have hstop := hu.loop_ne_undefined hloop
  cases stop with
  | none => exact nofun
  | some stop =>
    cases stop with
    | poolNotEnough => exact u.sendNet_ne_undefined m
    | thrown => exact nofun
    | failed => exact nofun
    | undefined => exact absurd rfl hstop

/-- A message that is put through shared memory. -/
theorem ShmUser.Lawful.loaned_of_send (hu : u.Lawful header fits netLimit) {size : UInt64}
    {run : ShmRun} {payload : Option Bytes} (h : u.send p m size fuel = some run)
    (hrun : run.outcome = .shm payload) :
    ∃ s c, payload = u.payload s ∧ Loaned header m u.msgSizeBits s c ∧ fits ∧
      ((∃ view, m.cache = some view) → c.length = size.toNat) := by
  obtain ⟨s, stop, hloop, rfl⟩ := loop_of_send h
  have hstop : stop = none ∧ payload = u.payload s := by
    cases stop with
    | none => exact ⟨rfl, (SendOutcome.shm.inj hrun).symm⟩
    | some stop =>
      cases stop with
      | poolNotEnough => exact absurd hrun (u.sendNet_ne_shm m payload)
      | thrown => cases hrun
      | failed => cases hrun
      | undefined => cases hrun
  obtain ⟨rfl, rfl⟩ := hstop
  rcases hu.loop_cases hloop with (hstop | hstop | hstop) | ⟨-, hfits, c, hloaned, hlen⟩
  · cases hstop
  · cases hstop
  · cases hstop
  · exact ⟨s, c, rfl, hloaned, hfits, hlen⟩

/-- A provider of 64 bytes, for this thread alone. -/
def exampleProvider : Provider where
  capacity := 64
  capacity_lt := by decide
  others _ := 0
  content _ n := List.replicate n 0
  content_length _ _ := List.length_replicate

end AimRT.Zenoh
