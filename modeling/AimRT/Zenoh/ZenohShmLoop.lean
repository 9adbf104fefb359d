import AimRT.Zenoh.ZenohShm

/-!
# The loop of a sender through shared memory

The loop ends, since every round takes room from the provider.  Without a cached serialization it goes
on with blocks of doubled sizes; with one it puts the first block, or goes on until a loan is refused.
`ShmUser.Lawful.loop_cases` says what is in the block at its end.
-/

namespace AimRT.Zenoh

open AimRT.Lib AimRT.Util

variable {u : ShmUser} {header : Bytes} {fits : Prop} {netLimit : ℕ} {p : Provider} {m : Payload}
  {s : LoopState} {r : LoopState × Option Stop} {fuel : ℕ}

/-- More rounds than a loop needs change nothing. -/
theorem ShmUser.loop_add (h : u.loop p m fuel s = some r) (k : ℕ) :
    u.loop p m (fuel + k) s = some r := by
  induction fuel generalizing s with
  | zero => cases h
  | succ fuel ih =>
    rw [Nat.add_right_comm]
    rw [loop] at h ⊢
    cases hround : u.round p m s with
    | mk s' stop =>
      rw [hround] at h
      cases stop with
      | some stop => exact h
      | none =>
        simp only [] at h ⊢
        split
        · rename_i hflag
          rwa [if_pos hflag] at h
        · rename_i hflag
          rw [if_neg hflag] at h
          exact ih h

/-- **Termination.**  Every round takes at least the room of the header from the provider. -/
theorem ShmUser.Lawful.loop_ends (hu : u.Lawful header fits netLimit) (fuel : ℕ) :
    ∀ s : LoopState, p.capacity - s.held < fuel → ∃ r, u.loop p m fuel s = some r := by
  induction fuel with
  | zero => intro s h; omega
  | succ fuel ih =>
    intro s hfuel
    rw [loop]
    cases hround : u.round p m s with
    | mk s' stop =>
      cases stop with
      | some stop => exact ⟨_, rfl⟩
      | none =>
        simp only []
        split
        · exact ⟨_, rfl⟩
        rcases hu.round_takes hround with ⟨-, -, h⟩ | ⟨hgrants, hheld, -, -, hheader⟩
        · cases h
        have hroom := (hheader rfl).2
        unfold Provider.Grants at hgrants
        exact ih s' (by omega)

/-- A run of the loop has acquired its blocks one after the other. -/
def acquired (n : ℕ) : Ledger ℕ := (List.range n).map .acquire

theorem acquired_succ (n : ℕ) : acquired (n + 1) = acquired n ++ [Transfer.acquire n] := by
  rw [acquired, List.range_succ, List.map_append]
  rfl

@[simp] theorem acquired_length (n : ℕ) : (acquired n).length = n := by
  rw [acquired, List.length_map, List.length_range]

theorem ShmUser.Lawful.loop_ledger (hu : u.Lawful header fits netLimit)
    (h : u.loop p m fuel s = some r) {k : ℕ} (hs : s.ledger = acquired k) :
    ∃ n, r.1.ledger = acquired n ∧ k ≤ n ∧ (r.2 ≠ some .poolNotEnough → k < n) := by
  induction fuel generalizing s k with
  | zero => cases h
  | succ fuel ih =>
    rw [loop] at h
    cases hround : u.round p m s with
    | mk s' stop =>
      rw [hround] at h
      rcases hu.round_takes hround with ⟨-, rfl, rfl⟩ | ⟨-, -, hledger, -, -⟩
      · obtain rfl := Option.some.inj h
        exact ⟨k, hs, le_rfl, fun hne => absurd rfl hne⟩
      have hs' : s'.ledger = acquired (k + 1) := by
        rw [hledger, hs, acquired_length, acquired_succ]
      cases stop with
      | some stop =>
        obtain rfl := Option.some.inj h
        exact ⟨k + 1, hs', Nat.le_succ k, fun _ => Nat.lt_succ_self k⟩
      | none =>
        simp only [] at h
        split at h
        · obtain rfl := Option.some.inj h
          exact ⟨k + 1, hs', Nat.le_succ k, fun _ => Nat.lt_succ_self k⟩
        · obtain ⟨n, hn, hle, hlt⟩ := ih h hs'
          exact ⟨n, hn, by omega, fun hne => by have := hlt hne; omega⟩

/-- With a cached serialization that was too large, the loop goes on until a loan is refused. -/
theorem ShmUser.Lawful.loop_cachePtr (hu : u.Lawful header fits netLimit) (hfits : fits)
    {view : BufferArrayView} (hptr : s.bufferArrayCachePtr = some view)
    (hflag : s.isShmLoanSizeEnough = false) (hheader : 4 + header.length ≤ s.loanSize)
    (h : u.loop p m fuel s = some r) : r.2 = some .poolNotEnough := by
  induction fuel generalizing s with
  | zero => cases h
  | succ fuel ih =>
    rw [loop] at h
    by_cases hgrants : p.Grants s.ledger.length s.held s.loanSize
    · rw [hu.round_written hgrants hfits hheader, hptr] at h
      have hflag' : (s.written p header).isShmLoanSizeEnough = false := hflag
      simp only [hflag'] at h
      exact ih (s := s.written p header) hptr hflag' hheader h
    · rw [round_refused hgrants] at h
      obtain rfl := Option.some.inj h
      rfl

/-- The provider grants blocks of doubled sizes up to one of at least `need` bytes, to a thread that
holds `held` bytes in `i` blocks and asks for `size` bytes first. -/
def Provider.GrantsUpTo (p : Provider) (need i held size : ℕ) : Prop :=
  ∃ k, (∀ j ≤ k, p.Grants (i + j) (held + size * (2 ^ j - 1)) (size * 2 ^ j)) ∧ need ≤ size * 2 ^ k

theorem Provider.grantsUpTo_of_le {need i held size : ℕ} (h : p.Grants i held size)
    (hneed : need ≤ size) : p.GrantsUpTo need i held size := by
  refine ⟨0, fun j hj => ?_, by simpa using hneed⟩
  obtain rfl := Nat.le_zero.1 hj
  simpa using h

theorem Provider.not_grantsUpTo {need i held size : ℕ} (h : ¬ p.Grants i held size) :
    ¬ p.GrantsUpTo need i held size := by
  rintro ⟨k, hk, -⟩
  exact h (by simpa using hk 0 (Nat.zero_le k))

/-- The bytes of the blocks before the `j + 1`-th, and its size. -/
theorem doubled_succ (size j : ℕ) : size * (2 ^ (j + 1) - 1) = size + size * 2 * (2 ^ j - 1) ∧
    size * 2 ^ (j + 1) = size * 2 * 2 ^ j := by
  obtain ⟨y, hy⟩ : ∃ y, 2 ^ j = y + 1 := Nat.exists_eq_add_one.2 (Nat.two_pow_pos j)
  have hpow : 2 ^ (j + 1) - 1 = 2 * y + 1 := by
    rw [Nat.pow_succ, hy]
    omega
  constructor
  · rw [hpow, hy, Nat.add_sub_cancel]
    ring
  · ring

/-- After a block that is too small the next size is asked for. -/
theorem Provider.grantsUpTo_double {need i held size : ℕ} (h : p.Grants i held size)
    (hneed : ¬ need ≤ size) :
    p.GrantsUpTo need i held size ↔ p.GrantsUpTo need (i + 1) (held + size) (size * 2) := by
  have hshift : ∀ j, p.Grants (i + (j + 1)) (held + size * (2 ^ (j + 1) - 1)) (size * 2 ^ (j + 1)) ↔
      p.Grants (i + 1 + j) (held + size + size * 2 * (2 ^ j - 1)) (size * 2 * 2 ^ j) := by
    intro j
    obtain ⟨hbytes, hsize⟩ := doubled_succ size j
    rw [hbytes, hsize, Nat.add_assoc i, Nat.add_comm 1 j, Nat.add_assoc held]
  constructor
  · rintro ⟨k, hk, hle⟩
    cases k with
    | zero => exact absurd (by simpa using hle) hneed
    | succ k =>
      refine ⟨k, fun j hj => (hshift j).1 (hk (j + 1) (by omega)), ?_⟩
      rwa [(doubled_succ size k).2] at hle
  · rintro ⟨k, hk, hle⟩
    refine ⟨k + 1, fun j hj => ?_, ?_⟩
    · cases j with
      | zero => simpa using h
      | succ j => exact (hshift j).2 (hk j (by omega))
    · rwa [(doubled_succ size k).2]

/-- What is in the block behind the loop. -/
structure Loaned (header : Bytes) (m : Payload) (bits : ℕ) (s : LoopState) (c : Bytes) : Prop where
  room : 4 + header.length ≤ c.length
  length_lt : c.length < 2 ^ 63
  serialized : m.trySerialize.isSome
  msgSize : s.msgSize = m.body.length % 2 ^ bits
  written : match m.cache with
    | some view => s.bufferArrayCachePtr = some view ∧ s.block = overwrite c 4 header ∧
        s.msgSize ≤ c.length - (4 + header.length)
    | none => s.bufferArrayCachePtr = none ∧ s.block = overwrite c 4 (header ++ m.body) ∧
        4 + (header ++ m.body).length ≤ c.length

/-- **Without a cached serialization** the loop ends with a block that is large enough, if the provider
grants one before it refuses a loan. -/
theorem ShmUser.Lawful.loop_serialize (hu : u.Lawful header fits netLimit) (hcache : m.cache = none)
    (hfits : fits) (hptr : s.bufferArrayCachePtr = none) (hheader : 4 + header.length ≤ s.loanSize)
    (h : u.loop p m fuel s = some r) :
    (p.GrantsUpTo (4 + header.length + m.serialization.asked) s.ledger.length s.held s.loanSize ∧
      if m.serialization.ok then r.2 = none ∧ ∃ c, Loaned header m u.msgSizeBits r.1 c
      else r.2 = some .failed) ∨
    (¬ p.GrantsUpTo (4 + header.length + m.serialization.asked) s.ledger.length s.held s.loanSize ∧
      r.2 = some .poolNotEnough) := by
  induction fuel generalizing s with
  | zero => cases h
  | succ fuel ih =>
    rw [loop] at h
    by_cases hgrants : p.Grants s.ledger.length s.held s.loanSize
    swap
    · rw [round_refused hgrants] at h
      obtain rfl := Option.some.inj h
      exact Or.inr ⟨Provider.not_grantsUpTo hgrants, rfl⟩
    have hround := hu.round_written (m := m) hgrants hfits hheader
    rw [hptr] at hround
    have hserialize := hu.serialize_eq (p := p) hcache hheader
    by_cases hroom : 4 + header.length + m.serialization.asked ≤ s.loanSize
    · -- the block is large enough
      rw [if_pos hroom] at hserialize
      refine Or.inl ⟨Provider.grantsUpTo_of_le hgrants hroom, ?_⟩
      rw [hround] at h
      simp only [] at h
      rw [hserialize] at h
      cases hok : m.serialization.ok with
      | false =>
        simp only [hok, Bool.false_eq_true, if_false] at h ⊢
        obtain rfl := Option.some.inj h
        rfl
      | true =>
        simp only [hok, if_true] at h ⊢
        obtain rfl := Option.some.inj h
        have hlen := s.loan_block_length p
        have hbody := Payload.body_of_not_cached hcache
        have hle := m.serialization.body_length_le
        have hserialized : m.trySerialize.isSome := by
          rw [Payload.trySerialize, hcache, Serialization.result, if_pos hok]
          rfl
        refine ⟨rfl, (s.loan p).block, by rw [hlen]; exact hheader, by rw [hlen]; exact hgrants.lt,
          hserialized, by rw [hbody], ?_⟩
        rw [hcache]
        refine ⟨hptr, ?_, ?_⟩
        · rw [hbody]
          exact overwrite_overwrite (by rw [hlen]; exact hheader)
        · rw [hlen, hbody, List.length_append]
          omega
    · -- it is not, and the next round asks for twice the size
      rw [if_neg hroom] at hserialize
      obtain ⟨block, hserialize⟩ := hserialize
      rw [hround] at h
      simp only [] at h
      rw [hserialize] at h
      have hdouble : s.loanSize * 2 % 2 ^ 64 = s.loanSize * 2 := by
        have := hgrants.lt
        exact Nat.mod_eq_of_lt (by omega)
      simp only [hdouble, Bool.false_eq_true, if_false] at h
      rw [Provider.grantsUpTo_double hgrants hroom]
      have := ih (s := { s.written p header with
        block := block, loanSize := s.loanSize * 2, isShmLoanSizeEnough := false })
        hptr (by show 4 + header.length ≤ s.loanSize * 2; omega) h
      have hledger : (s.written p header).ledger.length = s.ledger.length + 1 := by
        show (s.ledger ++ [Transfer.acquire s.ledger.length]).length = _
        rw [List.length_append]
        rfl
      simp only [hledger] at this
      exact this

/-- The first round finds a cached serialization. -/
theorem ShmUser.Lawful.round_init_cached (hu : u.Lawful header fits netLimit) {size : UInt64}
    {view : BufferArrayView} (hcache : m.cache = some view) (hgrants : p.Grants 0 0 size.toNat)
    (hfits : fits) (hheader : 4 + header.length ≤ size.toNat) :
    u.round p m (.init size) =
      if view.bufferSize % 2 ^ u.msgSizeBits > size.toNat - (4 + header.length) then
        ({ (LoopState.init size).written p header with
            bufferArrayCachePtr := some view
            msgSize := view.bufferSize % 2 ^ u.msgSizeBits
            isShmLoanSizeEnough := false
            loanSize := (4 + header.length + view.bufferSize % 2 ^ u.msgSizeBits) %
              2 ^ u.msgSizeBits }, none)
      else
        ({ (LoopState.init size).written p header with
            bufferArrayCachePtr := some view
            msgSize := view.bufferSize % 2 ^ u.msgSizeBits
            isShmLoanSizeEnough := true }, none) := by
  rw [hu.round_written (s := .init size) hgrants hfits hheader]
  show u.serializeSupportedZenoh m _ _ = _
  rw [serializeSupportedZenoh, hcache, hu.headerLen]
  rfl

/-- A cached serialization that is not too large for the remembered size. -/
theorem ShmUser.Lawful.loop_cached_fits (hu : u.Lawful header fits netLimit) {size : UInt64}
    {view : BufferArrayView} (hcache : m.cache = some view) (hgrants : p.Grants 0 0 size.toNat)
    (hfits : fits) (hheader : 4 + header.length ≤ size.toNat)
    (hmsg : view.bufferSize % 2 ^ u.msgSizeBits ≤ size.toNat - (4 + header.length))
    (h : u.loop p m fuel (.init size) = some r) :
    r.2 = none ∧ r.1.ledger = acquired 1 ∧
      ∃ c, c.length = size.toNat ∧ Loaned header m u.msgSizeBits r.1 c := by
  cases fuel with
  | zero => cases h
  | succ fuel =>
    rw [loop, hu.round_init_cached hcache hgrants hfits hheader, if_neg (Nat.not_lt.2 hmsg)] at h
    obtain rfl := Option.some.inj h
    have hlen := (LoopState.init size).loan_block_length p
    have hbody := Payload.body_of_cached hcache
    have hserialized : m.trySerialize.isSome := by
      rw [Payload.trySerialize, hcache]
      rfl
    refine ⟨rfl, rfl, ((LoopState.init size).loan p).block, hlen, by rw [hlen]; exact hheader,
      by rw [hlen]; exact hgrants.lt, hserialized, by rw [hbody]; rfl, ?_⟩
    rw [hcache]
    exact ⟨rfl, rfl, by rw [hlen]; exact hmsg⟩

/-- A cached serialization that is too large: the loop ends when a loan is refused, or throws where
the new size has wrapped around and is granted. -/
theorem ShmUser.Lawful.loop_cached_large (hu : u.Lawful header fits netLimit) {size : UInt64}
    {view : BufferArrayView} (hcache : m.cache = some view) (hgrants : p.Grants 0 0 size.toNat)
    (hfits : fits) (hheader : 4 + header.length ≤ size.toNat)
    (hmsg : ¬ view.bufferSize % 2 ^ u.msgSizeBits ≤ size.toNat - (4 + header.length))
    (h : u.loop p m fuel (.init size) = some r) :
    (r.2 = some .poolNotEnough ∨ r.2 = some .thrown) ∧
      (r.2 = some .thrown ↔
        2 ^ u.msgSizeBits ≤ 4 + header.length + view.bufferSize % 2 ^ u.msgSizeBits ∧
        p.Grants 1 size.toNat ((4 + header.length + view.bufferSize % 2 ^ u.msgSizeBits) %
          2 ^ u.msgSizeBits)) := by
  cases fuel with
  | zero => cases h
  | succ fuel =>
    rw [loop, hu.round_init_cached hcache hgrants hfits hheader, if_pos (Nat.not_le.1 hmsg)] at h
    simp only [Bool.false_eq_true, if_false] at h
    by_cases hwrap : 2 ^ u.msgSizeBits ≤ 4 + header.length + view.bufferSize % 2 ^ u.msgSizeBits
    swap
    · -- the new size has room for the header
      have hstop := hu.loop_cachePtr hfits rfl rfl (by
        show 4 + header.length ≤ _ % _
        rw [Nat.mod_eq_of_lt (Nat.not_le.1 hwrap)]
        omega) h
      rw [hstop]
      exact ⟨Or.inl rfl, nofun, fun hthrown => absurd hthrown.1 hwrap⟩
    have hsmall : ¬ (fits ∧ 4 + header.length ≤
        (4 + header.length + view.bufferSize % 2 ^ u.msgSizeBits) % 2 ^ u.msgSizeBits) := by
      have hlt : view.bufferSize % 2 ^ u.msgSizeBits < 2 ^ u.msgSizeBits :=
        Nat.mod_lt _ (Nat.two_pow_pos _)
      rw [Nat.mod_eq_sub_mod hwrap]
      have := Nat.mod_le (4 + header.length + view.bufferSize % 2 ^ u.msgSizeBits -
        2 ^ u.msgSizeBits) (2 ^ u.msgSizeBits)
      rintro ⟨-, hle⟩
      omega
    cases fuel with
    | zero => cases h
    | succ fuel =>
      rw [loop] at h
      by_cases hagain : p.Grants 1 size.toNat
          ((4 + header.length + view.bufferSize % 2 ^ u.msgSizeBits) % 2 ^ u.msgSizeBits)
      · have hagain' : p.Grants 1 (0 + size.toNat)
            ((4 + header.length + view.bufferSize % 2 ^ u.msgSizeBits) % 2 ^ u.msgSizeBits) := by
          rwa [Nat.zero_add]
        rw [hu.round_thrown hagain' hsmall] at h
        obtain rfl := Option.some.inj h
        exact ⟨Or.inr rfl, fun _ => ⟨hwrap, hagain⟩, fun _ => rfl⟩
      · have hagain' : ¬ p.Grants 1 (0 + size.toNat)
            ((4 + header.length + view.bufferSize % 2 ^ u.msgSizeBits) % 2 ^ u.msgSizeBits) := by
          rwa [Nat.zero_add]
        rw [round_refused hagain'] at h
        obtain rfl := Option.some.inj h
        exact ⟨Or.inl rfl, nofun, fun hthrown => absurd hthrown.2 hagain⟩

theorem ShmUser.loop_refused {size : UInt64} (hgrants : ¬ p.Grants 0 0 size.toNat)
    (h : u.loop p m fuel (.init size) = some r) : r = (.init size, some .poolNotEnough) := by
  cases fuel with
  | zero => cases h
  | succ fuel =>
    rw [loop, round_refused (s := .init size) hgrants] at h
    exact (Option.some.inj h).symm

theorem ShmUser.Lawful.loop_thrown (hu : u.Lawful header fits netLimit) {size : UInt64}
    (hgrants : p.Grants 0 0 size.toNat) (hheader : ¬ (fits ∧ 4 + header.length ≤ size.toNat))
    (h : u.loop p m fuel (.init size) = some r) :
    r.2 = some .thrown ∧ r.1.ledger = acquired 1 := by
  cases fuel with
  | zero => cases h
  | succ fuel =>
    rw [loop, hu.round_thrown (s := .init size) hgrants hheader] at h
    obtain rfl := Option.some.inj h
    exact ⟨rfl, rfl⟩

/-- **How the loop ends**: with nothing to put, or with a block that holds the header and the data. -/
theorem ShmUser.Lawful.loop_cases (hu : u.Lawful header fits netLimit) {size : UInt64}
    (h : u.loop p m fuel (.init size) = some r) :
    (r.2 = some .poolNotEnough ∨ r.2 = some .thrown ∨ r.2 = some .failed) ∨
    (r.2 = none ∧ fits ∧ ∃ c, Loaned header m u.msgSizeBits r.1 c ∧
      ((∃ view, m.cache = some view) → c.length = size.toNat)) := by
  by_cases hgrants : p.Grants 0 0 size.toNat
  swap
  · rw [loop_refused hgrants h]
    exact Or.inl (Or.inl rfl)
  by_cases hheader : fits ∧ 4 + header.length ≤ size.toNat
  swap
  · exact Or.inl (Or.inr (Or.inl (hu.loop_thrown hgrants hheader h).1))
  obtain ⟨hfits, hroom⟩ := hheader
  cases hcache : m.cache with
  | some view =>
    by_cases hmsg : view.bufferSize % 2 ^ u.msgSizeBits ≤ size.toNat - (4 + header.length)
    · obtain ⟨hstop, -, c, hlen, hloaned⟩ := hu.loop_cached_fits hcache hgrants hfits hroom hmsg h
      exact Or.inr ⟨hstop, hfits, c, hloaned, fun _ => hlen⟩
    · have hstop := (hu.loop_cached_large hcache hgrants hfits hroom hmsg h).1
      exact Or.inl (hstop.imp_right Or.inl)
  | none =>
    rcases hu.loop_serialize (s := .init size) hcache hfits rfl hroom h with ⟨-, hend⟩ | ⟨-, hend⟩
    · split at hend
      · obtain ⟨hstop, c, hloaned⟩ := hend
        exact Or.inr ⟨hstop, hfits, c, hloaned, fun ⟨view, hview⟩ => nomatch hview⟩
      · exact Or.inl (Or.inr (Or.inr hend))
    · exact Or.inl (Or.inl hend)

end AimRT.Zenoh
