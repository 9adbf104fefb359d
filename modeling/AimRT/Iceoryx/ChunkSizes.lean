import AimRT.Iceoryx.IceoryxChannelBackend
import AimRT.Lib.Run

/-!
# The sizes of the chunks

The threads that publish to one topic share `shm_size_`, which `LoanShm` and `UpdateLoanShm` double until it is large
enough, under the mutex of the publisher.  A message that does not fit its chunk is written again, into a chunk of at
least twice the size.

So a `Publish` is over after a few rounds, as long as the doubling arrives (`Reaches`).  It never does from a size of
0, and beyond `2 ^ 63` it depends on the size it starts from; the thread then stays in the loop, and with it the mutex.
-/

namespace AimRT.Iceoryx

open AimRT.Lib AimRT.Lib.Run AimRT.Util AimRT.Channel

/-! ### Doubling -/

/-- Some doubling of the size is enough, in 64 bits. -/
def Reaches (minSize shmSize : UInt64) : Prop := ∃ k : ℕ, minSize.toNat ≤ shmSize.toNat * 2 ^ k % 2 ^ 64

namespace IoxPublisher

variable {fuel k : ℕ} {minSize shmSize shmSize' : UInt64}

theorem double_mod (shmSize : UInt64) (k : ℕ) :
    (shmSize * 2).toNat * 2 ^ k % 2 ^ 64 = shmSize.toNat * 2 ^ (k + 1) % 2 ^ 64 := by
  rw [UInt64.toNat_mul, pow_succ' 2 k, ← mul_assoc]
  exact (Nat.mod_modEq _ _).mul_right (2 ^ k)

theorem isSome_grow (hk : minSize.toNat ≤ shmSize.toNat * 2 ^ k % 2 ^ 64) (hlt : k < fuel) :
    (grow fuel minSize shmSize).isSome := by
  induction fuel generalizing shmSize k with
  | zero => exact absurd hlt (Nat.not_lt_zero _)
  | succ fuel ih =>
    rw [grow]
    split
    · rename_i hgt
      cases k with
      | zero =>
        rw [pow_zero, mul_one, Nat.mod_eq_of_lt shmSize.toNat_lt] at hk
        exact absurd (UInt64.lt_iff_toNat_lt.1 hgt) (Nat.not_lt.2 hk)
      | succ k => exact ih (by rw [double_mod]; exact hk) (Nat.lt_of_succ_lt_succ hlt)
    · rfl

theorem reaches_of_grow (h : grow fuel minSize shmSize = some shmSize') : Reaches minSize shmSize := by
  induction fuel generalizing shmSize with
  | zero => cases h
  | succ fuel ih =>
    rw [grow] at h
    split at h
    · obtain ⟨k, hk⟩ := ih h
      exact ⟨k + 1, by rwa [double_mod] at hk⟩
    · rename_i hle
      refine ⟨0, ?_⟩
      rw [pow_zero, mul_one, Nat.mod_eq_of_lt shmSize.toNat_lt]
      exact UInt64.le_iff_toNat_le.1 (UInt64.not_lt.1 hle)

/-- 64 doublings leave nothing of a size, so that no more of them have to be looked at. -/
theorem isSome_grow_of_reaches (h : Reaches minSize shmSize) : (grow 65 minSize shmSize).isSome := by
  obtain ⟨k, hk⟩ := h
  by_cases hlt : k < 65
  · exact isSome_grow hk hlt
  · have hzero : shmSize.toNat * 2 ^ k % 2 ^ 64 = 0 := by
      refine Nat.mod_eq_zero_of_dvd (Dvd.dvd.mul_left (pow_dvd_pow 2 ?_) _)
      omega
    rw [hzero] at hk
    exact isSome_grow (k := 0) (hk.trans (Nat.zero_le _)) (by omega)

/-- The loop ends. -/
theorem exists_isSome_grow_iff : (∃ fuel, (grow fuel minSize shmSize).isSome) ↔ Reaches minSize shmSize := by
  constructor
  · rintro ⟨fuel, hsome⟩
    obtain ⟨shmSize', hgrow⟩ := Option.isSome_iff_exists.1 hsome
    exact reaches_of_grow hgrow
  · intro h
    exact ⟨65, isSome_grow_of_reaches h⟩

theorem ne_zero_of_grow (hne : shmSize ≠ 0) (h : grow fuel minSize shmSize = some shmSize') : shmSize' ≠ 0 := by
  cases fuel with
  | zero => cases h
  | succ fuel =>
    have hle := le_of_grow h
    rw [grow] at h
    split at h
    · rename_i hgt
      rintro rfl
      exact UInt64.not_lt.2 hle (UInt64.lt_of_le_of_lt (UInt64.zero_le ..) hgt)
    · obtain rfl := Option.some.inj h
      exact hne

/-- From any size but 0 the doubling gets to between `2 ^ 63` and `2 ^ 64`. -/
theorem reaches_of_ne_zero (hne : shmSize ≠ 0) (hle : minSize.toNat ≤ 2 ^ 63) : Reaches minSize shmSize := by
  have hpos : shmSize.toNat ≠ 0 := fun hzero => hne (UInt64.toNat_inj.1 hzero)
  have hlog : Nat.log 2 shmSize.toNat < 64 := Nat.log_lt_of_lt_pow hpos shmSize.toNat_lt
  have hlow : 2 ^ 63 ≤ shmSize.toNat * 2 ^ (63 - Nat.log 2 shmSize.toNat) := by
    calc 2 ^ 63 = 2 ^ Nat.log 2 shmSize.toNat * 2 ^ (63 - Nat.log 2 shmSize.toNat) := by
          rw [← pow_add, Nat.add_sub_of_le (by omega)]
      _ ≤ _ := Nat.mul_le_mul_right _ (Nat.pow_log_le_self 2 hpos)
  have hhigh : shmSize.toNat * 2 ^ (63 - Nat.log 2 shmSize.toNat) < 2 ^ 64 := by
    calc shmSize.toNat * 2 ^ (63 - Nat.log 2 shmSize.toNat)
        < 2 ^ (Nat.log 2 shmSize.toNat + 1) * 2 ^ (63 - Nat.log 2 shmSize.toNat) :=
          Nat.mul_lt_mul_of_pos_right (Nat.lt_pow_succ_log_self (by omega) _) (Nat.two_pow_pos _)
      _ = 2 ^ 64 := by rw [← pow_add, show Nat.log 2 shmSize.toNat + 1 + (63 - Nat.log 2 shmSize.toNat) = 64 by omega]
  refine ⟨63 - Nat.log 2 shmSize.toNat, ?_⟩
  rw [Nat.mod_eq_of_lt hhigh]
  exact hle.trans hlow

end IoxPublisher

/-! ### The threads of a topic -/

/-- What iceoryx answers to `loan`: an error, or a chunk with something in it. -/
inductive Loan where
  | refused
  | granted (memory : ℕ → UInt8)

/-- Where a thread is: outside `Publish`, or in its loop with a chunk, after chunks of other sizes, the last one first;
or in the loop of `LoanShm` or `UpdateLoanShm` for ever. -/
inductive Place where
  | idle
  | writing (msg : ShmMsgWrapper) (chunk : Bytes) (earlier : List ℕ)
  | doubling (minSize shmSize : UInt64)

/-- The publishers by their URLs: `shmSize` is `shm_size_`, and `held` says that a thread keeps the mutex for ever. -/
structure Publishing where
  shmSize : Bytes → UInt64
  held : Bytes → Bool := fun _ => false
  places : ℕ → Place := fun _ => .idle

/-- A thread calls `Publish` and gets to its first chunk; or it writes its message and does what follows on it. -/
inductive Publishing.Op where
  | publish (t : ℕ) (msg : ShmMsgWrapper) (checkMsg : Bool) (loan : Loan)
  | round (t : ℕ) (loan : Loan)

/-- What `Publish` asks `LoanShm` for; nothing where it throws before. -/
def IceoryxChannelBackend.firstSize (b : IceoryxChannelBackend) (msg : ShmMsgWrapper) (checkMsg : Bool) :
    Option UInt64 :=
  if b.state ≠ .start then none
  else if !b.getPublisher (iceoryxPubTopic msg) then none
  else if msg.metaKeyValsArray.length / 2 > 255 then none
  else
    match msg.content.cache with
    | some view => some (UInt64.ofNat (4 + msg.typeAndCtxLen + view.bufferSize))
    | none => if checkMsg then some (UInt64.ofNat (4 + msg.typeAndCtxLen)) else none

namespace Publishing

def init (shmInitSize : UInt64) : Publishing := { shmSize := fun _ => shmInitSize }

/-- The thread goes on at `p`. -/
def go (s : Publishing) (t : ℕ) (p : Place) : Publishing := { s with places := Function.update s.places t p }

/-- `LoanShm` or `UpdateLoanShm` of the thread `t`, which goes on at `next` with its chunk.  Without one it throws. -/
def loan (s : Publishing) (t : ℕ) (url : Bytes) (minSize : UInt64) (answer : Loan) (next : Bytes → Place) :
    Publishing :=
  match IoxPublisher.grow 65 minSize (s.shmSize url) with
  | none => { s.go t (.doubling minSize (s.shmSize url)) with held := Function.update s.held url true }
  | some shmSize =>
    { s.go t (match answer with
        | .refused => .idle
        | .granted memory => next ((List.range shmSize.toNat).map memory)) with
      shmSize := Function.update s.shmSize url shmSize }

/-- A cached serialization is written and published, or an exception leaves `Publish`, in a single step; nothing of this
changes a size. -/
def next (msg : ShmMsgWrapper) (chunk : Bytes) : Place :=
  if msg.content.cache.isSome then .idle else .writing msg chunk []

/-- One step; a thread that needs the mutex while another one keeps it goes no further. -/
def step (b : IceoryxChannelBackend) (s : Publishing) : Op → Publishing
  | .publish t msg checkMsg answer =>
    match s.places t, b.firstSize msg checkMsg with
    | .idle, some minSize =>
      if s.held (iceoryxPubTopic msg) then s else s.loan t (iceoryxPubTopic msg) minSize answer (next msg)
    | _, _ => s
  | .round t answer =>
    match s.places t with
    | .writing msg chunk earlier =>
      if s.held (iceoryxPubTopic msg) then s
      else
        match serializeInto msg msg.content.serialization chunk with
        | .outOfMemory =>
          s.loan t (iceoryxPubTopic msg) (UInt64.ofNat (chunk.length * 2)) answer fun chunk' =>
            .writing msg chunk' (chunk.length :: earlier)
        | _ => s.go t .idle
    | _ => s

/-! ### What is promised -/

/-- Every chunk is at least twice as large as the one before it. -/
def Doubled (sizes : List ℕ) : Prop := sizes.IsChain fun size before => 2 * before ≤ size

/-- The bytes that a message needs in a chunk. -/
def needed (msg : ShmMsgWrapper) : ℕ := 4 + msg.typeAndCtxLen + msg.content.serialization.asked

/-- A thread is not in a loop for ever: its message has been written again a bounded number of times only, and the
doubling ends. -/
def Ends : Place → Prop
  | .idle => True
  | .writing msg chunk earlier => Doubled (chunk.length :: earlier) ∧ 2 ^ earlier.length ≤ needed msg
  | .doubling minSize shmSize => ∃ fuel, (IoxPublisher.grow fuel minSize shmSize).isSome

def AllEnd (s : Publishing) : Prop := ∀ t, Ends (s.places t)

/-- The doubling gets to the size that is asked for, and this is twice that of the chunk which was too small: twice the
size does not wrap around, or there is no other chunk. -/
def Meets (b : IceoryxChannelBackend) (s : Publishing) : Op → Prop
  | .publish t msg checkMsg _ => s.places t = .idle → ∀ minSize, b.firstSize msg checkMsg = some minSize →
      Reaches minSize (s.shmSize (iceoryxPubTopic msg))
  | .round t answer => ∀ msg chunk earlier, s.places t = .writing msg chunk earlier →
      serializeInto msg msg.content.serialization chunk = .outOfMemory →
        Reaches (UInt64.ofNat (chunk.length * 2)) (s.shmSize (iceoryxPubTopic msg)) ∧
          (answer = .refused ∨ chunk.length * 2 < 2 ^ 64)

/-! ### Rounds -/

variable {b : IceoryxChannelBackend} {s : Publishing} {t : ℕ} {msg : ShmMsgWrapper} {chunk : Bytes}
  {url : Bytes} {minSize : UInt64} {answer : Loan} {next : Bytes → Place}

/-- A chunk that is not enough has room for what is in front of the data, and none for the data. -/
theorem length_of_outOfMemory (hcount : ¬msg.metaKeyValsArray.length / 2 > 255)
    (h : serializeInto msg msg.content.serialization chunk = .outOfMemory) :
    2 ≤ chunk.length ∧ chunk.length < needed msg := by
  unfold serializeInto at h
  cases hset : BufferOperator.skip 4 ⟨chunk, 0⟩ >>= msg.setHeader with
  | error e =>
    rw [hset] at h
    cases h
  | ok op =>
    rw [hset] at h
    obtain ⟨-, hroom, hbuf⟩ := setHeader_skip hcount hset
    have hlen : op.buf.length = chunk.length := by
      rw [hbuf]
      exact overwrite_length hroom
    rw [ShmMsgWrapper.header_length] at hroom
    refine ⟨by omega, Nat.lt_of_not_le fun hneeded => ?_⟩
    obtain ⟨allocator, hserialize, hmemory⟩ := FlatBufferArrayAllocator.flat.serialize_fits msg.content.serialization
      (a := .new (4 + msg.typeAndCtxLen) (op.buf.length - (4 + msg.typeAndCtxLen))) op.buf rfl
      (by show 4 + msg.typeAndCtxLen + _ ≤ _; omega)
      (by
        show 4 + msg.typeAndCtxLen + msg.content.serialization.asked ≤ 4 + msg.typeAndCtxLen + _
        rw [needed] at hneeded
        omega)
    have hmemory : allocator.outOfMemory = false := hmemory
    dsimp only at h
    rw [hserialize] at h
    dsimp only at h
    split at h
    · split at h <;> cases h
    · rw [hmemory] at h
      cases h

/-- What a loan comes to. -/
theorem loan_cases (s : Publishing) (t : ℕ) (url : Bytes) (minSize : UInt64) (answer : Loan) (next : Bytes → Place) :
    (¬Reaches minSize (s.shmSize url) ∧
      (s.loan t url minSize answer next).places t = .doubling minSize (s.shmSize url)) ∨
    (Reaches minSize (s.shmSize url) ∧ ∃ p shmSize, s.loan t url minSize answer next =
      { s.go t p with shmSize := Function.update s.shmSize url shmSize } ∧
      (answer = .refused ∧ p = .idle ∨
        answer ≠ .refused ∧ ∃ chunk, minSize.toNat ≤ chunk.length ∧ chunk.length < 2 ^ 64 ∧ p = next chunk)) := by
  unfold loan
  cases hgrow : IoxPublisher.grow 65 minSize (s.shmSize url) with
  | none =>
    refine .inl ⟨fun hreaches => ?_, Function.update_self ..⟩
    have hsome := IoxPublisher.isSome_grow_of_reaches hreaches
    rw [hgrow] at hsome
    cases hsome
  | some shmSize =>
    refine .inr ⟨IoxPublisher.reaches_of_grow hgrow, _, shmSize, rfl, ?_⟩
    cases answer with
    | refused => exact .inl ⟨rfl, rfl⟩
    | granted memory =>
      refine .inr ⟨nofun, _, ?_, ?_, rfl⟩
      · rw [List.length_map, List.length_range]
        exact UInt64.le_iff_toNat_le.1 (IoxPublisher.le_of_grow hgrow)
      · rw [List.length_map, List.length_range]
        exact shmSize.toNat_lt

/-! ### The invariant -/

/-- A thread has passed the checks of `Publish`, and its chunks were not enough, the last one before it not either. -/
def Sound : Place → Prop
  | .idle => True
  | .writing msg chunk earlier =>
      ¬msg.metaKeyValsArray.length / 2 > 255 ∧ Doubled (chunk.length :: earlier) ∧
        ∀ size ∈ earlier.head?, 2 ^ earlier.length ≤ size ∧ size < needed msg
  | .doubling _ _ => False

structure Inv (s : Publishing) : Prop where
  held : ∀ url, s.held url = false
  places : ∀ t, Sound (s.places t)

theorem Sound.ends {p : Place} (h : Sound p) : Ends p := by
  cases p with
  | idle => trivial
  | writing msg chunk earlier =>
    refine ⟨h.2.1, ?_⟩
    cases earlier with
    | nil =>
      rw [List.length_nil, pow_zero, needed]
      omega
    | cons size earlier =>
      obtain ⟨hlow, hhigh⟩ := h.2.2 size rfl
      exact hlow.trans hhigh.le
  | doubling minSize shmSize => exact absurd h id

theorem inv_init (shmInitSize : UInt64) : Inv (init shmInitSize) := ⟨fun _ => rfl, fun _ => trivial⟩

theorem Inv.go {p : Place} (h : Inv s) (hp : Sound p) : Inv (s.go t p) where
  held := h.held
  places := by
    intro t'
    simp only [Publishing.go]
    by_cases hself : t' = t
    · subst hself
      rwa [Function.update_self]
    · rw [Function.update_of_ne hself]
      exact h.places t'

/-- A loan that arrives. -/
theorem Inv.loan (h : Inv s) (hreaches : Reaches minSize (s.shmSize url))
    (hnext : ∀ chunk : Bytes, answer ≠ .refused → minSize.toNat ≤ chunk.length → Sound (next chunk)) :
    Inv (s.loan t url minSize answer next) := by
  rcases loan_cases s t url minSize answer next with ⟨hnot, -⟩ | ⟨-, p, shmSize, heq, hp⟩
  · exact absurd hreaches hnot
  · have hsound : Sound p := by
      rcases hp with ⟨-, rfl⟩ | ⟨hgranted, chunk, hle, -, rfl⟩
      · trivial
      · exact hnext chunk hgranted hle
    rw [heq]
    exact ⟨h.held, (h.go hsound).places⟩

/-- One that does not stays in its loop. -/
theorem reaches_of_allEnd (h : AllEnd (s.loan t url minSize answer next)) : Reaches minSize (s.shmSize url) := by
  rcases loan_cases s t url minSize answer next with ⟨hnot, hplace⟩ | ⟨hreaches, -⟩
  · have hends := h t
    rw [hplace] at hends
    exact absurd (IoxPublisher.exists_isSome_grow_iff.1 hends) hnot
  · exact hreaches

/-- What the checks in front of the first loan ensure. -/
theorem metaKeyVals_of_firstSize {checkMsg : Bool} (h : b.firstSize msg checkMsg = some minSize) :
    ¬msg.metaKeyValsArray.length / 2 > 255 := by
  intro hcount
  unfold IceoryxChannelBackend.firstSize at h
  split_ifs at h

theorem sound_next (hcount : ¬msg.metaKeyValsArray.length / 2 > 255) (chunk : Bytes) :
    Sound (Publishing.next msg chunk) := by
  unfold Publishing.next
  split_ifs
  · trivial
  · exact ⟨hcount, List.isChain_singleton _, fun _ hsize => nomatch hsize⟩

/-- The next chunk. -/
theorem Sound.again {earlier : List ℕ} {chunk' : Bytes} (h : Sound (.writing msg chunk earlier))
    (hround : serializeInto msg msg.content.serialization chunk = .outOfMemory)
    (htwice : 2 * chunk.length ≤ chunk'.length) : Sound (.writing msg chunk' (chunk.length :: earlier)) := by
  obtain ⟨hcount, hdoubled, hsizes⟩ := h
  obtain ⟨htwo, hneeded⟩ := length_of_outOfMemory hcount hround
  refine ⟨hcount, List.isChain_cons_cons.2 ⟨htwice, hdoubled⟩, ?_⟩
  rintro size hsize
  obtain rfl := Option.some.inj hsize
  refine ⟨?_, hneeded⟩
  cases earlier with
  | nil => exact htwo
  | cons size earlier =>
    have hlow := (hsizes size rfl).1
    have hbefore : 2 * size ≤ chunk.length := (List.isChain_cons_cons.1 hdoubled).1
    rw [List.length_cons, pow_succ']
    omega

/-! ### Steps -/

theorem step_publish {checkMsg : Bool} (h : Inv s) (hplace : s.places t = .idle)
    (hfirst : b.firstSize msg checkMsg = some minSize) :
    s.step b (.publish t msg checkMsg answer) =
      s.loan t (iceoryxPubTopic msg) minSize answer (Publishing.next msg) := by
  simp [step, hplace, hfirst, h.held]

theorem step_round {earlier : List ℕ} (h : Inv s) (hplace : s.places t = .writing msg chunk earlier)
    (hround : serializeInto msg msg.content.serialization chunk = .outOfMemory) :
    s.step b (.round t answer) =
      s.loan t (iceoryxPubTopic msg) (UInt64.ofNat (chunk.length * 2)) answer fun chunk' =>
        .writing msg chunk' (chunk.length :: earlier) := by
  simp [step, hplace, hround, h.held]

/-- A step that meets the condition. -/
theorem Inv.step {op : Op} (h : Inv s) (hmeets : s.Meets b op) : Inv (s.step b op) := by
  cases op with
  | publish t msg checkMsg answer =>
    cases hplace : s.places t with
    | idle =>
      cases hfirst : b.firstSize msg checkMsg with
      | none => simpa [Publishing.step, hplace, hfirst] using h
      | some minSize =>
        rw [step_publish h hplace hfirst]
        exact h.loan (hmeets hplace minSize hfirst) fun chunk _ _ => sound_next (metaKeyVals_of_firstSize hfirst) chunk
    | writing msg' chunk earlier => simpa [Publishing.step, hplace] using h
    | doubling minSize shmSize => simpa [Publishing.step, hplace] using h
  | round t answer =>
    cases hplace : s.places t with
    | idle => simpa [Publishing.step, hplace] using h
    | doubling minSize shmSize => simpa [Publishing.step, hplace] using h
    | writing msg chunk earlier =>
      cases hround : serializeInto msg msg.content.serialization chunk with
      | outOfMemory =>
        obtain ⟨hreaches, htwice⟩ := hmeets msg chunk earlier hplace hround
        have hsound := h.places t
        rw [hplace] at hsound
        rw [step_round h hplace hround]
        refine h.loan hreaches fun chunk' hgranted hle => hsound.again hround ?_
        rw [UInt64.toNat_ofNat', Nat.mod_eq_of_lt (htwice.resolve_left hgranted)] at hle
        omega
      | _ =>
        have hstep : s.step b (.round t answer) = s.go t .idle := by
          simp [Publishing.step, hplace, hround, h.held]
        rw [hstep]
        exact h.go trivial

/-- One that does not ends in a loop for ever, or with a chunk that is not twice as large. -/
theorem Inv.meets {op : Op} (h : Inv s) (hends : AllEnd (s.step b op)) : s.Meets b op := by
  cases op with
  | publish t msg checkMsg answer =>
    intro hplace minSize hfirst
    rw [step_publish h hplace hfirst] at hends
    exact reaches_of_allEnd hends
  | round t answer =>
    intro msg chunk earlier hplace hround
    rw [step_round h hplace hround] at hends
    have hreaches := reaches_of_allEnd hends
    refine ⟨hreaches, ?_⟩
    rcases loan_cases s t (iceoryxPubTopic msg) (UInt64.ofNat (chunk.length * 2)) answer
      (fun chunk' => .writing msg chunk' (chunk.length :: earlier)) with ⟨hnot, -⟩ | ⟨-, p, shmSize, heq, hp⟩
    · exact absurd hreaches hnot
    · rcases hp with ⟨hrefused, -⟩ | ⟨-, chunk', -, hlt, rfl⟩
      · exact .inl hrefused
      · right
        rw [heq] at hends
        have hplace' : Ends (.writing msg chunk' (chunk.length :: earlier)) := by
          have ht := hends t
          rwa [show ({ s.go t (.writing msg chunk' (chunk.length :: earlier)) with
            shmSize := Function.update s.shmSize (iceoryxPubTopic msg) shmSize } : Publishing).places t = _ from
              Function.update_self ..] at ht
        have htwice : 2 * chunk.length ≤ chunk'.length := (List.isChain_cons_cons.1 hplace'.1).1
        omega

/-! ### Runs -/

/-- **The sizes of the chunks.**  No thread gets into a loop for ever and every chunk is at least twice as large as the
one before it, in all states of a run, if and only if the doubling always gets to what is asked for and twice the size
of a chunk does not wrap around. -/
theorem allEnd_iff (b : IceoryxChannelBackend) (shmInitSize : UInt64) (ops : List Op) :
    AllHold (step b) AllEnd (init shmInitSize) ops ↔ AllMeet (step b) (Meets b) (init shmInitSize) ops :=
  allHold_iff_allMeet Inv (fun h t => (h.places t).ends) (fun h _ hmeets => h.step hmeets)
    (fun h _ hends => h.meets hends) (inv_init shmInitSize) ops

/-- No thread asks for more than `2 ^ 63` bytes. -/
def Modest (b : IceoryxChannelBackend) (s : Publishing) : Op → Prop
  | .publish t msg checkMsg _ => s.places t = .idle → ∀ minSize, b.firstSize msg checkMsg = some minSize →
      minSize.toNat ≤ 2 ^ 63
  | .round t _ => ∀ msg chunk earlier, s.places t = .writing msg chunk earlier →
      serializeInto msg msg.content.serialization chunk = .outOfMemory → chunk.length * 2 ≤ 2 ^ 63

theorem Modest.meets {op : Op} (h : s.Modest b op) (hne : ∀ url, s.shmSize url ≠ 0) : s.Meets b op := by
  cases op with
  | publish t msg checkMsg answer =>
    intro hplace minSize hfirst
    exact IoxPublisher.reaches_of_ne_zero (hne _) (h hplace minSize hfirst)
  | round t answer =>
    intro msg chunk earlier hplace hround
    have hle := h msg chunk earlier hplace hround
    refine ⟨IoxPublisher.reaches_of_ne_zero (hne _) ?_, .inr (by omega)⟩
    rw [UInt64.toNat_ofNat']
    exact (Nat.mod_le _ _).trans hle

theorem loan_shmSize_ne_zero (hne : ∀ url, s.shmSize url ≠ 0) (url' : Bytes) :
    (s.loan t url minSize answer next).shmSize url' ≠ 0 := by
  unfold loan
  split
  · exact hne url'
  · rename_i shmSize hgrow
    by_cases hurl : url' = url
    · subst hurl
      simp only [Function.update_self]
      exact IoxPublisher.ne_zero_of_grow (hne url') hgrow
    · simp only [Function.update_of_ne hurl]
      exact hne url'

theorem step_shmSize_ne_zero (hne : ∀ url, s.shmSize url ≠ 0) (op : Op) (url : Bytes) :
    (s.step b op).shmSize url ≠ 0 := by
  cases op with
  | publish t msg checkMsg answer =>
    unfold step
    dsimp only
    split
    · split_ifs
      · exact hne url
      · exact loan_shmSize_ne_zero hne url
    · exact hne url
  | round t answer =>
    unfold step
    dsimp only
    split
    · split_ifs
      · exact hne url
      · split
        · exact loan_shmSize_ne_zero hne url
        · exact hne url
    · exact hne url

/-- A size other than 0 is enough, as long as nobody asks for too much. -/
theorem allEnd_of_modest (b : IceoryxChannelBackend) {shmInitSize : UInt64} (hne : shmInitSize ≠ 0) {ops : List Op}
    (hmodest : AllMeet (step b) (Modest b) (init shmInitSize) ops) : AllHold (step b) AllEnd (init shmInitSize) ops :=
  allHold_of_allMeet (fun s => Inv s ∧ ∀ url, s.shmSize url ≠ 0) (fun h t => (h.1.places t).ends)
    (fun h op hop => ⟨h.1.step (hop.meets h.2), step_shmSize_ne_zero h.2 op⟩) ⟨inv_init shmInitSize, fun _ => hne⟩
    hmodest

/-- From a size of 0 the first thread that publishes does not come back. -/
theorem not_allEnd : ¬∀ (b : IceoryxChannelBackend) (shmInitSize : UInt64) (ops : List Op),
    AllHold (step b) AllEnd (init shmInitSize) ops := by
  intro h
  have hends := (h exampleBackend 0 [.publish 0 (exampleMsg none) true .refused]).last 0
  have hplace : ((init 0).step exampleBackend (.publish 0 (exampleMsg none) true .refused)).places 0 =
      .doubling 8 0 := rfl
  have hends : Ends (.doubling 8 0) := hplace ▸ hends
  obtain ⟨k, hk⟩ := IoxPublisher.exists_isSome_grow_iff.1 hends
  rw [show (0 : UInt64).toNat = 0 from rfl, Nat.zero_mul, Nat.zero_mod] at hk
  exact absurd hk (by decide)

end Publishing

end AimRT.Iceoryx
