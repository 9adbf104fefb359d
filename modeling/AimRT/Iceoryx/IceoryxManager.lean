import AimRT.Lib.Ownership
import AimRT.Util.BufferArray

/-!
# Chunks of iceoryx

`IoxPublisher` loans chunks of shared memory and publishes or releases them.  A thread that publishes
holds one chunk at a time, in an `IoxLoanedShm`, whose destructor releases what is left in it; the
ledger of a thread is `Vacant` when it holds none, and `Holding` when it holds the one in its
`IoxLoanedShm`.
-/

namespace AimRT.Iceoryx

open AimRT.Lib AimRT.Util

/-- What a thread meets in its calls of a publisher, under the numbers of the calls: `shmSize i size`
is `shm_size_` at the call `i`, when the thread has left it at `size` and others may have enlarged it,
and `loan i size` is the chunk that it gets then, if any. -/
structure IoxEnv where
  shmSize : ℕ → UInt64 → UInt64
  loan : ℕ → UInt64 → Option Bytes
  loan_length : ∀ i size chunk, loan i size = some chunk → chunk.length = size.toNat

/-- A publisher as a thread has left it, and what the thread has done with the chunks so far; a chunk
has the number of the call that loaned it. -/
structure IoxPublisher where
  shmSize : UInt64
  calls : ℕ
  ledger : Ledger ℕ

def IoxPublisher.new (shmSize : UInt64) : IoxPublisher := ⟨shmSize, 0, []⟩

/-- `ptr` is the chunk it is responsible for, unless this was published or released. -/
structure IoxLoanedShm where
  ptr : Option ℕ
  chunk : Bytes

namespace IoxPublisher

/-- `while (min_size > shm_size_) shm_size_ *= 2`, up to `fuel` rounds. -/
def grow : (fuel : ℕ) → (minSize shmSize : UInt64) → Option UInt64
  | 0, _, _ => none
  | fuel + 1, minSize, shmSize =>
    if minSize > shmSize then grow fuel minSize (shmSize * 2) else some shmSize

/-- The size that a call arrives at. -/
def enter (env : IoxEnv) (fuel : ℕ) (minSize : UInt64) (pub : IoxPublisher) : Option IoxPublisher :=
  (grow fuel minSize (env.shmSize pub.calls pub.shmSize)).map fun shmSize =>
    { pub with shmSize := shmSize }

/-- `publisher_.loan(shm_size_)`; without a chunk the call throws. -/
def loan (env : IoxEnv) (pub : IoxPublisher) : IoxPublisher × Option IoxLoanedShm :=
  match env.loan pub.calls pub.shmSize with
  | none => ({ pub with calls := pub.calls + 1 }, none)
  | some chunk =>
    ({ pub with
        calls := pub.calls + 1
        ledger := pub.ledger ++ [.acquire pub.calls] }, some ⟨some pub.calls, chunk⟩)

/-- The release that `UpdateLoanShm` and the destructor do. -/
def release (shm : IoxLoanedShm) (pub : IoxPublisher) : IoxPublisher :=
  match shm.ptr with
  | none => pub
  | some i => { pub with ledger := pub.ledger ++ [.release i] }

def loanShm (env : IoxEnv) (fuel : ℕ) (minSize : UInt64) (pub : IoxPublisher) :
    Option (IoxPublisher × Option IoxLoanedShm) :=
  (pub.enter env fuel minSize).map fun pub => pub.loan env

/-- The `IoxLoanedShm` gets the new chunk; it has none when the loan throws. -/
def updateLoanShm (env : IoxEnv) (fuel : ℕ) (shm : IoxLoanedShm) (minSize : UInt64)
    (pub : IoxPublisher) : Option (IoxPublisher × Option IoxLoanedShm) :=
  (pub.enter env fuel minSize).map fun pub => (pub.release shm).loan env

def publishShm (shm : IoxLoanedShm) (pub : IoxPublisher) : IoxPublisher :=
  match shm.ptr with
  | none => pub
  | some i => { pub with ledger := pub.ledger ++ [.handOver i] }

/-! ### Holding one chunk -/

/-- Chunks have the numbers of past calls. -/
def Numbered (pub : IoxPublisher) : Prop := ∀ i, Transfer.acquire i ∈ pub.ledger → i < pub.calls

structure Vacant (pub : IoxPublisher) : Prop where
  idle : pub.ledger.Idle
  numbered : pub.Numbered

structure Holding (pub : IoxPublisher) (shm : IoxLoanedShm) : Prop where
  holds : ∃ i, shm.ptr = some i ∧ pub.ledger.Holds i
  numbered : pub.Numbered

theorem vacant_new (shmSize : UInt64) : (new shmSize).Vacant := ⟨Ledger.idle_nil, fun _ hi => nomatch hi⟩

variable {env : IoxEnv} {fuel : ℕ} {minSize : UInt64} {pub pub' : IoxPublisher} {shm shm' : IoxLoanedShm}

theorem le_of_grow {shmSize shmSize' : UInt64} (h : grow fuel minSize shmSize = some shmSize') :
    minSize ≤ shmSize' := by
  induction fuel generalizing shmSize with
  | zero => cases h
  | succ fuel ih =>
    rw [grow] at h
    split at h
    · exact ih h
    · obtain rfl := Option.some.inj h
      exact UInt64.not_lt.1 ‹_›

/-- What a call does before it loans. -/
theorem enter_eq_some (h : pub.enter env fuel minSize = some pub') :
    minSize ≤ pub'.shmSize ∧ pub' = { pub with shmSize := pub'.shmSize } := by
  obtain ⟨shmSize, hgrow, rfl⟩ := Option.map_eq_some_iff.1 h
  exact ⟨le_of_grow hgrow, rfl⟩

theorem Vacant.settled (h : pub.Vacant) : pub.ledger.Settled := h.idle.settled

theorem Vacant.setShmSize (h : pub.Vacant) (shmSize : UInt64) :
    Vacant { pub with shmSize := shmSize } := ⟨h.idle, h.numbered⟩

theorem Holding.setShmSize (h : pub.Holding shm) (shmSize : UInt64) :
    Holding { pub with shmSize := shmSize } shm := ⟨h.holds, h.numbered⟩

/-- A loan gives a chunk of the right size, or nothing. -/
theorem Vacant.loan (h : pub.Vacant) (env : IoxEnv) :
    (∃ pub', pub.loan env = (pub', none) ∧ pub'.Vacant) ∨
    (∃ pub' shm, pub.loan env = (pub', some shm) ∧ pub'.Holding shm ∧
      shm.chunk.length = pub.shmSize.toNat) := by
  unfold IoxPublisher.loan
  cases hloan : env.loan pub.calls pub.shmSize with
  | none =>
    refine Or.inl ⟨_, rfl, h.idle, fun i hi => ?_⟩
    exact Nat.lt_succ_of_lt (h.numbered i hi)
  | some chunk =>
    have hfresh : Transfer.acquire pub.calls ∉ pub.ledger := fun hi =>
      absurd (h.numbered _ hi) (Nat.lt_irrefl _)
    refine Or.inr ⟨_, _, rfl, ⟨⟨_, rfl, h.idle.acquire hfresh⟩, fun i hi => ?_⟩,
      env.loan_length _ _ _ hloan⟩
    rcases List.mem_append.1 hi with hi | hi
    · exact Nat.lt_succ_of_lt (h.numbered i hi)
    · obtain rfl := Transfer.acquire.inj (List.mem_singleton.1 hi)
      exact Nat.lt_succ_self _

theorem Holding.release (h : pub.Holding shm) : (pub.release shm).Vacant := by
  obtain ⟨i, hptr, hholds⟩ := h.holds
  rw [IoxPublisher.release, hptr]
  refine ⟨hholds.dispose (Or.inr rfl), fun j hj => h.numbered j ?_⟩
  simpa using hj

theorem Holding.publishShm (h : pub.Holding shm) : (pub.publishShm shm).Vacant := by
  obtain ⟨i, hptr, hholds⟩ := h.holds
  rw [IoxPublisher.publishShm, hptr]
  refine ⟨hholds.dispose (Or.inl rfl), fun j hj => h.numbered j ?_⟩
  simpa using hj

/-- The result of a call that loans: no chunk, or one that is large enough. -/
def Loans (minSize : UInt64) : IoxPublisher × Option IoxLoanedShm → Prop
  | (pub, none) => pub.Vacant
  | (pub, some shm) => pub.Holding shm ∧ minSize.toNat ≤ shm.chunk.length

theorem Vacant.loans (h : pub.Vacant) (hsize : minSize ≤ pub.shmSize) :
    Loans minSize (pub.loan env) := by
  rcases h.loan env with ⟨pub', hloan, hvacant⟩ | ⟨pub', shm, hloan, hholding, hlen⟩
  · rw [hloan]
    exact hvacant
  · rw [hloan]
    exact ⟨hholding, by rw [hlen]; exact UInt64.le_iff_toNat_le.1 hsize⟩

theorem Vacant.loanShm {r : IoxPublisher × Option IoxLoanedShm} (h : pub.Vacant)
    (hloan : pub.loanShm env fuel minSize = some r) : Loans minSize r := by
  obtain ⟨pub₁, henter, rfl⟩ := Option.map_eq_some_iff.1 hloan
  obtain ⟨hsize, heq⟩ := enter_eq_some henter
  rw [heq] at hsize ⊢
  exact (h.setShmSize _).loans hsize

/-- The old chunk is released before the new one is loaned. -/
theorem Holding.updateLoanShm {r : IoxPublisher × Option IoxLoanedShm} (h : pub.Holding shm)
    (hloan : pub.updateLoanShm env fuel shm minSize = some r) : Loans minSize r := by
  obtain ⟨pub₁, henter, rfl⟩ := Option.map_eq_some_iff.1 hloan
  obtain ⟨hsize, heq⟩ := enter_eq_some henter
  have hholding : pub₁.Holding shm := by
    rw [heq]
    exact h.setShmSize _
  refine hholding.release.loans ?_
  have hsame : (pub₁.release shm).shmSize = pub₁.shmSize := by
    rw [IoxPublisher.release]
    split <;> rfl
  rw [hsame]
  exact hsize

end IoxPublisher

end AimRT.Iceoryx
