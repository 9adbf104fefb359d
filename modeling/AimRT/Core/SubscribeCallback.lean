import AimRT.Core.ChannelMsg
import AimRT.Lib.SharedPtr

/-!
# The callback of a subscriber

The callback that `Subscribe` makes puts the release callback of the backend under a shared pointer, whose
deleter calls it.  The frame of the callback owns the pointer, and so does the handle that goes into the
filters, and every copy of it; a handle that runs gives the user a release handle, which owns it too.

The code of filters and users is any program that has such a handle: it calls the handle, copies it or moves
it into tasks, drops it, returns or throws.  A frame that is left, in either way, destroys the handle that it
still has.  The owners are the handles in the frames of all threads (`Delivery.holders`), and no step of a
thread makes or destroys a handle without the pointer (`Thread.step_leads`).
-/

namespace AimRT.Core.SubscribeCallback

open AimRT.Lib AimRT.Util

/-! ### Programs -/

/-- A program that has a handle. -/
inductive Code (W A : Type) : Type
  | ret
  | throw
  | act (a : A) (p : Code W A)
  /-- Goes on with the answer of outside code. -/
  | ask (k : ℕ → Code W A)
  /-- Calls the handle, and goes on with whether an exception came back. -/
  | call (w : W) (k : Bool → Code W A)
  | drop (p : Code W A)
  /-- Starts the task `t` with the handle itself, if it `moves`, or with a copy. -/
  | fork (moves : Bool) (t p : Code W A)

variable {V A : Type}

/-- `FrameworkAsyncChannelFilter`; the handle is that of the program. -/
abbrev ChannelFilter (V A : Type) := MsgWrapper V → Code (MsgWrapper V) A

/-- A `final_filter_`: the lambda of the constructor, or that of `RegisterFilter` with what it captured. -/
inductive FinalFilter (V A : Type) : Type
  | base
  | layer (finalFilter : FinalFilter V A) (filter : ChannelFilter V A)

/-- A `FrameworkAsyncChannelFilterCollector`. -/
def collector (filters : List (ChannelFilter V A)) : FinalFilter V A := filters.foldl .layer .base

/-- The subscribers of the two overloads: a `SubscriberCallback` that a module gave, whose call is
`noexcept`, or the callback of a `SubscribeWrapper`. -/
inductive Subscriber (V A : Type) : Type
  | proxy (callback : ChannelContext → V → Code (MsgWrapper V) A)
  | wrapper (callback : MsgWrapper V → Code (MsgWrapper V) A)

/-- What the handle at the end of the chain does: it calls the user, in a `noexcept` call or not, or it
catches the exception of `CheckMsg`. -/
def Subscriber.enter : Subscriber V A → MsgWrapper V → Option (Code (MsgWrapper V) A × Bool)
  | .proxy callback, w =>
    match w.checkMsg with
    | .error _ => none
    | .ok (msg, w) => some (callback w.ctx msg, true)
  | .wrapper callback, w => some (callback w, false)

/-! ### Handles -/

/-- What a program has: the release handle of a user, which does nothing when it is called, or the handle of
a filter, a lambda with `final_filter` and an `h` that owns the pointer when it `holds`. -/
inductive Handle (V A : Type) : Type
  | release
  | chain (finalFilter : FinalFilter V A) (holds : Bool)

/-- Who owns the pointer. -/
inductive Holder where
  | callback
  | chain
  | user
  deriving DecidableEq, Repr

/-- The owner that a handle is; a handle that was dropped or moved away is none. -/
def holder : Option (Handle V A) → List Holder
  | none => []
  | some .release => [.user]
  | some (.chain _ holds) => if holds then [.chain] else []

/-- The destruction of a handle. -/
def drops (handle : Option (Handle V A)) : List PtrOp := List.replicate (holder handle).length .drop

def copies (handle : Option (Handle V A)) : List PtrOp := List.replicate (holder handle).length .copy

/-! ### Threads -/

structure Frame (V A : Type) where
  code : Code (MsgWrapper V) A
  handle : Option (Handle V A)
  noexcept : Bool

/-- A frame that waits for a call of its handle. -/
structure Caller (V A : Type) where
  rest : Bool → Code (MsgWrapper V) A
  handle : Option (Handle V A)
  noexcept : Bool

/-- A thread; `owns` tells if it is that of the callback, with its `release_callback_shared_ptr`. -/
inductive Thread (V A : Type) : Type
  | ended
  | running (top : Frame V A) (callers : List (Caller V A)) (owns : Bool)

/-- What a step of a thread leaves. -/
structure Stepped (V A : Type) where
  thread : Thread V A
  forked : List (Thread V A)
  ops : List PtrOp
  acts : List A
  terminates : Bool

namespace Thread

/-- A frame goes on with a program and a handle, after operations on the pointer. -/
def goesOn (p : Code (MsgWrapper V) A) (handle : Option (Handle V A)) (noexcept : Bool)
    (callers : List (Caller V A)) (owns : Bool) (ops : List PtrOp) : Stepped V A :=
  ⟨.running ⟨p, handle, noexcept⟩ callers owns, [], ops, [], false⟩

/-- A frame is left by a return, or by an exception if it `threw`; one that leaves a thread ends it. -/
def leave (threw : Bool) (handle : Option (Handle V A)) (callers : List (Caller V A)) (owns : Bool) :
    Stepped V A :=
  match callers with
  | [] => ⟨.ended, [], drops handle ++ List.replicate owns.toNat .drop, [], false⟩
  | c :: callers => goesOn (c.rest threw) c.handle c.noexcept callers owns (drops handle)

/-- A call of a handle.  A lambda gives its `h` to the next one. -/
def call (s : Subscriber V A) (w : MsgWrapper V) (k : Bool → Code (MsgWrapper V) A)
    (handle : Option (Handle V A)) (noexcept : Bool) (callers : List (Caller V A)) (owns : Bool) :
    Stepped V A :=
  match handle with
  -- a `std::bad_function_call`
  | none => goesOn (k true) handle noexcept callers owns []
  | some (.chain .base false) => goesOn (k true) handle noexcept callers owns []
  | some .release => goesOn (k false) handle noexcept callers owns []
  | some (.chain .base true) =>
    match s.enter w with
    | none => goesOn (k false) handle noexcept callers owns []
    | some (p, noexcept') =>
      goesOn p (some .release) noexcept' (⟨k, handle, noexcept⟩ :: callers) owns [.copy]
  | some (.chain (.layer finalFilter filter) holds) =>
    goesOn (filter w) (some (.chain finalFilter holds)) false
      (⟨k, some (.chain (.layer finalFilter filter) false), noexcept⟩ :: callers) owns []

/-- A step of a thread, where outside code answers `n`. -/
def step (s : Subscriber V A) (n : ℕ) : Thread V A → Option (Stepped V A)
  | .ended => none
  | .running ⟨.ret, handle, _⟩ callers owns => some (leave false handle callers owns)
  | .running ⟨.throw, handle, false⟩ callers owns => some (leave true handle callers owns)
  | .running ⟨.throw, handle, true⟩ callers owns =>
    some ⟨.running ⟨.throw, handle, true⟩ callers owns, [], [], [], true⟩
  | .running ⟨.act a p, handle, noexcept⟩ callers owns =>
    some { goesOn p handle noexcept callers owns [] with acts := [a] }
  | .running ⟨.ask k, handle, noexcept⟩ callers owns =>
    some (goesOn (k n) handle noexcept callers owns [])
  | .running ⟨.call w k, handle, noexcept⟩ callers owns => some (call s w k handle noexcept callers owns)
  | .running ⟨.drop p, handle, noexcept⟩ callers owns =>
    some (goesOn p none noexcept callers owns (drops handle))
  | .running ⟨.fork true t p, handle, noexcept⟩ callers owns =>
    some { goesOn p none noexcept callers owns [] with forked := [.running ⟨t, handle, false⟩ [] false] }
  | .running ⟨.fork false t p, handle, noexcept⟩ callers owns =>
    some { goesOn p handle noexcept callers owns (copies handle) with
      forked := [.running ⟨t, handle, false⟩ [] false] }

/-- The owners in the frames that wait. -/
def waiting (callers : List (Caller V A)) : List Holder := callers.flatMap fun c => holder c.handle

/-- The owners in a thread. -/
def holders : Thread V A → List Holder
  | .ended => []
  | .running top callers owns =>
    holder top.handle ++ (waiting callers ++ List.replicate owns.toNat .callback)

end Thread

/-! ### Deliveries -/

/-- The state of one message that the backend delivers. -/
structure Delivery (V A : Type) where
  threads : List (Thread V A)
  releaseCallbackSharedPtr : SharedPtr
  log : List A
  /-- `std::terminate` was called. -/
  terminated : Bool

namespace Delivery

/-- How often the release callback of the backend was called: the deleter calls it. -/
def released (d : Delivery V A) : ℕ := d.releaseCallbackSharedPtr.deletions

def holders (d : Delivery V A) : List Holder := d.threads.flatMap Thread.holders

/-- The callback is called: it makes the pointer, gives a copy to the lambda and calls `InvokeChannel`. -/
def start (c : FinalFilter V A) (w : MsgWrapper V) : Delivery V A where
  threads := [.running ⟨.call w fun threw => if threw then .throw else .ret, some (.chain c true), false⟩ []
    true]
  releaseCallbackSharedPtr := SharedPtr.new.step .copy
  log := []
  terminated := false

def step (s : Subscriber V A) (d : Delivery V A) (i n : ℕ) : Option (Delivery V A) :=
  if d.terminated then none
  else do
    let t ← d.threads[i]?
    let o ← t.step s n
    return ⟨d.threads.set i o.thread ++ o.forked, d.releaseCallbackSharedPtr.run o.ops, d.log ++ o.acts,
      o.terminates⟩

def run (s : Subscriber V A) (d : Delivery V A) : List (ℕ × ℕ) → Option (Delivery V A)
  | [] => some d
  | (i, n) :: moves => do (← d.step s i n).run s moves

/-- All threads have ended. -/
def Ended (d : Delivery V A) : Prop := ∀ t ∈ d.threads, t = .ended

end Delivery

/-! ### The pointer and its owners -/

namespace Thread

def owners (t : Thread V A) : ℕ := t.holders.length

theorem owners_running (p : Code (MsgWrapper V) A) (handle : Option (Handle V A)) (noexcept : Bool)
    (callers : List (Caller V A)) (owns : Bool) :
    owners (.running ⟨p, handle, noexcept⟩ callers owns) =
      (holder handle).length + ((waiting callers).length + owns.toNat) := by
  simp [owners, holders]

theorem waiting_cons (c : Caller V A) (callers : List (Caller V A)) :
    (waiting (c :: callers)).length = (holder c.handle).length + (waiting callers).length := by
  simp [waiting]

end Thread

/-- The owners that a step leaves. -/
def Stepped.owners (o : Stepped V A) : ℕ := o.thread.owners + (o.forked.map Thread.owners).sum

namespace Thread

open SharedPtr

theorem goesOn_owners (p : Code (MsgWrapper V) A) (handle : Option (Handle V A)) (noexcept : Bool)
    (callers : List (Caller V A)) (owns : Bool) (ops : List PtrOp) :
    (goesOn p handle noexcept callers owns ops).owners =
      (holder handle).length + ((waiting callers).length + owns.toNat) :=
  owners_running p handle noexcept callers owns

theorem leave_leads (threw : Bool) (p : Code (MsgWrapper V) A) (handle : Option (Handle V A))
    (noexcept : Bool) (callers : List (Caller V A)) (owns : Bool) :
    Leads (owners (.running ⟨p, handle, noexcept⟩ callers owns)) (leave threw handle callers owns).ops
      (leave threw handle callers owns).owners := by
  rw [owners_running]
  cases callers with
  | nil =>
    have hops : (leave threw handle [] owns).ops =
        List.replicate ((holder handle).length + owns.toNat) .drop :=
      List.replicate_append_replicate
    have hend : (leave threw handle [] owns).owners = 0 := by
      simp [leave, Stepped.owners, owners, holders]
    rw [hops, hend]
    have hdrops := leads_drops 0 ((holder handle).length + owns.toNat)
    simpa [waiting] using hdrops
  | cons c callers =>
    rw [leave, goesOn_owners, waiting_cons, Nat.add_assoc, Nat.add_comm]
    exact leads_drops _ _

theorem call_leads (s : Subscriber V A) (w : MsgWrapper V) (k : Bool → Code (MsgWrapper V) A)
    (p : Code (MsgWrapper V) A) (handle : Option (Handle V A)) (noexcept : Bool)
    (callers : List (Caller V A)) (owns : Bool) :
    Leads (owners (.running ⟨p, handle, noexcept⟩ callers owns))
      (call s w k handle noexcept callers owns).ops (call s w k handle noexcept callers owns).owners := by
  rw [owners_running]
  unfold call
  split
  · exact (goesOn_owners _ _ _ _ _ _).symm
  · exact (goesOn_owners _ _ _ _ _ _).symm
  · exact (goesOn_owners _ _ _ _ _ _).symm
  · split
    · exact (goesOn_owners _ _ _ _ _ _).symm
    · -- the release handle is a copy of the pointer in the lambda
      rw [goesOn_owners, waiting_cons]
      change Leads (1 + ((waiting callers).length + owns.toNat)) [.copy]
        (1 + (1 + (waiting callers).length + owns.toNat))
      rw [Nat.add_assoc 1 _ owns.toNat, Nat.add_comm 1 (1 + _)]
      exact leads_copy (Nat.add_pos_left Nat.one_pos _)
  · -- the lambda that gives its `h` away is none any more
    rw [goesOn_owners, waiting_cons]
    change _ = _ + ((0 + (waiting callers).length) + owns.toNat)
    rw [Nat.zero_add]
    rfl

theorem holder_length_le (handle : Option (Handle V A)) : (holder handle).length ≤ 1 := by
  rcases handle with _ | _ | ⟨finalFilter, _ | _⟩ <;> simp [holder]

theorem leads_copies (handle : Option (Handle V A)) (n : ℕ) :
    Leads ((holder handle).length + n) (copies handle) ((holder handle).length + n + (holder handle).length) := by
  have hle := holder_length_le handle
  unfold copies
  cases hlength : (holder handle).length with
  | zero => rfl
  | succ m =>
    obtain rfl : m = 0 := by omega
    exact leads_copy (by omega)

/-- **A step of a thread** leads from its owners to those that it leaves. -/
theorem step_leads {s : Subscriber V A} {n : ℕ} {t : Thread V A} {o : Stepped V A}
    (h : t.step s n = some o) : Leads t.owners o.ops o.owners := by
  rcases t with _ | ⟨⟨p, handle, noexcept⟩, callers, owns⟩
  · cases h
  cases p with
  | ret =>
    obtain rfl := Option.some.inj h
    exact leave_leads false _ _ _ _ _
  | throw =>
    cases noexcept <;> obtain rfl := Option.some.inj h
    · exact leave_leads true _ _ _ _ _
    · rfl
  | act a p =>
    obtain rfl := Option.some.inj h
    rfl
  | ask k =>
    obtain rfl := Option.some.inj h
    rfl
  | call w k =>
    obtain rfl := Option.some.inj h
    exact call_leads s w k _ _ _ _ _
  | drop p =>
    obtain rfl := Option.some.inj h
    rw [owners_running, goesOn_owners, Nat.add_comm]
    change Leads _ _ (0 + _)
    rw [Nat.zero_add]
    exact leads_drops _ _
  | fork moves t p =>
    cases moves <;> obtain rfl := Option.some.inj h
    · have hcopies := leads_copies handle ((waiting callers).length + owns.toNat)
      simpa [Stepped.owners, goesOn, owners_running, waiting] using hcopies
    · simp [Stepped.owners, goesOn, owners_running, waiting, holder, Leads, Nat.add_comm]

end Thread

namespace Delivery

variable {s : Subscriber V A} {d d' : Delivery V A} {c : FinalFilter V A} {w : MsgWrapper V}

theorem step_eq_some {i n : ℕ} : d.step s i n = some d' ↔
    d.terminated = false ∧ ∃ t o, d.threads[i]? = some t ∧ t.step s n = some o ∧
      d' = ⟨d.threads.set i o.thread ++ o.forked, d.releaseCallbackSharedPtr.run o.ops, d.log ++ o.acts,
        o.terminates⟩ := by
  unfold step
  cases d.terminated with
  | true => simp
  | false =>
    simp only [Bool.false_eq_true, if_false, Option.bind_eq_bind, Option.bind_eq_some_iff, Option.pure_def,
      Option.some.injEq, true_and]
    constructor
    · rintro ⟨t, ht, o, ho, e⟩
      exact ⟨t, o, ht, ho, e.symm⟩
    · rintro ⟨t, o, ht, ho, rfl⟩
      exact ⟨t, ht, o, ho, rfl⟩

theorem run_append {moves moves' : List (ℕ × ℕ)} :
    d.run s (moves ++ moves') = (d.run s moves).bind fun d => d.run s moves' := by
  induction moves generalizing d with
  | nil => rfl
  | cons m moves ih => simp only [List.cons_append, run, Option.bind_eq_bind, ih, Option.bind_assoc]

/-- What every step keeps holds in every state of a run. -/
theorem run_induction {P : Delivery V A → Prop}
    (hstep : ∀ {d d' i n}, P d → d.step s i n = some d' → P d') {moves : List (ℕ × ℕ)} (hd : P d)
    (h : d.run s moves = some d') : P d' := by
  induction moves generalizing d with
  | nil =>
    obtain rfl := Option.some.inj h
    exact hd
  | cons m moves ih =>
    simp only [run, Option.bind_eq_bind, Option.bind_eq_some_iff] at h
    obtain ⟨d₁, h₁, h⟩ := h
    exact ih (hstep hd h₁) h

theorem holders_length (d : Delivery V A) : d.holders.length = (d.threads.map Thread.owners).sum :=
  List.length_flatMap

/-- The pointer has counted its owners. -/
def Counted (d : Delivery V A) : Prop := d.releaseCallbackSharedPtr.Counts d.holders.length

theorem start_counted : (start c w).Counted :=
  SharedPtr.new_counts.copy Nat.one_pos

theorem Counted.step {i n : ℕ} (hd : d.Counted) (h : d.step s i n = some d') : d'.Counted := by
  obtain ⟨-, t, o, ht, ho, rfl⟩ := step_eq_some.1 h
  obtain ⟨m, hm, hset⟩ := exists_sum_map_set Thread.owners ht
  unfold Counted at hd ⊢
  rw [holders_length] at hd ⊢
  rw [hm] at hd
  have hsum : ((d.threads.set i o.thread ++ o.forked).map Thread.owners).sum = o.owners + m := by
    rw [List.map_append, List.sum_append, hset, Stepped.owners, Nat.add_right_comm]
  rw [hsum]
  exact hd.run ((Thread.step_leads ho).add m)

/-- **The release callback** has been called once when no one owns the pointer, and not before. -/
theorem released_eq {moves : List (ℕ × ℕ)} (h : (start c w).run s moves = some d) :
    d.released = if d.holders = [] then 1 else 0 := by
  have hd : d.Counted := run_induction Counted.step start_counted h
  unfold released
  rw [hd.deletions]
  simp only [List.length_eq_zero_iff]

theorem Ended.holders_eq (h : d.Ended) : d.holders = [] := by
  refine List.flatMap_eq_nil_iff.2 fun t ht => ?_
  rw [h t ht]
  rfl

end Delivery

/-! ### The end of a delivery -/

namespace Code

variable {W : Type}

/-- The steps of a program, if every call of its handle takes `c` steps and outside code answers zero; after
a call it may go on in two ways. -/
def cost (c : W → ℕ) : Code W A → ℕ
  | ret => 1
  | throw => 1
  | act _ p => p.cost c + 1
  | ask k => (k 0).cost c + 1
  | call w k => c w + ((k true).cost c + (k false).cost c) + 1
  | drop p => p.cost c + 1
  | fork _ t p => t.cost c + p.cost c + 1

theorem cost_mono {c c' : W → ℕ} (h : ∀ w, c w ≤ c' w) (p : Code W A) : p.cost c ≤ p.cost c' := by
  induction p with
  | ret => exact le_refl 1
  | throw => exact le_refl 1
  | act a p ih => exact Nat.succ_le_succ ih
  | ask k ih => exact Nat.succ_le_succ (ih 0)
  | call w k ih => exact Nat.succ_le_succ (Nat.add_le_add (h w) (Nat.add_le_add (ih true) (ih false)))
  | drop p ih => exact Nat.succ_le_succ ih
  | fork moves t p iht ihp => exact Nat.succ_le_succ (Nat.add_le_add iht ihp)

end Code

section Cost

variable (s : Subscriber V A)

/-- A user's program has no calls that take steps. -/
def Subscriber.cost (w : MsgWrapper V) : ℕ :=
  match s.enter w with
  | none => 0
  | some (p, _) => p.cost fun _ => 0

def FinalFilter.cost : FinalFilter V A → MsgWrapper V → ℕ
  | .base, w => s.cost w
  | .layer finalFilter filter, w => (filter w).cost (finalFilter.cost)

def handleCost : Option (Handle V A) → MsgWrapper V → ℕ
  | some (.chain finalFilter _), w => finalFilter.cost s w
  | _, _ => 0

def Caller.cost (c : Caller V A) : ℕ :=
  (c.rest true).cost (handleCost s c.handle) + (c.rest false).cost (handleCost s c.handle)

def Thread.cost : Thread V A → ℕ
  | .ended => 0
  | .running top callers _ =>
    top.code.cost (handleCost s top.handle) + (callers.map (Caller.cost s)).sum

def Stepped.cost (o : Stepped V A) : ℕ := o.thread.cost s + (o.forked.map (Thread.cost s)).sum

end Cost

namespace Thread

variable {s : Subscriber V A}

theorem goesOn_cost (p : Code (MsgWrapper V) A) (handle : Option (Handle V A)) (noexcept : Bool)
    (callers : List (Caller V A)) (owns : Bool) (ops : List PtrOp) :
    (goesOn p handle noexcept callers owns ops).cost s =
      p.cost (handleCost s handle) + (callers.map (Caller.cost s)).sum := rfl

theorem leave_cost (threw : Bool) (handle : Option (Handle V A)) (callers : List (Caller V A)) (owns : Bool) :
    (leave threw handle callers owns).cost s ≤ (callers.map (Caller.cost s)).sum := by
  cases callers with
  | nil => exact le_refl 0
  | cons c callers =>
    have hrest : (c.rest threw).cost (handleCost s c.handle) ≤ c.cost s := by
      cases threw
      · exact Nat.le_add_left _ _
      · exact Nat.le_add_right _ _
    rw [leave, goesOn_cost, List.map_cons, List.sum_cons]
    exact Nat.add_le_add_right hrest _

/-- A call costs what the handle takes, and both ways on are paid for. -/
theorem call_cost (w : MsgWrapper V) (k : Bool → Code (MsgWrapper V) A) (handle : Option (Handle V A))
    (noexcept : Bool) (callers : List (Caller V A)) (owns : Bool) :
    (call s w k handle noexcept callers owns).cost s <
      (Code.call w k).cost (handleCost s handle) + (callers.map (Caller.cost s)).sum := by
  rw [Code.cost]
  unfold call
  split
  · rw [goesOn_cost]
    omega
  · rw [goesOn_cost]
    omega
  · rw [goesOn_cost]
    omega
  · split
    · rw [goesOn_cost]
      omega
    next p noexcept' henter =>
      have huser : p.cost (handleCost s (some .release)) =
          handleCost s (some (.chain .base true)) w := by
        change _ = s.cost w
        rw [Subscriber.cost, henter]
        rfl
      have hcaller : Caller.cost s ⟨k, some (.chain .base true), noexcept⟩ =
          (k true).cost (handleCost s (some (.chain .base true))) +
            (k false).cost (handleCost s (some (.chain .base true))) := rfl
      rw [goesOn_cost, huser, List.map_cons, List.sum_cons, hcaller]
      omega
  next finalFilter filter holds =>
    have hfilter : (filter w).cost (handleCost s (some (.chain finalFilter holds))) =
        handleCost s (some (.chain (.layer finalFilter filter) holds)) w := rfl
    have hcaller : Caller.cost s ⟨k, some (.chain (.layer finalFilter filter) false), noexcept⟩ =
        (k true).cost (handleCost s (some (.chain (.layer finalFilter filter) holds))) +
          (k false).cost (handleCost s (some (.chain (.layer finalFilter filter) holds))) := rfl
    rw [goesOn_cost, hfilter, List.map_cons, List.sum_cons, hcaller]
    omega

theorem handleCost_none_le (handle : Option (Handle V A)) (w : MsgWrapper V) :
    handleCost s none w ≤ handleCost s handle w := Nat.zero_le _

/-- A thread that has not ended can take a step, which costs something, or has called `std::terminate`. -/
theorem exists_step {t : Thread V A} (ht : t ≠ .ended) :
    ∃ o, t.step s 0 = some o ∧ (o.terminates = true ∨ o.cost s < t.cost s) := by
  rcases t with _ | ⟨⟨p, handle, noexcept⟩, callers, owns⟩
  · exact (ht rfl).elim
  generalize hrest : (callers.map (Caller.cost s)).sum = rest
  have hcost : Thread.cost s (.running ⟨p, handle, noexcept⟩ callers owns) =
      p.cost (handleCost s handle) + rest := by rw [← hrest]; rfl
  have hgoesOn : ∀ (q : Code (MsgWrapper V) A) (handle : Option (Handle V A)) (ops : List PtrOp),
      (goesOn q handle noexcept callers owns ops).cost s = q.cost (handleCost s handle) + rest := by
    intro q handle ops
    rw [goesOn_cost, hrest]
  have hleave : ∀ threw, (leave threw handle callers owns).cost s < 1 + rest := by
    intro threw
    rw [← hrest, Nat.add_comm]
    exact Nat.lt_succ_of_le (leave_cost threw handle callers owns)
  rw [hcost]
  cases p with
  | ret => exact ⟨_, rfl, Or.inr (hleave false)⟩
  | throw =>
    cases noexcept with
    | false => exact ⟨_, rfl, Or.inr (hleave true)⟩
    | true => exact ⟨_, rfl, Or.inl rfl⟩
  | act a p =>
    exact ⟨_, rfl, Or.inr ((hgoesOn p handle []).trans_lt (Nat.add_lt_add_right (Nat.lt_succ_self _) rest))⟩
  | ask k =>
    exact ⟨_, rfl, Or.inr ((hgoesOn (k 0) handle []).trans_lt
      (Nat.add_lt_add_right (Nat.lt_succ_self _) rest))⟩
  | call w k =>
    refine ⟨_, rfl, Or.inr ?_⟩
    rw [← hrest]
    exact call_cost w k handle noexcept callers owns
  | drop p =>
    have hp := p.cost_mono (handleCost_none_le (s := s) handle)
    exact ⟨_, rfl, Or.inr ((hgoesOn p none _).trans_lt
      (Nat.add_lt_add_right (Nat.lt_succ_of_le hp) rest))⟩
  | fork moves t p =>
    have hp := p.cost_mono (handleCost_none_le (s := s) handle)
    have hforked : ∀ q : Stepped V A, ({ q with
        forked := [.running ⟨t, handle, false⟩ [] false] } : Stepped V A).cost s =
          q.thread.cost s + t.cost (handleCost s handle) := fun q => rfl
    cases moves with
    | false =>
      refine ⟨_, rfl, Or.inr ?_⟩
      rw [hforked, Code.cost]
      have hthread : (goesOn p handle noexcept callers owns (copies handle)).thread.cost s =
          p.cost (handleCost s handle) + rest := hgoesOn p handle []
      omega
    | true =>
      refine ⟨_, rfl, Or.inr ?_⟩
      rw [hforked, Code.cost]
      have hthread : (goesOn p none noexcept callers owns []).thread.cost s =
          p.cost (handleCost s none) + rest := hgoesOn p none []
      omega

theorem step_eq_none {s : Subscriber V A} {t : Thread V A} : (∀ n, t.step s n = none) ↔ t = .ended := by
  constructor
  · intro h
    by_contra ht
    obtain ⟨o, ho, -⟩ := exists_step (s := s) ht
    cases (h 0).symm.trans ho
  · rintro rfl n
    rfl

end Thread

namespace Delivery

variable {s : Subscriber V A} {d d' : Delivery V A} {c : FinalFilter V A} {w : MsgWrapper V}

/-- A delivery goes on until its threads have ended, or the process has. -/
theorem stuck_iff : (∀ i n, d.step s i n = none) ↔ d.terminated = true ∨ d.Ended := by
  constructor
  · intro h
    cases hd : d.terminated with
    | true => exact Or.inl rfl
    | false =>
      refine Or.inr fun t ht => (Thread.step_eq_none (s := s)).1 fun n => ?_
      obtain ⟨i, hi⟩ := List.getElem?_of_mem ht
      cases ho : t.step s n with
      | none => rfl
      | some o => cases (h i n).symm.trans (step_eq_some.2 ⟨hd, t, o, hi, ho, rfl⟩)
  · intro h i n
    cases hstep : d.step s i n with
    | none => rfl
    | some d' =>
      obtain ⟨hrunning, t, o, ht, ho, -⟩ := step_eq_some.1 hstep
      rcases h with hterminated | hended
      · cases hrunning.symm.trans hterminated
      · rw [hended t (List.mem_of_getElem? ht)] at ho
        cases ho

/-- Every delivery can come to its end. -/
theorem exists_end (s : Subscriber V A) (d : Delivery V A) :
    ∃ moves d', d.run s moves = some d' ∧ (d'.terminated = true ∨ d'.Ended) := by
  induction hcost : (d.threads.map (Thread.cost s)).sum using Nat.strong_induction_on generalizing d with
  | _ cost ih =>
    by_cases hstuck : d.terminated = true ∨ d.Ended
    · exact ⟨[], d, rfl, hstuck⟩
    rw [not_or, Bool.not_eq_true] at hstuck
    obtain ⟨t, ht, htop⟩ : ∃ t ∈ d.threads, t ≠ .ended := by simpa [Ended] using hstuck.2
    obtain ⟨i, hi⟩ := List.getElem?_of_mem ht
    obtain ⟨o, ho, hless⟩ := Thread.exists_step (s := s) htop
    obtain ⟨d₁, h₁⟩ : ∃ d₁, d.step s i 0 = some d₁ := ⟨_, step_eq_some.2 ⟨hstuck.1, t, o, hi, ho, rfl⟩⟩
    have hd₁ : d₁.terminated = true ∨ (d₁.threads.map (Thread.cost s)).sum < cost := by
      obtain ⟨-, t', o', ht', ho', rfl⟩ := step_eq_some.1 h₁
      obtain rfl := Option.some.inj (hi.symm.trans ht')
      obtain rfl := Option.some.inj (ho.symm.trans ho')
      refine hless.imp id fun hless => ?_
      obtain ⟨m, hm, hset⟩ := exists_sum_map_set (Thread.cost s) hi
      rw [List.map_append, List.sum_append, hset, Nat.add_right_comm, ← hcost, hm]
      exact Nat.add_lt_add_right hless m
    rcases hd₁ with hterminated | hless
    · exact ⟨[(i, 0)], d₁, by simp [run, h₁], Or.inl hterminated⟩
    · obtain ⟨moves, d', hrun, hd'⟩ := ih _ hless d₁ rfl
      exact ⟨(i, 0) :: moves, d', by simp [run, h₁, hrun], hd'⟩

end Delivery

/-! ### Callbacks that do not throw -/

/-- No exception leaves the program. -/
def Code.NeverThrows {W : Type} : Code W A → Prop
  | .ret => True
  | .throw => False
  | .act _ p => p.NeverThrows
  | .ask k => ∀ n, (k n).NeverThrows
  | .call _ k => ∀ threw, (k threw).NeverThrows
  | .drop p => p.NeverThrows
  | .fork _ _ p => p.NeverThrows

/-- What is required of the callbacks whose calls are `noexcept`. -/
def Subscriber.NeverThrows : Subscriber V A → Prop
  | .proxy callback => ∀ ctx msg, (callback ctx msg).NeverThrows
  | .wrapper _ => True

/-- No exception comes to a `noexcept` call. -/
def Thread.Safe : Thread V A → Prop
  | .ended => True
  | .running top callers _ => (top.noexcept = true → top.code.NeverThrows) ∧
      ∀ c ∈ callers, c.noexcept = true → ∀ threw, (c.rest threw).NeverThrows

theorem Subscriber.NeverThrows.enter {s : Subscriber V A} (hs : s.NeverThrows) {w : MsgWrapper V}
    {p : Code (MsgWrapper V) A} (h : s.enter w = some (p, true)) : p.NeverThrows := by
  cases s with
  | proxy callback =>
    rw [Subscriber.enter] at h
    split at h
    · cases h
    · cases h
      exact hs _ _
  | wrapper callback => cases h

/-- What a safe thread leaves. -/
def Stepped.Safe (o : Stepped V A) : Prop :=
  o.terminates = false ∧ o.thread.Safe ∧ ∀ t ∈ o.forked, t.Safe

namespace Thread

variable {s : Subscriber V A} {callers : List (Caller V A)} {p : Code (MsgWrapper V) A} {noexcept : Bool}

theorem goesOn_safe (hp : noexcept = true → p.NeverThrows)
    (hcallers : ∀ c ∈ callers, c.noexcept = true → ∀ threw, (c.rest threw).NeverThrows)
    (handle : Option (Handle V A)) (owns : Bool) (ops : List PtrOp) :
    (goesOn p handle noexcept callers owns ops).Safe := by
  refine ⟨rfl, ⟨hp, hcallers⟩, fun t ht => ?_⟩
  cases ht

theorem leave_safe (hcallers : ∀ c ∈ callers, c.noexcept = true → ∀ threw, (c.rest threw).NeverThrows)
    (threw : Bool) (handle : Option (Handle V A)) (owns : Bool) : (leave threw handle callers owns).Safe := by
  cases callers with
  | nil =>
    refine ⟨rfl, trivial, fun t ht => ?_⟩
    cases ht
  | cons c callers =>
    rw [List.forall_mem_cons] at hcallers
    exact goesOn_safe (fun hc => hcallers.1 hc threw) hcallers.2 _ _ _

theorem call_safe (hs : s.NeverThrows) {w : MsgWrapper V} {k : Bool → Code (MsgWrapper V) A}
    (hk : noexcept = true → ∀ threw, (k threw).NeverThrows)
    (hcallers : ∀ c ∈ callers, c.noexcept = true → ∀ threw, (c.rest threw).NeverThrows)
    (handle : Option (Handle V A)) (owns : Bool) : (call s w k handle noexcept callers owns).Safe := by
  unfold call
  split
  · exact goesOn_safe (fun h => hk h _) hcallers _ _ _
  · exact goesOn_safe (fun h => hk h _) hcallers _ _ _
  · exact goesOn_safe (fun h => hk h _) hcallers _ _ _
  · split
    · exact goesOn_safe (fun h => hk h _) hcallers _ _ _
    next p noexcept' henter =>
      refine goesOn_safe (fun h => ?_) (List.forall_mem_cons.2 ⟨hk, hcallers⟩) _ _ _
      subst h
      exact hs.enter henter
  · exact goesOn_safe (fun h => by cases h) (List.forall_mem_cons.2 ⟨hk, hcallers⟩) _ _ _

theorem step_safe (hs : s.NeverThrows) {n : ℕ} {t : Thread V A} {o : Stepped V A} (ht : t.Safe)
    (h : t.step s n = some o) : o.Safe := by
  rcases t with _ | ⟨⟨p, handle, noexcept⟩, callers, owns⟩
  · cases h
  obtain ⟨hp, hcallers⟩ := ht
  cases p with
  | ret =>
    obtain rfl := Option.some.inj h
    exact leave_safe hcallers false handle owns
  | throw =>
    cases noexcept with
    | false =>
      obtain rfl := Option.some.inj h
      exact leave_safe hcallers true handle owns
    | true => exact (hp rfl).elim
  | act a p =>
    obtain rfl := Option.some.inj h
    exact goesOn_safe hp hcallers handle owns []
  | ask k =>
    obtain rfl := Option.some.inj h
    exact goesOn_safe (fun h => hp h n) hcallers handle owns []
  | call w k =>
    obtain rfl := Option.some.inj h
    exact call_safe hs hp hcallers handle owns
  | drop p =>
    obtain rfl := Option.some.inj h
    exact goesOn_safe hp hcallers none owns (drops handle)
  | fork moves t p =>
    -- a task is not in a `noexcept` call
    have htask : ∀ t' ∈ [Thread.running ⟨t, handle, false⟩ [] false], t'.Safe := by
      simp [Thread.Safe]
    cases moves with
    | false =>
      obtain rfl := Option.some.inj h
      exact ⟨rfl, ⟨hp, hcallers⟩, htask⟩
    | true =>
      obtain rfl := Option.some.inj h
      exact ⟨rfl, ⟨hp, hcallers⟩, htask⟩

end Thread

namespace Delivery

variable {s : Subscriber V A} {d d' : Delivery V A} {c : FinalFilter V A} {w : MsgWrapper V}

/-- The process goes on, and no exception comes to a `noexcept` call. -/
def Safe (d : Delivery V A) : Prop := d.terminated = false ∧ ∀ t ∈ d.threads, t.Safe

theorem start_safe : (start c w).Safe := by
  refine ⟨rfl, fun t ht => ?_⟩
  obtain rfl := List.mem_singleton.1 ht
  refine ⟨fun h => ?_, fun c hc => ?_⟩
  · cases h
  · cases hc

theorem Safe.step (hs : s.NeverThrows) (hd : d.Safe) {i n : ℕ} (h : d.step s i n = some d') : d'.Safe := by
  obtain ⟨-, t, o, ht, ho, rfl⟩ := step_eq_some.1 h
  obtain ⟨hterminates, hthread, hforked⟩ := Thread.step_safe hs (hd.2 t (List.mem_of_getElem? ht)) ho
  refine ⟨hterminates, fun t' ht' => ?_⟩
  rcases List.mem_append.1 ht' with ht' | ht'
  · rcases List.mem_or_eq_of_mem_set ht' with ht' | rfl
    · exact hd.2 t' ht'
    · exact hthread
  · exact hforked t' ht'

/-- **Main result.** In every state of a delivery the release callback has been called once if the frame of
the callback, the filters with their tasks and the user have all let go of what they had, and not at all
before.  A delivery only stops when all its threads have ended, and then it has been called, or by
`std::terminate`.  Where no callback of a module throws there is no `std::terminate`, and every delivery can
come to its end. -/
theorem subscribe_releases (s : Subscriber V A) (filters : List (ChannelFilter V A)) (w : MsgWrapper V)
    {moves : List (ℕ × ℕ)} (h : (start (collector filters) w).run s moves = some d) :
    (d.released = if d.holders = [] then 1 else 0) ∧
    ((∀ i n, d.step s i n = none) ↔ d.terminated = true ∨ d.Ended) ∧
    (d.Ended → d.released = 1) ∧
    (s.NeverThrows → d.terminated = false ∧
      ∃ moves' d', d.run s moves' = some d' ∧ d'.Ended ∧ d'.released = 1) := by
  have hended : ∀ {moves d}, (start (collector filters) w).run s moves = some d → d.Ended →
      d.released = 1 := by
    intro moves d h hd
    rw [released_eq h, if_pos hd.holders_eq]
  have hrunning : s.NeverThrows → ∀ {moves d}, (start (collector filters) w).run s moves = some d →
      d.terminated = false := by
    intro hs moves d h
    exact (run_induction (fun hd hstep => Safe.step hs hd hstep) start_safe h).1
  refine ⟨released_eq h, stuck_iff, hended h, fun hs => ⟨hrunning hs h, ?_⟩⟩
  obtain ⟨moves', d', hrun, hd'⟩ := exists_end s d
  have hall : (start (collector filters) w).run s (moves ++ moves') = some d' := by
    rw [run_append, h]
    exact hrun
  have hd' : d'.Ended := hd'.resolve_left (by simp [hrunning hs hall])
  exact ⟨moves', d', hrun, hd', hended hall hd'⟩

end Delivery

/-! ### A message that waits -/

/-- A filter that passes a message on in a task. -/
def delayFilter : ChannelFilter ℕ ℕ := fun w => .fork true (.call w fun _ => .ret) .ret

/-- A user who keeps its release handle for a task. -/
def keepsHandle : Subscriber ℕ ℕ := .proxy fun _ _ => .fork true .ret .ret

/-- A user who throws. -/
def throws : Subscriber ℕ ℕ := .proxy fun _ _ => .throw

def exampleTypeSupport : TypeSupport ℕ := ⟨[], fun _ _ => none, fun _ _ => none, id, fun _ _ => rfl⟩

def exampleMsg : MsgWrapper ℕ :=
  ⟨⟨ascii "pb:M", ascii "t", ascii "p", ascii "m", exampleTypeSupport⟩, some 7, ⟨.subscriber, false, ∅⟩, ∅⟩

/-- The run of one thread after the other, by their numbers. -/
def runThreads (s : Subscriber ℕ ℕ) (filters : List (ChannelFilter ℕ ℕ)) (threads : List ℕ) :
    Option (Delivery ℕ ℕ) :=
  (Delivery.start (collector filters) exampleMsg).run s (threads.map (·, 0))

/-- The filter and the callback are left before the user's task ends. -/
theorem subscribe_releases_later :
    (∃ d, runThreads keepsHandle [delayFilter] [0, 0, 0, 0, 1, 1, 1, 1] = some d ∧ d.released = 0) ∧
      ∃ d, runThreads keepsHandle [delayFilter] [0, 0, 0, 0, 1, 1, 1, 1, 2] = some d ∧ d.released = 1 := by
  have hwaits : runThreads keepsHandle [delayFilter] [0, 0, 0, 0, 1, 1, 1, 1] = some
      ⟨[.ended, .ended, .running ⟨.ret, some .release, false⟩ [] false], ⟨1, 0⟩, [], false⟩ := rfl
  have hended : runThreads keepsHandle [delayFilter] [0, 0, 0, 0, 1, 1, 1, 1, 2] = some
      ⟨[.ended, .ended, .ended], ⟨0, 1⟩, [], false⟩ := rfl
  refine ⟨⟨_, hwaits, ?_⟩, ⟨_, hended, ?_⟩⟩
  · exact (Delivery.subscribe_releases keepsHandle [delayFilter] exampleMsg hwaits).1
  · exact (Delivery.subscribe_releases keepsHandle [delayFilter] exampleMsg hended).2.2.1
      (by simp [Delivery.Ended])

/-- A callback of a module that throws ends the process, and the release callback was not called. -/
theorem not_subscribe_releases :
    ¬∀ (s : Subscriber ℕ ℕ) (filters : List (ChannelFilter ℕ ℕ)) (w : MsgWrapper ℕ) (moves : List (ℕ × ℕ))
      (d : Delivery ℕ ℕ), (Delivery.start (collector filters) w).run s moves = some d →
      (∀ i n, d.step s i n = none) → d.released = 1 := by
  intro hclaim
  have hrun : runThreads throws [] [0, 0] = some
      ⟨[.running ⟨.throw, some .release, true⟩ [⟨fun threw => if threw then .throw else .ret,
        some (.chain .base true), false⟩] true], ⟨3, 0⟩, [], true⟩ := rfl
  have hreleased := hclaim throws [] exampleMsg [(0, 0), (0, 0)] _ hrun fun i n => rfl
  cases hreleased

end AimRT.Core.SubscribeCallback
