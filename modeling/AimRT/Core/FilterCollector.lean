import AimRT.Core.ChannelMsg
import AimRT.Lib.Unwinding

/-!
# Filter collectors

`RegisterFilter` puts `final_filter_` into a new one, which calls the filter with a lambda.  The lambda
calls the `final_filter_` of before, and hands on the handle `h`, which it owns.  The collectors of the
framework move `h` when it is put into the next lambda, so that such a lambda can be called once;
`CoFilterManager` refers to the `h` of the call it is in.

So a thread is a stack of filters that wait for their lambdas.  Unwound, it is what is left of the chain
without lambdas, the filter registered last being the outermost.
-/

namespace AimRT.Core

open AimRT.Lib AimRT.Lib.Chain AimRT.Util

variable {W R A B : Type}

/-! ### What passes through a chain -/

inductive RpcContextType where
  | client
  | server
  deriving DecidableEq, Repr

/-- `aimrt::rpc::Context`. -/
structure RpcContext where
  type : RpcContextType
  used : Bool
  timeoutNs : ℕ
  metaData : Context

structure FuncInfo where
  funcName : Bytes
  pkgPath : Bytes
  moduleName : Bytes
  reqSerializationTypes : List Bytes

/-- `InvokeWrapper`; the request and the response are known by their addresses. -/
structure InvokeWrapper (A : Type) where
  info : FuncInfo
  reqPtr : ℕ
  rspPtr : ℕ
  ctx : RpcContext
  callback : Rpc.Status → Prog Empty Unit A

/-- The arguments of a `CoRpcHandle`. -/
structure CoRpcCall where
  ctx : RpcContext
  req : ℕ
  rsp : ℕ

/-! ### Collectors -/

/-- A `final_filter_`: the lambda of the constructor, or that of `RegisterFilter` with what it captured. -/
inductive FinalFilter (W R A : Type) : Type
  | base
  | layer (finalFilter : FinalFilter W R A) (filter : Filter W R A)

/-- A collector; `moves` tells if its lambdas own their handle. -/
structure FilterCollector (W R A : Type) where
  finalFilter : FinalFilter W R A
  moves : Bool

abbrev FrameworkAsyncRpcFilterCollector (A : Type) := FilterCollector (InvokeWrapper A) Unit A

abbrev FrameworkAsyncChannelFilterCollector (V A : Type) := FilterCollector (MsgWrapper V) Unit A

abbrev CoFilterManager (A : Type) := FilterCollector CoRpcCall Rpc.Status A

def FilterCollector.new (moves : Bool) : FilterCollector W R A := ⟨.base, moves⟩

def FrameworkAsyncRpcFilterCollector.new : FrameworkAsyncRpcFilterCollector A :=
  FilterCollector.new true

def FrameworkAsyncChannelFilterCollector.new {V : Type} : FrameworkAsyncChannelFilterCollector V A :=
  FilterCollector.new true

def CoFilterManager.new : CoFilterManager A := FilterCollector.new false

namespace FilterCollector

def registerFilter (c : FilterCollector W R A) (filter : Filter W R A) : FilterCollector W R A :=
  { c with finalFilter := .layer c.finalFilter filter }

def registerFilters (c : FilterCollector W R A) (filters : List (Filter W R A)) :
    FilterCollector W R A :=
  filters.foldl registerFilter c

end FilterCollector

/-! ### Threads -/

/-- The lambda that a filter is given; `holds` tells if its `h` can be called. -/
structure Continuation (W R A : Type) where
  finalFilter : FinalFilter W R A
  holds : Bool

/-- What a thread is in: a filter with its lambda, the handle, or a `std::bad_function_call`. -/
inductive Frame (W R A : Type) : Type
  | filter (p : Prog W R A) (next : Continuation W R A)
  | handler (p : Prog Empty R A)
  | thrown

/-- A filter that waits for its lambda to return. -/
structure Caller (W R A : Type) where
  rest : R → Prog W R A
  next : Continuation W R A

/-- The frames that call or return. -/
inductive Frame.Silent : Frame W R A → Prop
  | filter_ret (r : R) (next : Continuation W R A) : Silent (.filter (.ret r) next)
  | handler_ret (r : R) : Silent (.handler (.ret r))
  | next (w : W) (k : R → Prog W R A) (next : Continuation W R A) : Silent (.filter (.next w k) next)

structure CallStack (W R A : Type) where
  top : Frame W R A
  callers : List (Caller W R A)

/-- A call of the lambda: what runs, and what is left of the lambda. -/
def Continuation.call (moves : Bool) (h : Handler W R A) (w : W) :
    Continuation W R A → Frame W R A × Continuation W R A
  | ⟨.base, true⟩ => (.handler (h w), ⟨.base, true⟩)
  | ⟨.base, false⟩ => (.thrown, ⟨.base, false⟩)
  -- the next lambda takes `h`
  | ⟨.layer finalFilter filter, holds⟩ =>
    (.filter (filter w) ⟨finalFilter, holds⟩, ⟨.layer finalFilter filter, holds && !moves⟩)

/-- The lambda in a task.  One that does not own its handle is gone by then. -/
def Continuation.copy (moves : Bool) (next : Continuation W R A) : Continuation W R A :=
  if moves then next else ⟨.base, false⟩

namespace CallStack

variable (moves : Bool) (h : Handler W R A)

def returned (r : R) : List (Caller W R A) → Option (Stepped (CallStack W R A) A)
  | [] => none
  | c :: callers => some ⟨⟨.filter (c.rest r) c.next, callers⟩, [], []⟩

def step (n : ℕ) : CallStack W R A → Option (Stepped (CallStack W R A) A)
  | ⟨.filter (.ret r) _, callers⟩ => returned r callers
  | ⟨.filter (.act a p) next, callers⟩ => some ⟨⟨.filter p next, callers⟩, [], [a]⟩
  | ⟨.filter (.ask k) next, callers⟩ => some ⟨⟨.filter (k n) next, callers⟩, [], []⟩
  | ⟨.filter (.next w k) next, callers⟩ =>
    some ⟨⟨(next.call moves h w).1, ⟨k, (next.call moves h w).2⟩ :: callers⟩, [], []⟩
  | ⟨.filter (.fork t p) next, callers⟩ =>
    some ⟨⟨.filter p next, callers⟩, [⟨.filter t (next.copy moves), []⟩], []⟩
  | ⟨.handler (.ret r), callers⟩ => returned r callers
  | ⟨.handler p, callers⟩ => (p.step n).map fun s =>
    ⟨⟨.handler s.thread, callers⟩, s.forked.map fun t => ⟨.handler t, []⟩, s.logged⟩
  -- the exception leaves the callers
  | ⟨.thrown, _ :: callers⟩ => some ⟨⟨.thrown, callers⟩, [], []⟩
  | ⟨.thrown, []⟩ => none

/-- The result of a thread that has returned. -/
def result : CallStack W R A → Option R
  | ⟨.filter (.ret r) _, []⟩ => some r
  | ⟨.handler (.ret r), []⟩ => some r
  | _ => none

end CallStack

/-- `InvokeRpc` and `InvokeChannel`: `final_filter_` is called with `h`. -/
def FilterCollector.invoke (c : FilterCollector W R A) (h : Handler W R A) (w : W) :
    Pool (CallStack W R A) A :=
  Pool.start ⟨(Continuation.call c.moves h w ⟨c.finalFilter, true⟩).1, []⟩

/-! ### Unwinding the stacks -/

/-- What `final_filter_` means as a handler. -/
def FinalFilter.handler (h : Handler W R A) : FinalFilter W R A → Handler W R A
  | .base => h
  | .layer finalFilter filter => fun w => (filter w).calling (finalFilter.handler h)

section Unwind

variable (h : Handler W R A)

def Frame.unwind [Inhabited R] : Frame W R A → Prog Empty R A
  | .filter p next => p.calling (next.finalFilter.handler h)
  | .handler p => p
  | .thrown => .ret default

/-- Goes on with the callers. -/
def unwindCallers (p : Prog Empty R A) : List (Caller W R A) → Prog Empty R A
  | [] => p
  | c :: callers =>
    unwindCallers (p.andThen fun r => (c.rest r).calling (c.next.finalFilter.handler h)) callers

def CallStack.unwind [Inhabited R] (s : CallStack W R A) : Prog Empty R A :=
  unwindCallers h (s.top.unwind h) s.callers

theorem step_unwindCallers {p : Prog Empty R A} {n : ℕ} {s : Stepped (Prog Empty R A) A}
    (hs : p.step n = some s) (callers : List (Caller W R A)) :
    (unwindCallers h p callers).step n =
      some ⟨unwindCallers h s.thread callers, s.forked, s.logged⟩ := by
  induction callers generalizing p s with
  | nil => exact hs
  | cons c callers ih => exact ih (Prog.step_andThen hs _)

end Unwind

/-! ### What a filter may do -/

/-- The programs that may run with a lambda: those that call it once at the most, where it loses its
handle then, and those that call it in their own call, where it refers to it. -/
def Allowed (moves holds : Bool) (p : Prog W R A) : Prop :=
  match moves, holds with
  | true, true => p.CallsAtMostOnce
  | false, true => p.EmitsSync calls Set.univ
  | _, false => p.NeverCalls

/-- What is required of the filters of a collector. -/
def Proper (moves : Bool) (f : Filter W R A) : Prop := ∀ w, Allowed moves true (f w)

def FinalFilter.All (P : Filter W R A → Prop) : FinalFilter W R A → Prop
  | .base => True
  | .layer finalFilter filter => finalFilter.All P ∧ P filter

/-- A program and its lambda. -/
def Continuation.Fits (moves : Bool) (next : Continuation W R A) (p : Prog W R A) : Prop :=
  next.finalFilter.All (Proper moves) ∧ Allowed moves next.holds p

def Frame.Fits (moves : Bool) : Frame W R A → Prop
  | .filter p next => next.Fits moves p
  | .handler _ => True
  | .thrown => False

/-- **The invariant of a thread**: every filter is one that may go on with its lambda. -/
def CallStack.Fits (moves : Bool) (s : CallStack W R A) : Prop :=
  s.top.Fits moves ∧ ∀ c ∈ s.callers, ∀ r, c.next.Fits moves (c.rest r)

theorem Allowed.act {moves holds : Bool} {a : A} {p : Prog W R A} (hp : Allowed moves holds (.act a p)) :
    Allowed moves holds p := by
  cases moves <;> cases holds <;> exact hp

theorem Allowed.ask {moves holds : Bool} {k : ℕ → Prog W R A} (hp : Allowed moves holds (.ask k))
    (n : ℕ) : Allowed moves holds (k n) := by
  cases moves <;> cases holds <;> exact hp n

/-- A task has a lambda that it may go on with, and what follows too. -/
theorem Allowed.fork {moves : Bool} {next : Continuation W R A} {t p : Prog W R A}
    (hp : Allowed moves next.holds (.fork t p)) :
    Allowed moves (next.copy moves).holds t ∧ Allowed moves next.holds p := by
  obtain ⟨finalFilter, holds⟩ := next
  cases moves <;> cases holds
  · exact hp.elim id id
  · exact ⟨hp.1, hp.2⟩
  · exact hp.elim id id
  · rcases hp with ⟨ht, hp⟩ | ⟨ht, hp⟩
    · exact ⟨ht, Prog.NeverCalls.callsAtMostOnce hp⟩
    · exact ⟨Prog.NeverCalls.callsAtMostOnce ht, hp⟩

section Steps

variable [Inhabited R] {moves : Bool} {h : Handler W R A} {next : Continuation W R A}

/-- **The call of a lambda**: what runs is what the lambda means, and what is left of it is enough. -/
theorem Continuation.Fits.call {w : W} {k : R → Prog W R A} (hn : next.Fits moves (.next w k)) :
    (next.call moves h w).1.Fits moves ∧ (∀ r, (next.call moves h w).2.Fits moves (k r)) ∧
      ((next.call moves h w).1.unwind h = next.finalFilter.handler h w) ∧
      (next.call moves h w).2.finalFilter = next.finalFilter := by
  obtain ⟨finalFilter, holds⟩ := next
  obtain ⟨hall, hp⟩ := hn
  cases holds with
  | false => cases moves <;> exact (Prog.not_neverCalls_next hp).elim
  | true =>
    cases finalFilter with
    | base =>
      refine ⟨trivial, fun r => ⟨trivial, ?_⟩, rfl, rfl⟩
      cases moves with
      | false => exact hp r
      | true => exact (Prog.CallsAtMostOnce.neverCalls hp r).callsAtMostOnce
    | layer finalFilter filter =>
      refine ⟨⟨hall.1, hall.2 w⟩, fun r => ⟨hall, ?_⟩, rfl, rfl⟩
      cases moves with
      | false => exact hp r
      | true => exact Prog.CallsAtMostOnce.neverCalls hp r

/-- A task that calls the lambda has it, and one that does not never needs it. -/
theorem Continuation.Fits.fork {t p : Prog W R A} (hn : next.Fits moves (.fork t p)) :
    (next.copy moves).Fits moves t ∧ next.Fits moves p ∧
      t.calling ((next.copy moves).finalFilter.handler h) = t.calling (next.finalFilter.handler h) := by
  obtain ⟨hall, hp⟩ := hn
  obtain ⟨ht, hp'⟩ := hp.fork
  cases moves with
  | false => exact ⟨⟨trivial, ht⟩, ⟨hall, hp'⟩, Prog.NeverCalls.calling_eq ht _ _⟩
  | true => exact ⟨⟨hall, ht⟩, ⟨hall, hp'⟩, rfl⟩

namespace CallStack

variable {callers : List (Caller W R A)} {s : CallStack W R A} {n : ℕ}

theorem Fits.returned (hc : ∀ c ∈ callers, ∀ r, c.next.Fits moves (c.rest r)) {r : R}
    {s' : Stepped (CallStack W R A) A} (hs : CallStack.returned r callers = some s') :
    s'.thread.Fits moves ∧ s'.forked = [] ∧ s'.logged = [] ∧
      s'.thread.unwind h = unwindCallers h (.ret r) callers := by
  cases callers with
  | nil => cases hs
  | cons c callers =>
    obtain rfl := Option.some.inj hs
    rw [List.forall_mem_cons] at hc
    exact ⟨⟨hc.1 r, hc.2⟩, rfl, rfl, rfl⟩

/-- A step of a frame that calls or returns. -/
theorem Fits.step_silent (hf : s.Fits moves) (htop : s.top.Silent) {s' : Stepped (CallStack W R A) A}
    (hs : s.step moves h n = some s') :
    s'.thread.Fits moves ∧ s'.forked = [] ∧ s'.logged = [] ∧ s'.thread.unwind h = s.unwind h := by
  obtain ⟨top, callers⟩ := s
  obtain ⟨ht, hc⟩ := hf
  cases htop with
  | filter_ret r next => exact Fits.returned (h := h) hc hs
  | handler_ret r => exact Fits.returned (h := h) hc hs
  | next w k next =>
    obtain rfl := Option.some.inj hs
    obtain ⟨htop, hrest, e, e'⟩ := Continuation.Fits.call (h := h) ht
    refine ⟨⟨htop, List.forall_mem_cons.2 ⟨hrest, hc⟩⟩, rfl, rfl, ?_⟩
    simp only [unwind, unwindCallers, e, e']
    rfl

/-- A step that is one of the program that the frame unwinds to. -/
theorem unwind_step {top top' : Frame W R A} {forked : List (CallStack W R A)} {logged : List A}
    (hs : (top.unwind h).step n = some ⟨top'.unwind h, forked.map (unwind h), logged⟩) :
    (unwind h ⟨top, callers⟩).step n = some (Stepped.map (unwind h) ⟨⟨top', callers⟩, forked, logged⟩) :=
  step_unwindCallers h hs callers

/-- A step of another frame. -/
theorem Fits.step_seen (hf : s.Fits moves) (htop : ¬s.top.Silent) (n : ℕ) :
    ∃ s', s.step moves h n = some s' ∧ (s'.thread.Fits moves ∧ ∀ t ∈ s'.forked, t.Fits moves) ∧
      (s.unwind h).step n = some (s'.map (unwind h)) := by
  obtain ⟨top, callers⟩ := s
  obtain ⟨ht, hc⟩ := hf
  cases top with
  | filter p next =>
    cases p with
    | ret r => exact (htop (.filter_ret r next)).elim
    | next w k => exact (htop (.next w k next)).elim
    | act a p => exact ⟨_, rfl, ⟨⟨⟨ht.1, ht.2.act⟩, hc⟩, by simp⟩, unwind_step rfl⟩
    | ask k => exact ⟨_, rfl, ⟨⟨⟨ht.1, ht.2.ask n⟩, hc⟩, by simp⟩, unwind_step rfl⟩
    | fork t p =>
      obtain ⟨htask, hp, e⟩ := Continuation.Fits.fork (h := h) ht
      have hfork : CallStack.Fits moves ⟨.filter t (next.copy moves), []⟩ := ⟨htask, by simp⟩
      refine ⟨_, rfl, ⟨⟨hp, hc⟩, by simpa using hfork⟩, unwind_step ?_⟩
      simp only [List.map_cons, List.map_nil, unwind, unwindCallers, Frame.unwind, e]
      rfl
  | handler p =>
    cases p with
    | ret r => exact (htop (.handler_ret r)).elim
    | next w k => exact w.elim
    | act a p => exact ⟨_, rfl, ⟨⟨trivial, hc⟩, by simp⟩, unwind_step rfl⟩
    | ask k => exact ⟨_, rfl, ⟨⟨trivial, hc⟩, by simp⟩, unwind_step rfl⟩
    | fork t p =>
      have hfork : CallStack.Fits (W := W) moves ⟨.handler t, []⟩ := ⟨trivial, by simp⟩
      exact ⟨_, rfl, ⟨⟨trivial, hc⟩, by simpa using hfork⟩, unwind_step rfl⟩
  | thrown => exact ht.elim

/-! ### Silent steps end -/

/-- After silent steps the thread does what it unwinds to. -/
def Settles (moves : Bool) (h : Handler W R A) (s : CallStack W R A) : Prop :=
  ∃ s', Relation.ReflTransGen (Silent (step moves h) (unwind h)) s s' ∧
    ∀ n, (s'.unwind h).step n = (s'.step moves h n).map (Stepped.map (unwind h))

theorem Settles.of_seen (hf : s.Fits moves) (htop : ¬s.top.Silent) : s.Settles moves h := by
  refine ⟨s, .refl, fun n => ?_⟩
  obtain ⟨s', hs', -, e⟩ := hf.step_seen (h := h) htop n
  rw [e, hs']
  rfl

theorem Settles.of_silent {s' : CallStack W R A} (hf : s.Fits moves) (htop : s.top.Silent)
    (hs : s.step moves h 0 = some ⟨s', [], []⟩) (hs' : s'.Fits moves → s'.Settles moves h) :
    s.Settles moves h := by
  obtain ⟨hfit, -, -, e⟩ := hf.step_silent htop hs
  obtain ⟨t, hrun, ht⟩ := hs' hfit
  exact ⟨t, hrun.head ⟨hs, e⟩, ht⟩

/-- Threads settle once the top of them has returned. -/
def CallersSettle (moves : Bool) (h : Handler W R A) (callers : List (Caller W R A)) : Prop :=
  ∀ c cs, callers = c :: cs → ∀ r, Fits moves ⟨.filter (c.rest r) c.next, cs⟩ →
    Settles moves h ⟨.filter (c.rest r) c.next, cs⟩

theorem Settles.ret {top : Frame W R A} {r : R} (htop : top = .handler (.ret r) ∨
    ∃ next, top = .filter (.ret r) next) (hf : Fits moves ⟨top, callers⟩)
    (hc : CallersSettle moves h callers) : Settles moves h ⟨top, callers⟩ := by
  have hstep : ∀ n, step moves h n ⟨top, callers⟩ = CallStack.returned r callers := by
    rcases htop with rfl | ⟨next, rfl⟩ <;> exact fun n => rfl
  have hsilent : top.Silent := by
    rcases htop with rfl | ⟨next, rfl⟩
    · exact .handler_ret r
    · exact .filter_ret r next
  cases callers with
  | nil =>
    refine ⟨_, .refl, fun n => ?_⟩
    rw [hstep]
    rcases htop with rfl | ⟨next, rfl⟩ <;> rfl
  | cons c cs => exact .of_silent hf hsilent (hstep 0) (hc c cs rfl r)

theorem Settles.handler {p : Prog Empty R A} (hf : Fits moves ⟨.handler p, callers⟩)
    (hc : CallersSettle moves h callers) : Settles moves h ⟨.handler p, callers⟩ := by
  cases p with
  | ret r => exact .ret (Or.inl rfl) hf hc
  | next w k => exact w.elim
  | act a p => exact .of_seen hf (by rintro ⟨⟩)
  | ask k => exact .of_seen hf (by rintro ⟨⟩)
  | fork t p => exact .of_seen hf (by rintro ⟨⟩)

/-- A filter settles where what its lambda runs does. -/
theorem Settles.filter_of_call (finalFilter : FinalFilter W R A)
    (hcall : ∀ {holds w callers},
      Fits moves ⟨(Continuation.call moves h w ⟨finalFilter, holds⟩).1, callers⟩ →
      CallersSettle moves h callers →
      Settles moves h ⟨(Continuation.call moves h w ⟨finalFilter, holds⟩).1, callers⟩)
    {next : Continuation W R A} (hnext : next.finalFilter = finalFilter) {p : Prog W R A}
    (hf : Fits moves ⟨.filter p next, callers⟩) (hc : CallersSettle moves h callers) :
    Settles moves h ⟨.filter p next, callers⟩ := by
  induction p generalizing next with
  | ret r => exact .ret (Or.inr ⟨_, rfl⟩) hf hc
  | act a p => exact .of_seen hf (by rintro ⟨⟩)
  | ask k => exact .of_seen hf (by rintro ⟨⟩)
  | fork t p => exact .of_seen hf (by rintro ⟨⟩)
  | next w k ih =>
    have hleft := (Continuation.Fits.call (h := h) hf.1).2.2.2
    obtain ⟨finalFilter', holds⟩ := next
    obtain rfl := hnext
    refine .of_silent hf (.next w k _) rfl fun hf' => hcall hf' ?_
    rintro c cs ⟨⟩ r hf''
    exact ih r hleft hf''

/-- The induction is on the lambda, which runs a filter further in. -/
theorem Settles.filter {finalFilter : FinalFilter W R A} {holds : Bool} {p : Prog W R A}
    (hf : Fits moves ⟨.filter p ⟨finalFilter, holds⟩, callers⟩) (hc : CallersSettle moves h callers) :
    Settles moves h ⟨.filter p ⟨finalFilter, holds⟩, callers⟩ := by
  induction finalFilter generalizing holds p callers with
  | base =>
    refine filter_of_call .base (fun {holds w callers} hf hc => ?_) rfl hf hc
    cases holds with
    | false => exact hf.1.elim
    | true => exact .handler hf hc
  | layer finalFilter f ih =>
    exact filter_of_call (.layer finalFilter f) (fun hf hc => ih hf hc) rfl hf hc

theorem Settles.of_callers {top : Frame W R A} (hf : Fits moves ⟨top, callers⟩)
    (hc : CallersSettle moves h callers) : Settles moves h ⟨top, callers⟩ := by
  cases top with
  | filter p next => exact .filter hf hc
  | handler p => exact .handler hf hc
  | thrown => exact hf.1.elim

theorem Fits.settles (hf : s.Fits moves) : s.Settles moves h := by
  obtain ⟨top, callers⟩ := s
  induction callers generalizing top with
  | nil => exact .of_callers hf fun c cs e => by cases e
  | cons c callers ih =>
    refine .of_callers hf ?_
    rintro c cs ⟨⟩ r hf
    exact ih _ hf

/-- **The stacks unwind to the chain.** -/
theorem unwinds : Unwinds (step moves h) Prog.step (Fits moves) (unwind h) where
  inv := by
    intro n t s hf hs
    by_cases htop : t.top.Silent
    · obtain ⟨hfit, hfork, -, -⟩ := hf.step_silent (h := h) htop hs
      exact ⟨hfit, by simp [hfork]⟩
    · obtain ⟨s', hs', hfit, -⟩ := hf.step_seen (h := h) htop _
      obtain rfl := Option.some.inj (hs.symm.trans hs')
      exact hfit
  step := by
    intro n t s hf hs
    by_cases htop : t.top.Silent
    · exact Or.inl (hf.step_silent htop hs).2
    · obtain ⟨s', hs', -, e⟩ := hf.step_seen (h := h) htop _
      obtain rfl := Option.some.inj (hs.symm.trans hs')
      exact Or.inr e
  settle hf := hf.settles

end CallStack

end Steps

end AimRT.Core
