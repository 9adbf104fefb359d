import AimRT.Util.Context

/-!
# Trace filters

`ChannelTraceFilter` and `RpcTraceFilter` start a span below the one that the context has, and pack the new
span into the context.  The rpc filter does this before it passes the call on, the channel filter after it has
passed the message on.  A chain of hops is traced when the context of a hop is the one that the backend of the
hop before has seen.
-/

namespace AimRT.OpenTelemetry

open AimRT.Lib AimRT.Util

/-! ### Keys and carriers -/

def kCtxKeyPrefix : Bytes := ascii "aimrt_otp-"

def kCtxKeyStartNewTrace : Bytes := ascii "aimrt_otp-start_new_trace"

/-- `CheckIEqual`. -/
def checkIEqual (str1 str2 : Bytes) : Bool :=
  let tolower (c : UInt8) : UInt8 := if 65 ≤ c && c ≤ 90 then c + 32 else c
  str1.map tolower = str2.map tolower

/-- `ContextCarrier::Get`. -/
def carrierGet (ctx : Context) (key : Bytes) : Bytes := ctx.getMetaValue (kCtxKeyPrefix ++ key)

/-- `ContextCarrier::Set`. -/
def carrierSet (ctx : Context) (key value : Bytes) : Context := ctx.setMetaValue (kCtxKeyPrefix ++ key) value

/-! ### Spans -/

/-- What opentelemetry does: `inject` is what is given to `Set` of the carrier, `extract` reads by its `Get`, and
`startSpan` has the identity of the span that is started as the `n`-th one. -/
structure Otel (I : Type) where
  inject : I → List (Bytes × Bytes)
  extract : (Bytes → Bytes) → Option I
  startSpan : ℕ → Option I → I
  traceId : I → ℕ

/-- The values of a carrier after calls of `Set`. -/
def overlay (get : Bytes → Bytes) (pairs : List (Bytes × Bytes)) : Bytes → Bytes :=
  pairs.foldl (fun get pair key => if key = pair.1 then pair.2 else get key) get

/-- What is documented of it.  The keys are those of the W3C trace context, and a span is not its own parent. -/
structure Otel.Lawful {I : Type} (otel : Otel I) : Prop where
  extract_inject : ∀ i get, otel.extract (overlay get (otel.inject i)) = some i
  extract_congr : ∀ get get' : Bytes → Bytes, get (ascii "traceparent") = get' (ascii "traceparent") →
    get (ascii "tracestate") = get' (ascii "tracestate") → otel.extract get = otel.extract get'
  startSpan_ne : ∀ n i, otel.startSpan n (some i) ≠ i
  traceId_startSpan : ∀ n i, otel.traceId (otel.startSpan n (some i)) = otel.traceId i

inductive SpanKind where
  | producer
  | consumer
  | client
  | server
  deriving DecidableEq, Repr

structure Span (I : Type) where
  name : Bytes
  kind : SpanKind
  parent : Option I
  identity : I

/-! ### The filters -/

/-- What a filter does: the context that the handle is called with, the span, and the context afterwards. -/
structure Filtered (I : Type) where
  passedOn : Context
  span : Option (Span I)
  after : Context

inductive ChannelFilterType where
  | publisher
  | subscriber
  deriving DecidableEq, Repr

inductive RpcFilterType where
  | client
  | server
  deriving DecidableEq, Repr

section Filter

variable {I : Type} (otel : Otel I)

/-- A forced trace is noted in the context. -/
def noteForced (forceTrace : Bool) (ctx : Context) : Context :=
  if forceTrace then ctx.setMetaValue kCtxKeyStartNewTrace (ascii "true") else ctx

/-- `start_new_trace`, after the context was unpacked. -/
def startNewTrace (forceTrace : Bool) (ctx : Context) : Bool :=
  forceTrace || checkIEqual (ctx.getMetaValue kCtxKeyStartNewTrace) (ascii "true") ||
    (otel.extract (carrierGet (noteForced forceTrace ctx))).isSome

/-- `propagator_->Inject`. -/
def injectSpan (i : I) (ctx : Context) : Context :=
  (otel.inject i).foldl (fun ctx pair => carrierSet ctx pair.1 pair.2) ctx

/-- `ChannelTraceFilter`: the message is published first. -/
def channelTraceFilter (forceTrace : Bool) (type : ChannelFilterType) (topicName msgType : Bytes) (n : ℕ)
    (ctx : Context) : Filtered I :=
  let noted := noteForced forceTrace ctx
  if !startNewTrace otel forceTrace ctx then ⟨noted, none, noted⟩
  else
    let parent := otel.extract (carrierGet noted)
    let kind := match type with
      | .publisher => SpanKind.producer
      | .subscriber => SpanKind.consumer
    let span : Span I := ⟨topicName ++ ascii "/" ++ msgType, kind, parent, otel.startSpan n parent⟩
    ⟨noted, some span, injectSpan otel span.identity noted⟩

/-- `RpcTraceFilter`. -/
def rpcTraceFilter (forceTrace : Bool) (type : RpcFilterType) (functionName : Bytes) (n : ℕ) (ctx : Context) :
    Filtered I :=
  let noted := noteForced forceTrace ctx
  if !startNewTrace otel forceTrace ctx then ⟨noted, none, noted⟩
  else
    let parent := otel.extract (carrierGet noted)
    let kind := match type with
      | .client => SpanKind.client
      | .server => SpanKind.server
    let span : Span I := ⟨functionName, kind, parent, otel.startSpan n parent⟩
    let packed := injectSpan otel span.identity noted
    ⟨packed, some span, packed⟩

/-- A hop through the filter of a process, which has its own `force_trace`. -/
inductive Hop where
  | channel (forceTrace : Bool) (type : ChannelFilterType) (topicName msgType : Bytes)
  | rpc (forceTrace : Bool) (type : RpcFilterType) (functionName : Bytes)
  deriving DecidableEq, Repr

namespace Hop

def forceTrace : Hop → Bool
  | channel f _ _ _ => f
  | rpc f _ _ => f

def isRpc : Hop → Bool
  | channel _ _ _ _ => false
  | rpc _ _ _ => true

end Hop

def filter (n : ℕ) (ctx : Context) : Hop → Filtered I
  | .channel f type topicName msgType => channelTraceFilter otel f type topicName msgType n ctx
  | .rpc f type functionName => rpcTraceFilter otel f type functionName n ctx

/-- The spans of a chain of hops; each context is the one that the hop before has passed on. -/
def spans : ℕ → Context → List Hop → List (Option (Span I))
  | _, _, [] => []
  | n, ctx, hop :: hops =>
    (filter otel n ctx hop).span :: spans (n + 1) (filter otel n ctx hop).passedOn hops

theorem spans_nil (n : ℕ) (ctx : Context) : spans otel n ctx [] = [] := rfl

theorem spans_cons (n : ℕ) (ctx : Context) (hop : Hop) (hops : List Hop) : spans otel n ctx (hop :: hops) =
    (filter otel n ctx hop).span :: spans otel (n + 1) (filter otel n ctx hop).passedOn hops := rfl

end Filter

/-! ### Linked spans -/

section Linked

variable {I : Type} (otel : Otel I)

/-- Every hop has a span below that of the hop before, in its trace. -/
def Follow (prev : Span I) : List (Option (Span I)) → Prop
  | [] => True
  | none :: _ => False
  | some span :: rest => (span.parent = some prev.identity ∧
      otel.traceId span.identity = otel.traceId prev.identity) ∧ Follow span rest

theorem follow_nil (prev : Span I) : Follow otel prev [] := trivial

theorem follow_some {prev span : Span I} {rest : List (Option (Span I))} : Follow otel prev (some span :: rest) ↔
    (span.parent = some prev.identity ∧ otel.traceId span.identity = otel.traceId prev.identity) ∧
      Follow otel span rest := Iff.rfl

/-- **All hops share one trace**, from the first that is traced on. -/
def Linked : List (Option (Span I)) → Prop
  | [] => True
  | none :: rest => Linked rest
  | some span :: rest => Follow otel span rest

theorem linked_none {rest : List (Option (Span I))} : Linked otel (none :: rest) ↔ Linked otel rest := Iff.rfl

theorem linked_some {span : Span I} {rest : List (Option (Span I))} :
    Linked otel (some span :: rest) ↔ Follow otel span rest := Iff.rfl

/-- From the first hop that is traced on, all hops but the last are rpc hops. -/
def RpcBetween (ctx : Context) : List Hop → Prop
  | [] => True
  | hop :: hops =>
    if startNewTrace otel hop.forceTrace ctx then ∀ h ∈ (hop :: hops).dropLast, h.isRpc = true
    else RpcBetween ctx hops

theorem rpcBetween_cons {ctx : Context} {hop : Hop} {hops : List Hop} : RpcBetween otel ctx (hop :: hops) ↔
    if startNewTrace otel hop.forceTrace ctx then ∀ h ∈ (hop :: hops).dropLast, h.isRpc = true
    else RpcBetween otel ctx hops := Iff.rfl

end Linked

/-! ### What a hop passes on -/

section PassedOn

variable {I : Type} {otel : Otel I}

theorem carrierGet_carrierSet (ctx : Context) (key value : Bytes) :
    carrierGet (carrierSet ctx key value) = fun k => if k = key then value else carrierGet ctx k := by
  funext k
  unfold carrierGet carrierSet Context.getMetaValue Context.setMetaValue
  by_cases hk : k = key
  · rw [hk, AList.lookup_insert, if_pos rfl, Option.getD_some]
  · have hne : kCtxKeyPrefix ++ k ≠ kCtxKeyPrefix ++ key := fun e => hk (List.append_cancel_left e)
    rw [AList.lookup_insert_ne hne, if_neg hk]

theorem carrierGet_injectSpan (i : I) (ctx : Context) :
    carrierGet (injectSpan otel i ctx) = overlay (carrierGet ctx) (otel.inject i) := by
  unfold injectSpan overlay
  induction otel.inject i generalizing ctx with
  | nil => rfl
  | cons pair pairs ih => rw [List.foldl_cons, ih, carrierGet_carrierSet, List.foldl_cons]

theorem extract_injectSpan (hotel : otel.Lawful) (i : I) (ctx : Context) :
    otel.extract (carrierGet (injectSpan otel i ctx)) = some i := by
  rw [carrierGet_injectSpan, hotel.extract_inject]

theorem extract_noteForced (hotel : otel.Lawful) (forceTrace : Bool) (ctx : Context) :
    otel.extract (carrierGet (noteForced forceTrace ctx)) = otel.extract (carrierGet ctx) := by
  cases forceTrace with
  | false => rfl
  | true =>
    have hparent : kCtxKeyPrefix ++ ascii "traceparent" ≠ kCtxKeyStartNewTrace := by decide
    have hstate : kCtxKeyPrefix ++ ascii "tracestate" ≠ kCtxKeyStartNewTrace := by decide
    refine hotel.extract_congr _ _ ?_ ?_
    · simp only [carrierGet, Context.getMetaValue, noteForced, Context.setMetaValue, if_true]
      rw [AList.lookup_insert_ne hparent]
    · simp only [carrierGet, Context.getMetaValue, noteForced, Context.setMetaValue, if_true]
      rw [AList.lookup_insert_ne hstate]

theorem startNewTrace_of_extract (hotel : otel.Lawful) {ctx : Context} {i : I}
    (h : otel.extract (carrierGet ctx) = some i) (forceTrace : Bool) :
    startNewTrace otel forceTrace ctx = true := by
  simp [startNewTrace, extract_noteForced hotel, h]

/-- The span of a hop that is traced. -/
theorem filter_span (hotel : otel.Lawful) {ctx : Context} {hop : Hop} (n : ℕ)
    (h : startNewTrace otel hop.forceTrace ctx = true) :
    ∃ span, (filter otel n ctx hop).span = some span ∧ span.parent = otel.extract (carrierGet ctx) ∧
      span.identity = otel.startSpan n span.parent ∧
      otel.extract (carrierGet (filter otel n ctx hop).passedOn) =
        if hop.isRpc then some span.identity else span.parent := by
  cases hop with
  | channel f type topicName msgType =>
    simp only [Hop.forceTrace] at h
    simp only [filter, channelTraceFilter, h, Bool.not_true, Bool.false_eq_true, if_false]
    exact ⟨_, rfl, extract_noteForced hotel f ctx, rfl, rfl⟩
  | rpc f type functionName =>
    simp only [Hop.forceTrace] at h
    simp only [filter, rpcTraceFilter, h, Bool.not_true, Bool.false_eq_true, if_false]
    exact ⟨_, rfl, extract_noteForced hotel f ctx, rfl, extract_injectSpan hotel _ _⟩

theorem filter_of_not_startNewTrace {ctx : Context} {hop : Hop} (n : ℕ)
    (h : startNewTrace otel hop.forceTrace ctx = false) :
    (filter otel n ctx hop).span = none ∧ (filter otel n ctx hop).passedOn = ctx := by
  have hforce : hop.forceTrace = false := by
    simp only [startNewTrace, Bool.or_eq_false_iff] at h
    exact h.1.1
  cases hop with
  | channel f type topicName msgType =>
    simp only [Hop.forceTrace] at h hforce
    subst hforce
    simp [filter, channelTraceFilter, h, noteForced]
  | rpc f type functionName =>
    simp only [Hop.forceTrace] at h hforce
    subst hforce
    simp [filter, rpcTraceFilter, h, noteForced]

/-! ### Chains -/

/-- After a channel hop the next hop is not below its span. -/
theorem not_follow_spans (hotel : otel.Lawful) {ctx : Context} {prev : Span I}
    (hprev : ∃ n, prev.identity = otel.startSpan n (otel.extract (carrierGet ctx))) (n : ℕ) {hops : List Hop}
    (hhops : hops ≠ []) : ¬Follow otel prev (spans otel n ctx hops) := by
  obtain ⟨hop, hops, rfl⟩ := List.exists_cons_of_ne_nil hhops
  rw [spans_cons]
  cases hstart : startNewTrace otel hop.forceTrace ctx with
  | false =>
    rw [(filter_of_not_startNewTrace n hstart).1]
    exact not_false
  | true =>
    obtain ⟨span, hspan, hparent, -, -⟩ := filter_span hotel n hstart
    rw [hspan]
    rintro ⟨⟨hlink, -⟩, -⟩
    obtain ⟨m, hm⟩ := hprev
    rw [hparent] at hlink
    rw [hlink] at hm
    exact hotel.startSpan_ne m _ hm.symm

/-- Behind a hop that is traced: the hops behind an rpc hop are below its span, and behind a channel hop there is none
that is. -/
theorem follow_passedOn_iff (hotel : otel.Lawful) {passedOn : Context} {span : Span I} {n m : ℕ} {hop : Hop}
    {hops : List Hop} (hidentity : span.identity = otel.startSpan n span.parent)
    (hpassed : otel.extract (carrierGet passedOn) = if hop.isRpc then some span.identity else span.parent)
    (hrest : otel.extract (carrierGet passedOn) = some span.identity →
      (Follow otel span (spans otel m passedOn hops) ↔ ∀ h ∈ hops.dropLast, h.isRpc = true)) :
    Follow otel span (spans otel m passedOn hops) ↔ ∀ h ∈ (hop :: hops).dropLast, h.isRpc = true := by
  by_cases hhops : hops = []
  · simp [hhops, spans_nil, follow_nil]
  · rw [List.dropLast_cons_of_ne_nil hhops, List.forall_mem_cons]
    cases hrpc : hop.isRpc with
    | true =>
      rw [hrpc, if_pos rfl] at hpassed
      rw [hrest hpassed, and_iff_right rfl]
    | false =>
      refine iff_of_false ?_ fun h => by cases h.1
      rw [hrpc] at hpassed
      exact not_follow_spans hotel ⟨n, by rw [hidentity, hpassed]; rfl⟩ m hhops

theorem follow_spans_iff (hotel : otel.Lawful) {ctx : Context} {prev : Span I}
    (hctx : otel.extract (carrierGet ctx) = some prev.identity) (n : ℕ) (hops : List Hop) :
    Follow otel prev (spans otel n ctx hops) ↔ ∀ h ∈ hops.dropLast, h.isRpc = true := by
  induction hops generalizing ctx prev n with
  | nil => simp [spans_nil, follow_nil]
  | cons hop hops ih =>
    obtain ⟨span, hspan, hparent, hidentity, hpassed⟩ :=
      filter_span hotel n (startNewTrace_of_extract hotel hctx hop.forceTrace)
    rw [hctx] at hparent
    have hlink : span.parent = some prev.identity ∧ otel.traceId span.identity = otel.traceId prev.identity := by
      refine ⟨hparent, ?_⟩
      rw [hidentity, hparent, hotel.traceId_startSpan]
    rw [spans_cons, hspan, follow_some, and_iff_right hlink]
    exact follow_passedOn_iff hotel hidentity hpassed fun hspan => ih hspan (n + 1)

/-- **When the hops of a chain share one trace**: from the first hop that is traced on, all but the last are
rpc hops. -/
theorem linked_spans_iff (hotel : otel.Lawful) (n : ℕ) (ctx : Context) (hops : List Hop) :
    Linked otel (spans otel n ctx hops) ↔ RpcBetween otel ctx hops := by
  induction hops generalizing n with
  | nil => exact Iff.rfl
  | cons hop hops ih =>
    rw [spans_cons, rpcBetween_cons]
    cases hstart : startNewTrace otel hop.forceTrace ctx with
    | false =>
      obtain ⟨hspan, hpassed⟩ := filter_of_not_startNewTrace n hstart
      rw [hspan, hpassed, linked_none, ih]
      simp
    | true =>
      obtain ⟨span, hspan, hparent, hidentity, hpassed⟩ := filter_span hotel n hstart
      rw [hspan, linked_some, if_pos rfl]
      exact follow_passedOn_iff hotel hidentity hpassed fun hspan => follow_spans_iff hotel hspan (n + 1) hops

end PassedOn

/-! ### A chain that is not linked -/

/-- Identities are what `traceparent` carries; a span below another one appends to it. -/
def plainOtel : Otel { b : Bytes // b ≠ [] } where
  inject i := [(ascii "traceparent", i.1)]
  extract get := if h : get (ascii "traceparent") = [] then none else some ⟨_, h⟩
  startSpan n
    | none => ⟨[UInt8.ofNat n], by simp⟩
    | some i => ⟨i.1 ++ [UInt8.ofNat n], by simp⟩
  traceId i := (i.1.head i.2).toNat

theorem plainOtel_lawful : plainOtel.Lawful where
  extract_inject i get := by
    have hget : overlay get (plainOtel.inject i) (ascii "traceparent") = i.1 := by
      simp [overlay, plainOtel]
    simp only [plainOtel] at hget ⊢
    rw [dif_neg (by rw [hget]; exact i.2)]
    exact congrArg some (Subtype.ext hget)
  extract_congr get get' h _ := by
    simp only [plainOtel, h]
  startSpan_ne n i e := by
    have hlen := congrArg (fun j : { b : Bytes // b ≠ [] } => j.1.length) e
    simp [plainOtel] at hlen
  traceId_startSpan n i := by
    simp only [plainOtel]
    rw [List.head_append_of_ne_nil i.2]

/-- A call of a client and of its service, from which a message is published. -/
theorem linked_spans_call : plainOtel.Lawful ∧ Linked plainOtel (spans plainOtel 0 ∅
    [.rpc true .client (ascii "f"), .rpc false .server (ascii "f"),
      .channel false .publisher (ascii "t") (ascii "m")]) := by
  refine ⟨plainOtel_lawful, (linked_spans_iff plainOtel_lawful _ _ _).2 ?_⟩
  simp [RpcBetween, startNewTrace, Hop.forceTrace, Hop.isRpc]

/-- The subscriber's span is not below the publisher's. -/
theorem not_linked_spans : ¬∀ (I : Type) (otel : Otel I), otel.Lawful → ∀ (n : ℕ) (ctx : Context)
    (hops : List Hop), Linked otel (spans otel n ctx hops) := by
  intro h
  have hlinked := h _ plainOtel plainOtel_lawful 0 ∅
    [.channel true .publisher (ascii "t") (ascii "m"), .channel true .subscriber (ascii "t") (ascii "m")]
  exact absurd hlinked.1.1 (by decide)

end AimRT.OpenTelemetry
