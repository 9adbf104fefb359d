import AimRT.Lib.Table
import AimRT.Util.Context

/-!
# Client pools

`GetClient` of the client pools for http2, tcp and udp.  A pool files a client under a key of its
address: the host and the service one behind the other, or the hash of the endpoint.  A request gets
the running client of its key, without a look at the address of this client, and else a new one; where
the pool is full, the clients that do not run make room.

A shared pointer to a client is its position among all clients of the pool so far.
-/

namespace AimRT.Net

open AimRT.Lib AimRT.Util

/-- The states of the clients and of the pools. -/
inductive PoolState where
  | preInit
  | init
  | start
  | shutdown
  deriving DecidableEq, Repr

/-- A class of clients: `verify` of its options, the address in them, and the key of the pool. -/
structure ClientClass (O A K : Type) where
  verify : O → O
  addr : O → A
  key : A → K
  addr_verify : ∀ o, addr (verify o) = addr o

structure Client (O : Type) where
  options : O
  state : PoolState

def Client.isRunning {O : Type} (c : Client O) : Bool := c.state = .start

def Client.shutdown {O : Type} (c : Client O) : Client O := { c with state := .shutdown }

/-- `closing` counts the closures that `Shutdown` has dispatched. -/
structure ClientPool (O K : Type) where
  state : PoolState
  maxClientNum : ℕ
  clients : List (Client O)
  clientMap : AList fun _ : K => ℕ
  closing : ℕ

inductive GetResult where
  | null
  | full
  | client (ptr : ℕ)
  deriving DecidableEq, Repr

inductive PoolEvent (O : Type) where
  | poolInitialize (maxClientNum : ℕ)
  | start
  | getClient (o : O)
  /-- A holder of a client shuts it down. -/
  | clientShutdown (ptr : ℕ)
  | shutdown
  | clear

namespace ClientPool

variable {O A K : Type} [DecidableEq K]

def new : ClientPool O K := ⟨.preInit, 1000, [], ∅, 0⟩

/-- `Options::Verify` of all three pools. -/
def verify (maxClientNum : ℕ) : ℕ := max maxClientNum 10

def isRunning (p : ClientPool O K) (ptr : ℕ) : Bool := (p.clients[ptr]?).any Client.isRunning

/-- The loop over the clients that erases those that do not run. -/
def eraseStopped (p : ClientPool O K) : AList fun _ : K => ℕ :=
  p.clientMap.entries.foldl (fun m e => if p.isRunning e.2 then m else m.erase e.1) p.clientMap

/-- The clients that do not run make room, if there are as many clients as there may be. -/
def evict (p : ClientPool O K) : ClientPool O K :=
  if p.clientMap.entries.length ≥ p.maxClientNum then { p with clientMap := p.eraseStopped } else p

/-- `Initialize` and `Start` of a new client, and its entry. -/
def emplace (cls : ClientClass O A K) (o : O) (p : ClientPool O K) : ClientPool O K :=
  { p with
    clients := p.clients ++ [⟨cls.verify o, .start⟩]
    clientMap := p.clientMap.insert (cls.key (cls.addr o)) p.clients.length }

/-- A new client, if there is room for it. -/
def create (cls : ClientClass O A K) (o : O) (p : ClientPool O K) : ClientPool O K × GetResult :=
  if p.clientMap.entries.length ≥ p.maxClientNum then (p, .full)
  else (p.emplace cls o, .client p.clients.length)

def getClient (cls : ClientClass O A K) (p : ClientPool O K) (o : O) :
    ClientPool O K × GetResult :=
  if p.state ≠ .start then (p, .null)
  else
    let clientKey := cls.key (cls.addr o)
    match p.clientMap.lookup clientKey with
    | some ptr =>
      if p.isRunning ptr then (p, .client ptr)
      else create cls o (evict { p with clientMap := p.clientMap.erase clientKey })
    | none => create cls o p.evict

/-- The closure that `Shutdown` has dispatched. -/
def clear (p : ClientPool O K) : ClientPool O K :=
  if p.closing = 0 then p
  else
    { p with
      closing := p.closing - 1
      clients := p.clientMap.entries.foldl (fun cs e => cs.modify e.2 Client.shutdown) p.clients
      clientMap := ∅ }

/-- `Initialize` and `Start` change the state before they look at the state that was. -/
def step (cls : ClientClass O A K) (p : ClientPool O K) : PoolEvent O → ClientPool O K
  | .poolInitialize maxClientNum =>
    if p.state = .preInit then { p with state := .init, maxClientNum := verify maxClientNum }
    else { p with state := .init }
  | .start => { p with state := .start }
  | .getClient o => (p.getClient cls o).1
  | .clientShutdown ptr => { p with clients := p.clients.modify ptr Client.shutdown }
  | .shutdown =>
    if p.state = .shutdown then p else { p with state := .shutdown, closing := p.closing + 1 }
  | .clear => p.clear

/-- What an event hands out: the options of the request, and the client. -/
def served (cls : ClientClass O A K) (p : ClientPool O K) : PoolEvent O → Option (O × Client O)
  | .getClient o =>
    match p.getClient cls o with
    | (p', .client ptr) => (p'.clients[ptr]?).map fun c => (o, c)
    | _ => none
  | _ => none

def run (cls : ClientClass O A K) : ClientPool O K → List (PoolEvent O) → List (O × Client O)
  | _, [] => []
  | p, e :: es => (p.served cls e).toList ++ run cls (p.step cls e) es

/-! ### What a pool keeps -/

/-- A pool that has lost at most entries, and whose clients have the options they had. -/
structure Keeps (p p' : ClientPool O K) : Prop where
  options : ∀ {ptr : ℕ} {c : Client O}, p.clients[ptr]? = some c →
    ∃ c' : Client O, p'.clients[ptr]? = some c' ∧ c'.options = c.options
  lookup : ∀ {k ptr}, p'.clientMap.lookup k = some ptr → p.clientMap.lookup k = some ptr

variable {cls : ClientClass O A K} {S : Set A} {p p' p'' : ClientPool O K} {o : O}

theorem Keeps.refl (p : ClientPool O K) : p.Keeps p :=
  ⟨fun {_ c} h => ⟨c, h, rfl⟩, fun h => h⟩

theorem Keeps.trans (h : p.Keeps p') (h' : p'.Keeps p'') : p.Keeps p'' := by
  refine ⟨fun hc => ?_, fun hk => h.lookup (h'.lookup hk)⟩
  obtain ⟨c', hc', hopt⟩ := h.options hc
  obtain ⟨c'', hc'', hopt'⟩ := h'.options hc'
  exact ⟨c'', hc'', hopt'.trans hopt⟩

theorem keeps_of_lookup (hclients : p'.clients = p.clients)
    (h : ∀ {k ptr}, p'.clientMap.lookup k = some ptr → p.clientMap.lookup k = some ptr) :
    p.Keeps p' :=
  ⟨fun {_ c} hc => ⟨c, by rw [hclients, hc], rfl⟩, h⟩

theorem lookup_of_erase {m : AList fun _ : K => ℕ} {k k' : K} {ptr : ℕ}
    (h : (m.erase k').lookup k = some ptr) : m.lookup k = some ptr := by
  by_cases hk : k = k'
  · rw [hk, AList.lookup_erase] at h
    cases h
  · rwa [AList.lookup_erase_ne hk] at h

theorem keeps_evict (p : ClientPool O K) : p.Keeps p.evict := by
  unfold evict
  split
  · refine keeps_of_lookup rfl fun {k ptr} h => ?_
    rw [show p.eraseStopped = Table.sweep p.isRunning p.clientMap from rfl, Table.lookup_sweep] at h
    exact (Option.filter_eq_some_iff.1 h).1
  · exact Keeps.refl p

theorem keeps_erase (p : ClientPool O K) (k : K) :
    p.Keeps { p with clientMap := p.clientMap.erase k } :=
  keeps_of_lookup rfl fun h => lookup_of_erase h

theorem exists_modify_shutdown {cs : List (Client O)} {ptr : ℕ} {c : Client O} (i : ℕ)
    (h : cs[ptr]? = some c) :
    ∃ c', (cs.modify i Client.shutdown)[ptr]? = some c' ∧ c'.options = c.options := by
  rw [List.getElem?_modify, h]
  by_cases hi : i = ptr
  · exact ⟨c.shutdown, by simp [hi], rfl⟩
  · exact ⟨c, by simp [hi], rfl⟩

theorem keeps_clientShutdown (p : ClientPool O K) (ptr : ℕ) :
    p.Keeps (p.step cls (.clientShutdown ptr)) :=
  ⟨fun hc => exists_modify_shutdown ptr hc, fun h => h⟩

theorem keeps_clear (p : ClientPool O K) : p.Keeps p.clear := by
  unfold clear
  split
  · exact Keeps.refl p
  refine ⟨fun {ptr c} hc => ?_, fun h => ?_⟩
  · show ∃ c', (Table.modifyAll Client.shutdown p.clientMap p.clients)[ptr]? = some c' ∧ _
    rw [Table.getElem?_modifyAll (f := Client.shutdown) (fun _ => rfl), hc]
    split
    · exact ⟨c.shutdown, rfl, rfl⟩
    · exact ⟨c, rfl, rfl⟩
  · rw [AList.lookup_empty] at h
    cases h

/-- What `GetClient` does: nothing, or it hands out the running client of the key, or it makes room
and may add a client. -/
theorem getClient_cases (cls : ClientClass O A K) (p : ClientPool O K) (o : O) :
    p.getClient cls o = (p, .null) ∨
    (∃ ptr, p.clientMap.lookup (cls.key (cls.addr o)) = some ptr ∧
      p.getClient cls o = (p, .client ptr)) ∨
    ∃ q, p.Keeps q ∧ (p.getClient cls o = (q, .full) ∨
      p.getClient cls o = (q.emplace cls o, .client q.clients.length)) := by
  have hcreate : ∀ q, create cls o q = (q, .full) ∨
      create cls o q = (q.emplace cls o, .client q.clients.length) := by
    intro q
    unfold create
    split
    · exact .inl rfl
    · exact .inr rfl
  unfold getClient
  split
  · exact .inl rfl
  dsimp only
  split
  next ptr hlookup =>
    split
    · exact .inr (.inl ⟨ptr, hlookup, rfl⟩)
    · exact .inr (.inr ⟨_, (keeps_erase p _).trans (keeps_evict _), hcreate _⟩)
  next => exact .inr (.inr ⟨_, keeps_evict p, hcreate _⟩)

/-! ### What a pool hands out -/

/-- Every client is filed under the key of its address, and this is an address of `S`. -/
def Filed (cls : ClientClass O A K) (S : Set A) (p : ClientPool O K) : Prop :=
  ∀ k ptr, p.clientMap.lookup k = some ptr → ∃ c : Client O, p.clients[ptr]? = some c ∧
    cls.key (cls.addr c.options) = k ∧ cls.addr c.options ∈ S

theorem filed_new : (new : ClientPool O K).Filed cls S := fun _ _ h => nomatch h

theorem Filed.of_keeps (h : p.Filed cls S) (hkeeps : p.Keeps p') : p'.Filed cls S := by
  intro k ptr hlookup
  obtain ⟨c, hc, hkey, haddr⟩ := h k ptr (hkeeps.lookup hlookup)
  obtain ⟨c', hc', hopt⟩ := hkeeps.options hc
  exact ⟨c', hc', by rw [hopt, hkey], by rwa [hopt]⟩

theorem Filed.emplace (h : p.Filed cls S) (ho : cls.addr o ∈ S) : (p.emplace cls o).Filed cls S := by
  intro k ptr hlookup
  by_cases hk : k = cls.key (cls.addr o)
  · subst hk
    have hptr : p.clients.length = ptr := by
      rw [ClientPool.emplace, AList.lookup_insert] at hlookup
      exact Option.some.inj hlookup
    refine ⟨⟨cls.verify o, .start⟩, ?_, by rw [cls.addr_verify], by rwa [cls.addr_verify]⟩
    rw [ClientPool.emplace, ← hptr]
    exact List.getElem?_concat_length
  · rw [ClientPool.emplace, AList.lookup_insert_ne hk] at hlookup
    obtain ⟨c, hc, hfiled⟩ := h _ _ hlookup
    refine ⟨c, ?_, hfiled⟩
    rw [ClientPool.emplace, List.getElem?_append_left (List.getElem?_eq_some_iff.1 hc).1]
    exact hc

theorem Filed.getClient (h : p.Filed cls S) (ho : cls.addr o ∈ S) :
    (p.getClient cls o).1.Filed cls S := by
  rcases getClient_cases cls p o with hget | ⟨ptr, -, hget⟩ | ⟨q, hkeeps, hget | hget⟩
  · rwa [hget]
  · rwa [hget]
  · rw [hget]
    exact h.of_keeps hkeeps
  · rw [hget]
    exact (h.of_keeps hkeeps).emplace ho

theorem Filed.step {e : PoolEvent O} (h : p.Filed cls S)
    (hreq : ∀ o, e = .getClient o → cls.addr o ∈ S) : (p.step cls e).Filed cls S := by
  cases e with
  | poolInitialize maxClientNum =>
    rw [ClientPool.step]
    split
    · exact h
    · exact h
  | start => exact h
  | getClient o => exact h.getClient (hreq o rfl)
  | clientShutdown ptr => exact h.of_keeps (keeps_clientShutdown p ptr)
  | shutdown =>
    rw [ClientPool.step]
    split
    · exact h
    · exact h
  | clear => exact h.of_keeps (keeps_clear p)

/-- A client that is handed out was filed under the key of the request. -/
theorem Filed.served {e : PoolEvent O} {c : Client O} (h : p.Filed cls S)
    (hreq : ∀ o, e = .getClient o → cls.addr o ∈ S) (hserved : p.served cls e = some (o, c)) :
    cls.addr o ∈ S ∧ cls.addr c.options ∈ S ∧
      cls.key (cls.addr c.options) = cls.key (cls.addr o) := by
  cases e with
  | getClient o' =>
    have hfiled := h.getClient (hreq o' rfl)
    rcases getClient_cases cls p o' with hget | ⟨ptr, hlookup, hget⟩ | ⟨q, hkeeps, hget | hget⟩
    · rw [ClientPool.served, hget] at hserved
      cases hserved
    · obtain ⟨c', hc', hkey, haddr⟩ := h _ _ hlookup
      rw [ClientPool.served, hget] at hserved
      simp only [hc', Option.map_some, Option.some.injEq, Prod.mk.injEq] at hserved
      obtain ⟨rfl, rfl⟩ := hserved
      exact ⟨hreq o' rfl, haddr, hkey⟩
    · rw [ClientPool.served, hget] at hserved
      cases hserved
    · rw [hget] at hfiled
      obtain ⟨c', hc', hkey, haddr⟩ := hfiled _ _ (AList.lookup_insert q.clientMap)
      rw [ClientPool.served, hget] at hserved
      simp only [hc', Option.map_some, Option.some.injEq, Prod.mk.injEq] at hserved
      obtain ⟨rfl, rfl⟩ := hserved
      exact ⟨hreq o' rfl, haddr, hkey⟩
  | poolInitialize _ => cases hserved
  | start => cases hserved
  | clientShutdown _ => cases hserved
  | shutdown => cases hserved
  | clear => cases hserved

theorem Filed.run {es : List (PoolEvent O)} {c : Client O} (h : p.Filed cls S)
    (hreq : ∀ o, PoolEvent.getClient o ∈ es → cls.addr o ∈ S) (hrun : (o, c) ∈ run cls p es) :
    cls.addr o ∈ S ∧ cls.addr c.options ∈ S ∧
      cls.key (cls.addr c.options) = cls.key (cls.addr o) := by
  induction es generalizing p with
  | nil => cases hrun
  | cons e es ih =>
    have hhead : ∀ o, e = .getClient o → cls.addr o ∈ S := fun o he => hreq o (he ▸ List.mem_cons_self)
    rcases List.mem_append.1 hrun with hserved | hrun
    · exact h.served hhead (Option.mem_toList.1 hserved)
    · exact ih (h.step hhead) (fun o he => hreq o (List.mem_cons_of_mem _ he)) hrun

end ClientPool

namespace ClientClass

variable {O A K : Type} [DecidableEq K] {cls : ClientClass O A K} {S : Set A}

/-- Whoever asks for a client of an address gets one of this address, in every run whose requests are
for addresses of `S`. -/
def Law (cls : ClientClass O A K) (S : Set A) : Prop :=
  ∀ es : List (PoolEvent O), (∀ o, PoolEvent.getClient o ∈ es → cls.addr o ∈ S) →
    ∀ served ∈ ClientPool.run cls .new es, cls.addr served.2.options = cls.addr served.1

/-- Two requests of one key: the second one gets the client of the first. -/
theorem mem_run_of_key_eq {o o' : O} (h : cls.key (cls.addr o) = cls.key (cls.addr o')) :
    (o', ⟨cls.verify o, .start⟩) ∈
      ClientPool.run cls .new [.poolInitialize 10, .start, .getClient o, .getClient o'] := by
  let p : ClientPool O K := ⟨.start, 10, [], ∅, 0⟩
  have hfirst : p.getClient cls o = (p.emplace cls o, .client 0) := rfl
  have hlookup : (p.emplace cls o).clientMap.lookup (cls.key (cls.addr o')) = some 0 := by
    rw [← h]
    exact AList.lookup_insert _
  have hsecond : (p.emplace cls o).getClient cls o' = (p.emplace cls o, .client 0) := by
    unfold ClientPool.getClient
    rw [if_neg (by exact not_not_intro rfl)]
    dsimp only
    rw [hlookup]
    rfl
  have hserved : (p.emplace cls o).served cls (.getClient o') = some (o', ⟨cls.verify o, .start⟩) := by
    rw [ClientPool.served, hsecond]
    rfl
  show _ ∈ ClientPool.run cls p [.getClient o, .getClient o']
  refine List.mem_append_right _ (List.mem_append_left _ ?_)
  rw [ClientPool.step, hfirst, hserved]
  exact List.mem_singleton_self _

/-- **What a pool hands out.** -/
theorem law_iff (haddr : Function.Surjective cls.addr) : cls.Law S ↔ S.InjOn cls.key := by
  constructor
  · intro hlaw a ha b hb hkey
    obtain ⟨o, rfl⟩ := haddr a
    obtain ⟨o', rfl⟩ := haddr b
    have hserved := hlaw _ (fun o'' ho => ?_) _ (mem_run_of_key_eq hkey)
    · rwa [cls.addr_verify] at hserved
    · simp only [List.mem_cons, PoolEvent.getClient.injEq, List.not_mem_nil, or_false, reduceCtorEq,
        false_or] at ho
      rcases ho with rfl | rfl
      · exact ha
      · exact hb
  · intro hinj es hreq served hserved
    obtain ⟨ho, hc, hkey⟩ := ClientPool.filed_new.run hreq hserved
    exact hinj hc ho hkey

end ClientClass

/-! ### The pools -/

/-- `client::ClientOptions` of the grpc plugin. -/
structure Http2ClientOptions where
  host : Bytes
  service : Bytes
  maxNoDataDuration : ℤ := 60 * 10 ^ 9
  maxConnectionNum : ℕ := 10

/-- The `client_key` of a host and a service. -/
def clientKey (addr : Bytes × Bytes) : Bytes := addr.1 ++ addr.2

def asioHttp2Client : ClientClass Http2ClientOptions (Bytes × Bytes) Bytes where
  verify options := { options with maxConnectionNum := max options.maxConnectionNum 1 }
  addr options := (options.host, options.service)
  key := clientKey
  addr_verify _ := rfl

theorem surjective_hostService : Function.Surjective asioHttp2Client.addr :=
  fun addr => ⟨{ host := addr.1, service := addr.2 }, rfl⟩

/-- The addresses of endpoints. -/
inductive IpAddress where
  | v4 (addr : UInt32)
  | v6 (addr : Fin (2 ^ 128)) (scopeId : UInt32)
  deriving DecidableEq, Repr

structure Endpoint where
  address : IpAddress
  port : UInt16
  deriving DecidableEq, Repr

structure TcpClientOptions where
  svrEp : Endpoint
  heartBeatTime : ℤ := 60 * 10 ^ 9
  maxRecvSize : UInt32 := 1024 * 1024 * 10

/-- The key is `std::hash` of the endpoint. -/
def asioTcpClient (hash : Endpoint → UInt64) : ClientClass TcpClientOptions Endpoint UInt64 where
  verify options := { options with heartBeatTime := max options.heartBeatTime (10 ^ 8) }
  addr options := options.svrEp
  key := hash
  addr_verify _ := rfl

structure UdpClientOptions where
  svrEp : Endpoint
  maxNoDataDuration : ℤ := 60 * 10 ^ 9
  maxPackageSize : ℕ := 65507

def asioUdpClient (hash : Endpoint → UInt64) : ClientClass UdpClientOptions Endpoint UInt64 where
  verify options := { options with maxPackageSize := min options.maxPackageSize 65507 }
  addr options := options.svrEp
  key := hash
  addr_verify _ := rfl

/-- There are more endpoints than hashes. -/
theorem not_injective_hash (hash : Endpoint → UInt64) : ¬ hash.Injective := by
  intro hinj
  have hcard : Fintype.card (Fin (2 ^ 128)) ≤ Fintype.card (Fin (2 ^ 64)) := by
    refine Fintype.card_le_of_injective (fun a => (hash ⟨.v6 a 0, 0⟩).toFin) fun a b h => ?_
    have hep := hinj (UInt64.toFin_inj.1 h)
    simpa using hep
  rw [Fintype.card_fin, Fintype.card_fin] at hcard
  omega

/-- No hash keeps the law for all endpoints. -/
theorem not_law_univ_of_hash (hash : Endpoint → UInt64) :
    ¬ (asioTcpClient hash).Law .univ ∧ ¬ (asioUdpClient hash).Law .univ := by
  have hinj : ¬ Set.univ.InjOn hash := fun h => not_injective_hash hash (Set.injOn_univ.1 h)
  refine ⟨fun hlaw => hinj ?_, fun hlaw => hinj ?_⟩
  · exact (ClientClass.law_iff fun ep => ⟨{ svrEp := ep }, rfl⟩).1 hlaw
  · exact (ClientClass.law_iff fun ep => ⟨{ svrEp := ep }, rfl⟩).1 hlaw

/-- **When the pools keep their law**: no two of the addresses that are asked for have one key. -/
theorem clientPools_law (S : Set (Bytes × Bytes)) (hash : Endpoint → UInt64) (T : Set Endpoint) :
    (asioHttp2Client.Law S ↔ S.InjOn clientKey) ∧
    ((asioTcpClient hash).Law T ↔ T.InjOn hash) ∧
    ((asioUdpClient hash).Law T ↔ T.InjOn hash) := by
  refine ⟨ClientClass.law_iff surjective_hostService, ?_, ?_⟩
  · exact ClientClass.law_iff fun ep => ⟨{ svrEp := ep }, rfl⟩
  · exact ClientClass.law_iff fun ep => ⟨{ svrEp := ep }, rfl⟩

/-- The hosts `127.0.0.1` and `127.0.0.11` with the services `18080` and `8080`. -/
theorem not_clientPools_law : ¬ (asioHttp2Client.Law .univ ∧
    ∀ hash, (asioTcpClient hash).Law .univ ∧ (asioUdpClient hash).Law .univ) := by
  rintro ⟨hlaw, -⟩
  have hinj := (ClientClass.law_iff surjective_hostService).1 hlaw
  let addr : Bytes × Bytes := (ascii "127.0.0.1", ascii "18080")
  let addr' : Bytes × Bytes := (ascii "127.0.0.11", ascii "8080")
  have hkey : clientKey addr = clientKey addr' := by decide
  have hne : addr ≠ addr' := by decide
  exact hne (hinj (Set.mem_univ _) (Set.mem_univ _) hkey)

end AimRT.Net
