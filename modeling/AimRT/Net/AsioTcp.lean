import AimRT.Lib.Framing

/-!
# TCP sessions

One direction of a connection between an `AsioTcpClient` and an `AsioTcpServer`: the sender
coroutine of one session, the byte stream, and the receiver coroutine of the peer session, whose
message handler is set.  A message is framed by `| 2byte magicnum | 4byte msglen |`.

The two senders differ in what they do when the timer expires that they wait on: the client writes a
heartbeat, a frame of length zero, the server goes on waiting.  No receiver looks for heartbeats.
-/

namespace AimRT.Net

open AimRT.Lib

/-! ### The head -/

def kHeadSize : ℕ := 6

def kHeadByte1 : UInt8 := 89

def kHeadByte2 : UInt8 := 84

/-- The head of a message of `size` bytes; the length is cast to `uint32_t`. -/
def headBuf (size : ℕ) : Bytes := [kHeadByte1, kHeadByte2] ++ leBytes 4 (size % 2 ^ 32)

/-- The checks of the receivers on a head. -/
def checkHead (maxRecvSize : UInt32) : Bytes → Option ℕ
  | b1 :: b2 :: bs =>
    if b1 = kHeadByte1 ∧ b2 = kHeadByte2 then
      let msgLen := ofLe bs
      if msgLen ≤ maxRecvSize.toNat then some msgLen else none
    else none
  | _ => none

def headFormat (maxRecvSize : UInt32) : HeadFormat where
  size := kHeadSize
  encode := headBuf
  decode := checkHead maxRecvSize
  size_pos := by decide
  encode_length := fun n => by simp [headBuf, kHeadSize]

def kHeartbeatPkg : Bytes := [kHeadByte1, kHeadByte2, 0, 0, 0, 0]

variable {maxRecvSize : UInt32}

theorem accepts_of_le {m : Bytes} (h : m.length ≤ maxRecvSize.toNat) :
    (headFormat maxRecvSize).Accepts m := by
  have hlt : m.length < 2 ^ 32 := lt_of_le_of_lt h maxRecvSize.toNat_lt
  have hlen : ofLe (leBytes 4 (m.length % 2 ^ 32)) = m.length := by
    rw [Nat.mod_eq_of_lt hlt]
    exact ofLe_leBytes_of_lt (by omega)
  have hhead : headBuf m.length = kHeadByte1 :: kHeadByte2 :: leBytes 4 (m.length % 2 ^ 32) := rfl
  simp only [HeadFormat.Accepts, headFormat]
  rw [hhead, checkHead, if_pos ⟨rfl, rfl⟩, hlen, if_pos h]

/-- A heartbeat is the frame of the empty message. -/
theorem kHeartbeatPkg_eq (maxRecvSize : UInt32) :
    kHeartbeatPkg = (headFormat maxRecvSize).frames [[]] := rfl

/-! ### The sender -/

inductive SessionClass where
  | client
  | server
  deriving DecidableEq, Repr

/-- Where the sender coroutine stands: at the head of its loop, in `async_write` with the bytes not
yet taken, or waiting for `send_sig_timer_`, which may be canceled or have expired by now. -/
inductive SenderCo where
  | loop
  | writing (buf : Bytes)
  | waiting
  | canceled
  | expired
  deriving DecidableEq, Repr

/-- The bytes of the pending `async_write`. -/
def SenderCo.buf : SenderCo → Bytes
  | writing buf => buf
  | _ => []

/-- What `send_sig_timer_.cancel()` does to the coroutine. -/
def SenderCo.cancel : SenderCo → SenderCo
  | waiting => canceled
  | co => co

@[simp] theorem SenderCo.buf_cancel (co : SenderCo) : co.cancel.buf = co.buf := by
  cases co <;> rfl

/-- The two sessions and the bytes between them. -/
structure Connection where
  sender : SenderCo
  dataList : List Bytes
  stream : Bytes
  peer : Receiver
  deriving DecidableEq, Repr

/-- What can happen next: `SendMsg` runs; the timer of the sender expires; the sender coroutine goes
on; TCP takes some bytes of the pending write; some bytes of the stream arrive for the pending read;
the receiver coroutine goes on. -/
inductive Op where
  | sendMsg (m : Bytes)
  | timerExpires
  | senderCo
  | transmit (n : ℕ)
  | arrive (n : ℕ)
  | receiverCo
  deriving DecidableEq, Repr

namespace Connection

def init : Connection := ⟨.loop, [], [], Receiver.init⟩

/-- The sender coroutine up to its next suspension; it is suspended while a write or a wait is
pending. -/
def senderCo (fmt : HeadFormat) (cls : SessionClass) (s : Connection) : Option Connection :=
  match s.sender with
  | .loop =>
    if s.dataList = [] then
      some { s with sender := .waiting }
    else
      some { s with sender := .writing (fmt.frames s.dataList), dataList := [] }
  | .writing [] => some { s with sender := .loop }
  | .writing (_ :: _) => none
  | .waiting => none
  | .canceled => some { s with sender := .loop }
  | .expired =>
    match cls with
    | .client => some { s with sender := .writing kHeartbeatPkg }
    | .server => some { s with sender := .loop }

def sendMsg (s : Connection) (m : Bytes) : Connection :=
  { s with sender := s.sender.cancel, dataList := s.dataList ++ [m] }

def timerExpires (s : Connection) : Option Connection :=
  match s.sender with
  | .waiting => some { s with sender := .expired }
  | _ => none

def transmit (n : ℕ) (s : Connection) : Option Connection :=
  match s.sender with
  | .writing buf => some { s with sender := .writing (buf.drop n), stream := s.stream ++ buf.take n }
  | _ => none

/-- At most what the pending read still needs arrives for it. -/
def arrive (fmt : HeadFormat) (n : ℕ) (s : Connection) : Connection :=
  let k := min n (s.peer.need fmt - s.peer.got.length)
  { s with stream := s.stream.drop k, peer := s.peer.arrive (s.stream.take k) }

/-- The receiver coroutine goes on when its read is complete. -/
def receiverCo (fmt : HeadFormat) (s : Connection) : Option Connection :=
  if s.peer.got.length = s.peer.need fmt then some { s with peer := s.peer.next fmt } else none

def step (fmt : HeadFormat) (cls : SessionClass) (s : Connection) : Op → Option Connection
  | .sendMsg m => some (s.sendMsg m)
  | .timerExpires => s.timerExpires
  | .senderCo => s.senderCo fmt cls
  | .transmit n => s.transmit n
  | .arrive n => some (s.arrive fmt n)
  | .receiverCo => s.receiverCo fmt

/-! ### Runs -/

/-- A run of a connection; no value where a step of it is not possible. -/
def run (fmt : HeadFormat) (cls : SessionClass) : Connection → List Op → Option Connection
  | s, [] => some s
  | s, op :: ops => do
    let s ← step fmt cls s op
    run fmt cls s ops

/-- The messages given to `SendMsg`. -/
def queued (ops : List Op) : List Bytes :=
  ops.flatMap fun
    | .sendMsg m => [m]
    | _ => []

/-- The timer of a client expires: the sender writes a heartbeat. -/
def HeartbeatDue (cls : SessionClass) (ops : List Op) : Prop :=
  cls = .client ∧ Op.timerExpires ∈ ops

instance (cls : SessionClass) (ops : List Op) : Decidable (HeartbeatDue cls ops) :=
  inferInstanceAs (Decidable (_ ∧ _))

/-- Nothing is on the way, and nobody has anything to do. -/
def Drained (s : Connection) : Prop :=
  s.sender = .waiting ∧ s.dataList = [] ∧ s.stream = [] ∧ s.peer.phase = .head ∧ s.peer.got = []

instance (s : Connection) : Decidable s.Drained := inferInstanceAs (Decidable (_ ∧ _))

/-- The receive loop goes on and has posted the messages given to `SendMsg`, in order: a beginning
of them while some are on the way, and all of them after. -/
structure PostsQueued (s : Connection) (ops : List Op) : Prop where
  open_ : s.peer.phase ≠ .closed
  inOrder : s.peer.posted <+: queued ops
  noLoss : s.Drained → s.peer.posted = queued ops

/-! ### The invariant -/

variable {cls : SessionClass} {ops : List Op} {s s' : Connection} {rest : List Bytes}

/-- The frames of `rest` are on the way.  What is posted or on the way are the messages that the
sender has taken off its list, and the empty message for each heartbeat. -/
structure Inv (maxRecvSize : UInt32) (cls : SessionClass) (ops : List Op) (s : Connection)
    (rest : List Bytes) : Prop where
  expects : s.peer.Expects (headFormat maxRecvSize) rest (s.stream ++ s.sender.buf)
  got_le : s.peer.got.length ≤ s.peer.need (headFormat maxRecvSize)
  accepts : ∀ m ∈ s.peer.posted ++ rest, (headFormat maxRecvSize).Accepts m
  queued_eq : (s.peer.posted ++ rest).filter (· ≠ []) ++ s.dataList = queued ops
  heartbeat : [] ∈ s.peer.posted ++ rest ∨ (cls = .client ∧ s.sender = .expired) ↔
    HeartbeatDue cls ops
  -- `SendMsg` wakes the sender up, so that it never waits with a message on its list
  waiting : s.sender = .waiting → s.dataList = []

/-- A message that can be sent to a receiver. -/
def Sendable (maxRecvSize : UInt32) (m : Bytes) : Prop := m ≠ [] ∧ m.length ≤ maxRecvSize.toNat

instance (maxRecvSize : UInt32) (m : Bytes) : Decidable (Sendable maxRecvSize m) :=
  inferInstanceAs (Decidable (_ ∧ _))

theorem queued_append (ops ops' : List Op) : queued (ops ++ ops') = queued ops ++ queued ops' :=
  List.flatMap_append

theorem heartbeatDue_append (ops ops' : List Op) :
    HeartbeatDue cls (ops ++ ops') ↔ HeartbeatDue cls ops ∨ HeartbeatDue cls ops' := by
  simp only [HeartbeatDue, List.mem_append, and_or_left]

theorem inv_init : Inv maxRecvSize cls [] init [] where
  expects := Receiver.expects_init _
  got_le := Nat.zero_le _
  accepts := by simp [init, Receiver.init]
  queued_eq := rfl
  heartbeat := by simp [init, Receiver.init, HeartbeatDue]
  waiting := by simp [init]

/-- Messages on the list of the sender are messages given to `SendMsg`. -/
theorem Inv.mem_queued (h : Inv maxRecvSize cls ops s rest) {m : Bytes} (hm : m ∈ s.dataList) :
    m ∈ queued ops := by
  rw [← h.queued_eq]
  exact List.mem_append_right _ hm

theorem Inv.sendMsg (h : Inv maxRecvSize cls ops s rest) (m : Bytes) :
    Inv maxRecvSize cls (ops ++ [Op.sendMsg m]) (s.sendMsg m) rest where
  expects := by simpa [Connection.sendMsg] using h.expects
  got_le := h.got_le
  accepts := h.accepts
  queued_eq := by
    rw [queued_append, ← h.queued_eq]
    simp [Connection.sendMsg, queued]
  heartbeat := by
    have hexpired : s.sender.cancel = .expired ↔ s.sender = .expired := by
      cases s.sender <;> simp [SenderCo.cancel]
    have hnone : ¬ HeartbeatDue cls [Op.sendMsg m] := by simp [HeartbeatDue]
    simp only [Connection.sendMsg, hexpired, heartbeatDue_append, hnone, or_false]
    exact h.heartbeat
  waiting := by
    intro hwaiting
    cases hsender : s.sender <;> simp [Connection.sendMsg, SenderCo.cancel, hsender] at hwaiting

/-- A step other than `SendMsg` and the expiry leaves what is queued and due. -/
theorem inv_of_internal {op : Op} {ops : List Op} (hqueued : queued [op] = [])
    (htimer : op ≠ .timerExpires) (h : Inv maxRecvSize cls ops s rest) :
    Inv maxRecvSize cls (ops ++ [op]) s rest where
  expects := h.expects
  got_le := h.got_le
  accepts := h.accepts
  queued_eq := by rw [queued_append, hqueued, List.append_nil]; exact h.queued_eq
  heartbeat := by
    have hnone : ¬ HeartbeatDue cls [op] := by
      rintro ⟨_, hmem⟩
      exact htimer (List.mem_singleton.1 hmem).symm
    rw [heartbeatDue_append, or_iff_left hnone]
    exact h.heartbeat
  waiting := h.waiting

theorem Inv.timerExpires (h : Inv maxRecvSize cls ops s rest) (hstep : s.timerExpires = some s') :
    Inv maxRecvSize cls (ops ++ [Op.timerExpires]) s' rest := by
  unfold Connection.timerExpires at hstep
  split at hstep
  next hsender =>
    obtain rfl := Option.some.inj hstep
    have hbuf : s.sender.buf = [] := by rw [hsender]; rfl
    refine ⟨?_, h.got_le, h.accepts, ?_, ?_, by simp⟩
    · have hexpects := h.expects
      rw [hbuf] at hexpects
      exact hexpects
    · rw [queued_append, ← h.queued_eq]
      simp [queued]
    · have hheartbeat := h.heartbeat
      simp only [hsender, reduceCtorEq, and_false, or_false] at hheartbeat
      rw [heartbeatDue_append, ← hheartbeat]
      simp [HeartbeatDue]
  next => cases hstep

/-- The sender writes `ms`: all of its list, or a heartbeat. -/
theorem Inv.write (h : Inv maxRecvSize cls ops s rest) {ms dataList : List Bytes}
    (hbuf : s.sender.buf = []) (haccepts : ∀ m ∈ ms, (headFormat maxRecvSize).Accepts m)
    (hlist : ms.filter (· ≠ []) ++ dataList = s.dataList)
    (hheartbeat : [] ∈ ms ↔ cls = .client ∧ s.sender = .expired) :
    Inv maxRecvSize cls ops
      { s with sender := .writing ((headFormat maxRecvSize).frames ms), dataList := dataList }
      (rest ++ ms) where
  expects := by
    have hexpects := h.expects.append ms
    rwa [hbuf, List.append_nil] at hexpects
  got_le := h.got_le
  accepts := by
    intro m hm
    rw [← List.append_assoc] at hm
    rcases List.mem_append.1 hm with hm | hm
    · exact h.accepts m hm
    · exact haccepts m hm
  queued_eq := by
    rw [← List.append_assoc, List.filter_append, List.append_assoc, hlist]
    exact h.queued_eq
  heartbeat := by
    rw [← List.append_assoc, List.mem_append, hheartbeat]
    simp only [reduceCtorEq, and_false, or_false]
    exact h.heartbeat
  waiting := by simp

/-- The sender goes on with nothing to write. -/
theorem Inv.goOn (h : Inv maxRecvSize cls ops s rest) {co : SenderCo} (hbuf : s.sender.buf = [])
    (hco : co.buf = []) (hexpired : ¬ (cls = .client ∧ s.sender = .expired))
    (hexpired' : co ≠ .expired) (hwaiting : co = .waiting → s.dataList = []) :
    Inv maxRecvSize cls ops { s with sender := co } rest where
  expects := by
    have hexpects := h.expects
    rw [hbuf] at hexpects
    rwa [hco]
  got_le := h.got_le
  accepts := h.accepts
  queued_eq := h.queued_eq
  heartbeat := by
    have hheartbeat := h.heartbeat
    rw [or_iff_left hexpired] at hheartbeat
    rw [or_iff_left (fun hco => hexpired' hco.2)]
    exact hheartbeat
  waiting := hwaiting

theorem Inv.senderCo (h : Inv maxRecvSize cls ops s rest)
    (hmsgs : ∀ m ∈ queued ops, Sendable maxRecvSize m)
    (hstep : s.senderCo (headFormat maxRecvSize) cls = some s') :
    ∃ rest', Inv maxRecvSize cls ops s' rest' := by
  unfold Connection.senderCo at hstep
  cases hsender : s.sender with
  | loop =>
    have hbuf : s.sender.buf = [] := by rw [hsender]; rfl
    rw [hsender] at hstep
    by_cases hempty : s.dataList = []
    · simp only [if_pos hempty, Option.some.injEq] at hstep
      subst hstep
      exact ⟨rest, h.goOn hbuf rfl (by simp [hsender]) (by simp) fun _ => hempty⟩
    · simp only [if_neg hempty, Option.some.injEq] at hstep
      subst hstep
      have hne : ∀ m ∈ s.dataList, m ≠ [] := fun m hm => (hmsgs m (h.mem_queued hm)).1
      refine ⟨rest ++ s.dataList, h.write hbuf ?_ ?_ ?_⟩
      · exact fun m hm => accepts_of_le (hmsgs m (h.mem_queued hm)).2
      · rw [List.append_nil, List.filter_eq_self]
        exact fun m hm => decide_eq_true (hne m hm)
      · simp only [hsender, reduceCtorEq, and_false, iff_false]
        exact fun hm => hne [] hm rfl
  | writing buf =>
    rw [hsender] at hstep
    cases buf with
    | nil =>
      obtain rfl := Option.some.inj hstep
      exact ⟨rest, h.goOn (by rw [hsender]; rfl) rfl (by simp [hsender]) (by simp) (by simp)⟩
    | cons b buf => cases hstep
  | waiting =>
    rw [hsender] at hstep
    cases hstep
  | canceled =>
    rw [hsender] at hstep
    obtain rfl := Option.some.inj hstep
    exact ⟨rest, h.goOn (by rw [hsender]; rfl) rfl (by simp [hsender]) (by simp) (by simp)⟩
  | expired =>
    have hbuf : s.sender.buf = [] := by rw [hsender]; rfl
    rw [hsender] at hstep
    cases cls with
    | client =>
      obtain rfl := Option.some.inj hstep
      rw [kHeartbeatPkg_eq maxRecvSize]
      refine ⟨rest ++ [[]], h.write hbuf ?_ (by simp) (by simp [hsender])⟩
      intro m hm
      rw [List.mem_singleton.1 hm]
      exact accepts_of_le (Nat.zero_le _)
    | server =>
      obtain rfl := Option.some.inj hstep
      exact ⟨rest, h.goOn hbuf rfl (by simp) (by simp) (by simp)⟩

theorem Inv.transmit (h : Inv maxRecvSize cls ops s rest) {n : ℕ}
    (hstep : s.transmit n = some s') : Inv maxRecvSize cls ops s' rest := by
  unfold Connection.transmit at hstep
  split at hstep
  next buf hsender =>
    obtain rfl := Option.some.inj hstep
    refine ⟨?_, h.got_le, h.accepts, h.queued_eq, ?_, by simp⟩
    · have hexpects := h.expects
      simp only [hsender, SenderCo.buf] at hexpects
      simpa [SenderCo.buf, List.append_assoc, List.take_append_drop] using hexpects
    · have hheartbeat := h.heartbeat
      simp only [hsender, reduceCtorEq, and_false, or_false] at hheartbeat ⊢
      exact hheartbeat
  next => cases hstep

theorem Inv.arrive (h : Inv maxRecvSize cls ops s rest) (n : ℕ) :
    Inv maxRecvSize cls ops (s.arrive (headFormat maxRecvSize) n) rest where
  expects := by
    have hexpects := h.expects
    unfold Connection.arrive
    generalize min n _ = k
    rw [← List.take_append_drop k s.stream, List.append_assoc] at hexpects
    exact hexpects.arrive
  got_le := by
    have := h.got_le
    unfold Connection.arrive Receiver.arrive
    change (s.peer.got ++ _).length ≤ s.peer.need _
    rw [List.length_append, List.length_take]
    omega
  accepts := h.accepts
  queued_eq := h.queued_eq
  heartbeat := h.heartbeat
  waiting := h.waiting

theorem Inv.receiverCo (h : Inv maxRecvSize cls ops s rest)
    (hstep : s.receiverCo (headFormat maxRecvSize) = some s') :
    ∃ rest', Inv maxRecvSize cls ops s' rest' := by
  unfold Connection.receiverCo at hstep
  split at hstep
  next hneed =>
    obtain rfl := Option.some.inj hstep
    obtain ⟨rest', hexpects, hposted⟩ :=
      h.expects.next hneed fun m hm => h.accepts m (List.mem_append_right _ hm)
    refine ⟨rest', hexpects, ?_, ?_, ?_, ?_, h.waiting⟩
    · rw [Receiver.got_next h.expects.phase_ne hexpects.phase_ne]
      exact Nat.zero_le _
    · simpa only [hposted] using h.accepts
    · simpa only [hposted] using h.queued_eq
    · simpa only [hposted] using h.heartbeat
  next => cases hstep

/-- **One step.** -/
theorem Inv.step (h : Inv maxRecvSize cls ops s rest) {op : Op}
    (hmsgs : ∀ m ∈ queued ops, Sendable maxRecvSize m)
    (hstep : Connection.step (headFormat maxRecvSize) cls s op = some s') :
    ∃ rest', Inv maxRecvSize cls (ops ++ [op]) s' rest' := by
  cases op with
  | sendMsg m =>
    obtain rfl := Option.some.inj hstep
    exact ⟨rest, h.sendMsg m⟩
  | timerExpires => exact ⟨rest, h.timerExpires hstep⟩
  | senderCo =>
    obtain ⟨rest', h'⟩ := h.senderCo hmsgs hstep
    exact ⟨rest', inv_of_internal rfl (by simp) h'⟩
  | transmit n => exact ⟨rest, inv_of_internal rfl (by simp) (h.transmit hstep)⟩
  | arrive n =>
    obtain rfl := Option.some.inj hstep
    exact ⟨rest, inv_of_internal rfl (by simp) (h.arrive n)⟩
  | receiverCo =>
    obtain ⟨rest', h'⟩ := h.receiverCo hstep
    exact ⟨rest', inv_of_internal rfl (by simp) h'⟩

/-- **A run**, from a connection reached by `ops`. -/
theorem Inv.run {more : List Op} (h : Inv maxRecvSize cls ops s rest)
    (hmsgs : ∀ m ∈ queued (ops ++ more), Sendable maxRecvSize m)
    (hrun : Connection.run (headFormat maxRecvSize) cls s more = some s') :
    ∃ rest', Inv maxRecvSize cls (ops ++ more) s' rest' := by
  induction more generalizing ops s rest with
  | nil =>
    obtain rfl := Option.some.inj hrun
    exact ⟨rest, by rwa [List.append_nil]⟩
  | cons op more ih =>
    obtain ⟨t, hstep, hrun⟩ := Option.bind_eq_some_iff.1 hrun
    have hmsgs' : ∀ m ∈ queued ops, Sendable maxRecvSize m := fun m hm =>
      hmsgs m (by rw [queued_append]; exact List.mem_append_left _ hm)
    obtain ⟨rest', h'⟩ := h.step hmsgs' hstep
    rw [List.append_cons] at hmsgs ⊢
    exact ih h' hmsgs hrun

/-! ### Progress -/

/-- The steps of the two coroutines and of TCP. -/
def Moves : Op → Prop
  | .sendMsg _ => False
  | .timerExpires => False
  | _ => True

/-- The coroutines and TCP alone can take the connection to `s'`. -/
def MovesTo (fmt : HeadFormat) (cls : SessionClass) (s s' : Connection) : Prop :=
  ∃ more, (∀ op ∈ more, Moves op) ∧ run fmt cls s more = some s'

variable {fmt : HeadFormat} {t : Connection}

theorem MovesTo.refl (s : Connection) : MovesTo fmt cls s s := ⟨[], by simp, rfl⟩

theorem MovesTo.head (op : Op) (hop : Moves op) (hstep : step fmt cls s op = some t)
    (h : MovesTo fmt cls t s') : MovesTo fmt cls s s' := by
  obtain ⟨more, hmoves, hrun⟩ := h
  refine ⟨op :: more, ?_, ?_⟩
  · simpa using ⟨hop, hmoves⟩
  · simpa [run, hstep] using hrun

theorem run_append {more more' : List Op} (h : run fmt cls s more = some t) :
    run fmt cls s (more ++ more') = run fmt cls t more' := by
  induction more generalizing s with
  | nil =>
    obtain rfl := Option.some.inj h
    rfl
  | cons op more ih =>
    obtain ⟨u, hstep, hrun⟩ := Option.bind_eq_some_iff.1 h
    simpa [run, hstep] using ih hrun

theorem MovesTo.trans (h : MovesTo fmt cls s t) (h' : MovesTo fmt cls t s') :
    MovesTo fmt cls s s' := by
  obtain ⟨more, hmoves, hrun⟩ := h
  obtain ⟨more', hmoves', hrun'⟩ := h'
  refine ⟨more ++ more', ?_, (run_append hrun).trans hrun'⟩
  intro op hop
  rcases List.mem_append.1 hop with hop | hop
  · exact hmoves op hop
  · exact hmoves' op hop

/-- A pending write completes. -/
theorem movesTo_of_writing {buf : Bytes} (h : s.sender = .writing buf) :
    MovesTo fmt cls s { s with sender := .loop, stream := s.stream ++ buf } := by
  refine .head (.transmit buf.length) trivial (t := { s with
    sender := .writing []
    stream := s.stream ++ buf }) ?_ (.head .senderCo trivial rfl (.refl _))
  simp [step, transmit, h]

theorem movesTo_of_loop (fmt : HeadFormat) (cls : SessionClass) (h : s.sender = .loop) : ∃ stream,
    MovesTo fmt cls s { s with sender := .waiting, dataList := [], stream := stream } := by
  have hidle : ∀ u : Connection, u.sender = .loop → u.dataList = [] →
      MovesTo fmt cls u { u with sender := .waiting } := fun u hu hempty =>
    .head .senderCo trivial (by simp [step, senderCo, hu, hempty]) (.refl _)
  by_cases hempty : s.dataList = []
  · refine ⟨s.stream, ?_⟩
    have h' := hidle s h hempty
    rwa [← hempty]
  · have hwrite : s.senderCo fmt cls =
        some { s with sender := .writing (fmt.frames s.dataList), dataList := [] } := by
      simp [senderCo, h, hempty]
    exact ⟨_, .head .senderCo trivial hwrite
      ((movesTo_of_writing rfl).trans (hidle _ rfl rfl))⟩

/-- The sender empties its list and waits. -/
theorem exists_movesTo_waiting (fmt : HeadFormat) (cls : SessionClass)
    (hwaiting : s.sender = .waiting → s.dataList = []) : ∃ stream,
    MovesTo fmt cls s { s with sender := .waiting, dataList := [], stream := stream } := by
  have hsenderCo : ∀ co, s.senderCo fmt cls = some { s with sender := co } →
      MovesTo fmt cls s { s with sender := co } := fun co hco =>
    .head .senderCo trivial hco (.refl _)
  cases hsender : s.sender with
  | loop => exact movesTo_of_loop fmt cls hsender
  | writing buf =>
    obtain ⟨stream, h⟩ := movesTo_of_loop fmt cls
      (s := { s with sender := .loop, stream := s.stream ++ buf }) rfl
    exact ⟨stream, (movesTo_of_writing hsender).trans h⟩
  | waiting =>
    refine ⟨s.stream, ?_⟩
    rw [← hwaiting hsender, ← hsender]
    exact .refl s
  | canceled =>
    obtain ⟨stream, h⟩ := movesTo_of_loop fmt cls (s := { s with sender := .loop }) rfl
    exact ⟨stream, (hsenderCo .loop (by simp [senderCo, hsender])).trans h⟩
  | expired =>
    cases cls with
    | client =>
      obtain ⟨stream, h⟩ := movesTo_of_loop fmt .client
        (s := { s with sender := .loop, stream := s.stream ++ kHeartbeatPkg }) rfl
      exact ⟨stream, (hsenderCo (.writing kHeartbeatPkg) (by simp [senderCo, hsender])).trans
        ((movesTo_of_writing rfl).trans h)⟩
    | server =>
      obtain ⟨stream, h⟩ := movesTo_of_loop fmt .server
        (s := { s with sender := .loop }) rfl
      exact ⟨stream, (hsenderCo .loop (by simp [senderCo, hsender])).trans h⟩

/-- The pending read completes. -/
theorem movesTo_of_need_le (cls : SessionClass) (hgot : s.peer.got.length ≤ s.peer.need fmt)
    (hstream : s.peer.need fmt ≤ s.peer.got.length + s.stream.length) :
    ∃ bs stream, s.stream = bs ++ stream ∧ (s.peer.arrive bs).got.length = s.peer.need fmt ∧
      MovesTo fmt cls s { s with peer := (s.peer.arrive bs).next fmt, stream := stream } := by
  let k := s.peer.need fmt - s.peer.got.length
  have hk : (s.peer.arrive (s.stream.take k)).got.length = s.peer.need fmt := by
    simp only [Receiver.arrive, List.length_append, List.length_take, k]
    omega
  refine ⟨s.stream.take k, s.stream.drop k, (List.take_append_drop ..).symm, hk, ?_⟩
  refine .head (.arrive k) trivial rfl (.head .receiverCo trivial ?_ (.refl _))
  simp only [step, receiverCo, arrive, k, Nat.min_self]
  exact if_pos hk

/-- A body is read and posted. -/
theorem movesTo_of_body (cls : SessionClass) {m : Bytes} {len : ℕ}
    (hphase : s.peer.phase = .body len)
    (hgot : s.peer.got.length ≤ s.peer.need fmt) (h : s.peer.Expects fmt (m :: rest) s.stream) :
    ∃ posted stream, Receiver.Expects fmt ⟨.head, [], posted⟩ rest stream ∧
      MovesTo fmt cls s { s with peer := ⟨.head, [], posted⟩, stream := stream } := by
  obtain ⟨bs, stream, hbs, hneed, hmoves⟩ :=
    movesTo_of_need_le cls hgot (h.need_le (List.cons_ne_nil _ _))
  rw [hbs] at h
  obtain ⟨hnext, hexpects⟩ := h.arrive.next_body hphase hneed
  rw [hnext] at hexpects hmoves
  exact ⟨_, stream, hexpects, hmoves⟩

/-- A head is read. -/
theorem movesTo_of_head (cls : SessionClass) {m : Bytes} (hphase : s.peer.phase = .head)
    (hgot : s.peer.got.length ≤ s.peer.need fmt) (h : s.peer.Expects fmt (m :: rest) s.stream)
    (hm : fmt.Accepts m) :
    ∃ stream, Receiver.Expects fmt ⟨.body m.length, [], s.peer.posted⟩ (m :: rest) stream ∧
      MovesTo fmt cls s { s with peer := ⟨.body m.length, [], s.peer.posted⟩, stream := stream } := by
  obtain ⟨bs, stream, hbs, hneed, hmoves⟩ :=
    movesTo_of_need_le cls hgot (h.need_le (List.cons_ne_nil _ _))
  rw [hbs] at h
  obtain ⟨hnext, hexpects⟩ := h.arrive.next_head hphase hneed hm
  rw [hnext] at hexpects hmoves
  exact ⟨stream, hexpects, hmoves⟩

/-- The receiver reads everything on the way. -/
theorem exists_movesTo_posted (cls : SessionClass) (h : s.peer.Expects fmt rest s.stream)
    (hgot : s.peer.got.length ≤ s.peer.need fmt) (haccepts : ∀ m ∈ rest, fmt.Accepts m) :
    ∃ posted, MovesTo fmt cls s { s with peer := ⟨.head, [], posted⟩, stream := [] } := by
  induction rest generalizing s with
  | nil =>
    cases hphase : s.peer.phase with
    | head =>
      simp only [Receiver.Expects, hphase, HeadFormat.frames_nil, List.append_eq_nil_iff] at h
      have heq : s = { s with peer := ⟨.head, [], s.peer.posted⟩, stream := [] } := by
        obtain ⟨sender, dataList, stream, ⟨phase, got, posted⟩⟩ := s
        obtain rfl : phase = .head := hphase
        obtain ⟨rfl, rfl⟩ : got = [] ∧ stream = [] := h
        rfl
      exact ⟨s.peer.posted, heq ▸ .refl s⟩
    | body len => simp [Receiver.Expects, hphase] at h
    | closed => exact absurd hphase h.phase_ne
  | cons m rest ih =>
    have hrest : ∀ m ∈ rest, fmt.Accepts m := fun m hm => haccepts m (List.mem_cons_of_mem _ hm)
    cases hphase : s.peer.phase with
    | head =>
      obtain ⟨stream, hexpects, hhead⟩ :=
        movesTo_of_head cls hphase hgot h (haccepts m List.mem_cons_self)
      obtain ⟨posted, stream', hexpects', hbody⟩ :=
        movesTo_of_body cls (s := { s with
          peer := ⟨.body m.length, [], s.peer.posted⟩
          stream := stream }) rfl (Nat.zero_le _) hexpects
      obtain ⟨posted', hposted⟩ := ih (s := { s with
        peer := ⟨.head, [], posted⟩
        stream := stream' }) hexpects' (Nat.zero_le _) hrest
      exact ⟨posted', hhead.trans (hbody.trans hposted)⟩
    | body len =>
      obtain ⟨posted, stream, hexpects, hbody⟩ := movesTo_of_body cls hphase hgot h
      obtain ⟨posted', hposted⟩ := ih (s := { s with
        peer := ⟨.head, [], posted⟩
        stream := stream }) hexpects (Nat.zero_le _) hrest
      exact ⟨posted', hbody.trans hposted⟩
    | closed => exact absurd hphase h.phase_ne

/-- **Progress.** -/
theorem Inv.exists_drained (h : Inv maxRecvSize cls ops s rest)
    (hmsgs : ∀ m ∈ queued ops, Sendable maxRecvSize m) :
    ∃ t, MovesTo (headFormat maxRecvSize) cls s t ∧ t.Drained := by
  obtain ⟨stream, hsender⟩ := exists_movesTo_waiting (headFormat maxRecvSize) cls h.waiting
  obtain ⟨more, hmoves, hrun⟩ := id hsender
  have hmore : queued more = [] := by
    refine List.flatMap_eq_nil_iff.2 fun op hop => ?_
    cases op with
    | sendMsg m => exact (hmoves _ hop).elim
    | _ => rfl
  obtain ⟨rest', h'⟩ := h.run (by rwa [queued_append, hmore, List.append_nil]) hrun
  have hexpects := h'.expects
  simp only [SenderCo.buf, List.append_nil] at hexpects
  obtain ⟨posted, hpeer⟩ := exists_movesTo_posted cls (s := { s with
    sender := .waiting
    dataList := []
    stream := stream }) hexpects h'.got_le fun m hm => h'.accepts m (List.mem_append_right _ hm)
  exact ⟨_, hsender.trans hpeer, rfl, rfl, rfl, rfl, rfl⟩

/-! ### The round trip -/

theorem Inv.postsQueued (h : Inv maxRecvSize cls ops s rest) (hquiet : ¬ HeartbeatDue cls ops) :
    PostsQueued s ops := by
  have hposted : s.peer.posted ++ (rest ++ s.dataList) = queued ops := by
    rw [← h.queued_eq, List.filter_eq_self.2, List.append_assoc]
    intro m hm
    refine decide_eq_true fun hempty => hquiet (h.heartbeat.1 (Or.inl ?_))
    rwa [hempty] at hm
  refine ⟨h.expects.phase_ne, ⟨_, hposted⟩, ?_⟩
  rintro ⟨hsender, hlist, hstream, hphase, hgot⟩
  have hexpects := h.expects
  rw [hstream, hsender] at hexpects
  have hrest := hexpects.rest_eq_nil hphase hgot
  rwa [hrest, hlist, List.append_nil, List.append_nil] at hposted

/-- A heartbeat is posted as an empty message. -/
theorem Inv.nil_mem_posted (h : Inv maxRecvSize cls ops s rest) (hdrained : s.Drained)
    (hdue : HeartbeatDue cls ops) : [] ∈ s.peer.posted := by
  obtain ⟨hsender, -, hstream, hphase, hgot⟩ := hdrained
  have hexpects := h.expects
  rw [hstream, hsender] at hexpects
  have hrest := hexpects.rest_eq_nil hphase hgot
  rcases h.heartbeat.2 hdue with hmem | ⟨_, hexpired⟩
  · rwa [hrest, List.append_nil] at hmem
  · rw [hsender] at hexpired
    cases hexpired

/-- **Main result.**  As long as no heartbeat is due, the receive loop posts what was queued.  A
connection can always be drained, and what a drained connection has posted is what was queued only
if no heartbeat was due. -/
theorem postsQueued_of_not_heartbeatDue (hmsgs : ∀ m ∈ queued ops, Sendable maxRecvSize m)
    (hrun : run (headFormat maxRecvSize) cls init ops = some s) :
    (¬ HeartbeatDue cls ops → PostsQueued s ops) ∧
      (∃ t, MovesTo (headFormat maxRecvSize) cls s t ∧ t.Drained) ∧
      (s.Drained → (s.peer.posted = queued ops ↔ ¬ HeartbeatDue cls ops)) := by
  obtain ⟨rest, h⟩ := inv_init.run (by simpa using hmsgs) hrun
  rw [List.nil_append] at h
  refine ⟨h.postsQueued, h.exists_drained hmsgs, fun hdrained => ⟨?_, ?_⟩⟩
  · intro hposted hdue
    have hmem := h.nil_mem_posted hdrained hdue
    rw [hposted] at hmem
    exact (hmsgs [] hmem).1 rfl
  · exact fun hquiet => (h.postsQueued hquiet).noLoss hdrained

/-- A message of two bytes and then an expiry of the timer. -/
def expiryOps : List Op :=
  [.senderCo, .sendMsg [1, 2], .senderCo, .senderCo, .transmit 8, .senderCo, .senderCo,
    .arrive 6, .receiverCo, .arrive 2, .receiverCo, .timerExpires, .senderCo]

/-- The server goes on waiting. -/
theorem postsQueued_server : ∃ s,
    run (headFormat 1024) .server init (expiryOps ++ [.senderCo]) = some s ∧
      s.peer.posted = [[1, 2]] ∧ PostsQueued s (expiryOps ++ [.senderCo]) := by
  refine ⟨_, rfl, rfl, ?_⟩
  have hmsgs : ∀ m ∈ queued (expiryOps ++ [.senderCo]), Sendable 1024 m := by decide
  exact (@postsQueued_of_not_heartbeatDue 1024 .server _ _ hmsgs rfl).1 (by decide)

/-- The peer of the client gets an empty message that nobody has sent. -/
theorem not_postsQueued_client : ¬ ∀ (maxRecvSize : UInt32) (cls : SessionClass) (ops : List Op)
    (s : Connection), (∀ m ∈ queued ops, Sendable maxRecvSize m) →
    run (headFormat maxRecvSize) cls init ops = some s → PostsQueued s ops := by
  intro h
  have hposts := h 1024 .client
    (expiryOps ++ [.transmit 6, .senderCo, .senderCo, .arrive 6, .receiverCo, .receiverCo]) _
    (by decide) rfl
  exact absurd hposts.inOrder (by decide)

end Connection

end AimRT.Net
