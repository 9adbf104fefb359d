import Mathlib.Data.List.TakeWhile
import AimRT.Grpc.GrpcServer

/-!
# The preface of a grpc connection

`ServerSession::ParseRecvMessage`: until the first call that has begun with the client magic and was
parsed, the session looks at its input itself, and drops what is too short for the client magic; after
that everything goes to nghttp2.  The connection passes on what `async_read_some` returns, one piece
after the other, and ends with the first piece that is rejected.

nghttp2 is a parameter: the session, and what `nghttp2_session_mem_recv` makes of its input.
-/

namespace AimRT.Grpc

open AimRT.Lib AimRT.Util

/-! ### nghttp2 -/

/-- What a call of `nghttp2_session_mem_recv` leaves: the session, the requests that its callbacks have
reported as full, and the number of the processed bytes or an error. -/
structure RecvResult (S R : Type) where
  session : S
  requests : List R
  nread : ℤ

structure Nghttp2 (S R : Type) where
  serverNew : S
  memRecv : S → Bytes → RecvResult S R

/-- `NGHTTP2_CLIENT_MAGIC`. -/
def kClientMagic : Bytes := ascii "PRI * HTTP/2.0\r\n\r\nSM\r\n\r\n"

def kClientMagicLen : ℕ := 24

variable {S R : Type}

/-- The session, unless there is an error, and the requests. -/
def Nghttp2.recv (ng : Nghttp2 S R) (s : S) (data : Bytes) : Option S × List R :=
  let r := ng.memRecv s data
  (if 0 < r.nread then some r.session else none, r.requests)

/-- What nghttp2 promises for a session without the option `no_recv_client_magic`, whose callbacks do
not pause it. -/
structure Nghttp2.Lawful (ng : Nghttp2 S R) : Prop where
  nread_eq : ∀ s data, data ≠ [] → 0 < (ng.memRecv s data).nread →
    (ng.memRecv s data).nread = data.length
  /-- An input may be cut in two. -/
  recv_append : ∀ s a b, a ≠ [] → b ≠ [] → ng.recv s (a ++ b) =
    match ng.recv s a with
    | (none, requests) => (none, requests)
    | (some s', requests) => ((ng.recv s' b).1, requests ++ (ng.recv s' b).2)
  bad_client_magic : ∀ data, kClientMagicLen ≤ data.length → ¬ kClientMagic <+: data →
    ng.recv ng.serverNew data = (none, [])

/-! ### The session -/

structure ServerSession (S R : Type) where
  goodClientMagic : Bool
  session : S
  fullRequestList : List R

namespace ServerSession

/-- A session after `InitSession`. -/
def init (ng : Nghttp2 S R) : ServerSession S R := ⟨false, ng.serverNew, []⟩

variable (ng : Nghttp2 S R)

/-- `Session::ParseRecvMessage`; `OnFullRequest` puts a request in front of the list. -/
def parse (s : ServerSession S R) (data : Bytes) : ServerSession S R × ℤ :=
  if hdata : data = [] then (s, 0)
  else
    let r := ng.memRecv s.session data
    let s' := { s with
      session := r.session, fullRequestList := r.requests.reverse ++ s.fullRequestList }
    if hnread : r.nread ≤ 0 then (s', -1) else parse s' (data.drop r.nread.toNat)
termination_by data.length
decreasing_by
  have hpos : 0 < r.nread.toNat := by omega
  have hlen : 0 < data.length := List.length_pos_iff.2 hdata
  simp only [List.length_drop]
  exact Nat.sub_lt hlen hpos

def handleClientMagic (s : ServerSession S R) (data : Bytes) : ServerSession S R × ℤ :=
  if data = [] then (s, -1)
  else if data.length < kClientMagicLen then (s, 0)
  else if ¬ kClientMagic <+: data then (s, -1)
  else
    let (s, parseOk) := s.parse ng data
    if parseOk ≠ 0 then (s, -1) else ({ s with goodClientMagic := true }, 0)

def parseRecvMessage (s : ServerSession S R) (data : Bytes) : ServerSession S R × ℤ :=
  if s.goodClientMagic = false then s.handleClientMagic ng data else s.parse ng data

/-- The list is moved out of the session. -/
def getFullRequestList (s : ServerSession S R) : ServerSession S R × List R :=
  ({ s with fullRequestList := [] }, s.fullRequestList)

end ServerSession

/-- What comes of an input: whether it is accepted, and the requests that are reported. -/
structure Outcome (R : Type) where
  accepted : Bool
  requests : List R
  deriving DecidableEq, Repr

/-- The verdict and the set of the requests are the same. -/
def Outcome.Same (o o' : Outcome R) : Prop :=
  o.accepted = o'.accepted ∧ ∀ r, r ∈ o.requests ↔ r ∈ o'.requests

/-- What `async_read_some` returns: at least one byte, and no more than the buffer holds. -/
abbrev Piece := { p : Bytes // p ≠ [] ∧ p.length ≤ 65536 }

/-- The bytes that the client has sent. -/
def sent (pieces : List Piece) : Bytes := (pieces.map Subtype.val).flatten

namespace ServerSession

variable (ng : Nghttp2 S R)

/-- `ReceiveFromRemote` in the loop of the connection; `requests` are those that the loop has taken out
of the session. -/
def receive (s : ServerSession S R) (requests : List R) : List Piece → Outcome R
  | [] => ⟨true, requests ++ s.fullRequestList⟩
  | p :: pieces =>
    let (s, recvOk) := s.parseRecvMessage ng p.1
    if recvOk ≠ 0 then ⟨false, requests ++ s.fullRequestList⟩
    else
      let (s, fullRequestList) := s.getFullRequestList
      s.receive (requests ++ fullRequestList) pieces

/-- What a new session makes of the pieces. -/
def ofPieces (pieces : List Piece) : Outcome R := (init ng).receive ng [] pieces

/-- What a new session makes of one call. -/
def ofWhole (data : Bytes) : Outcome R :=
  let (s, recvOk) := (init ng).parseRecvMessage ng data
  ⟨recvOk = 0, s.fullRequestList⟩

end ServerSession

/-- What nghttp2 itself makes of an input; nothing is made of no input. -/
def Nghttp2.outcome (ng : Nghttp2 S R) (s : S) (data : Bytes) : Outcome R :=
  if data = [] then ⟨true, []⟩ else ⟨(ng.recv s data).1.isSome, (ng.recv s data).2⟩

/-- The pieces without those at the beginning that are too short for the client magic. -/
def kept (pieces : List Piece) : List Piece :=
  pieces.dropWhile fun p => p.1.length < kClientMagicLen

/-- Something is sent, and either nothing that is as long as the client magic, or nghttp2 does not miss
the pieces that are dropped. -/
def NothingMissed (ng : Nghttp2 S R) (pieces : List Piece) : Prop :=
  pieces ≠ [] ∧ ((sent pieces).length < kClientMagicLen ∨
    (ng.outcome ng.serverNew (sent (kept pieces))).Same (ng.outcome ng.serverNew (sent pieces)))

/-! ### One call -/

section Lawful

variable {ng : Nghttp2 S R}

theorem Nghttp2.Lawful.outcome_append (hng : ng.Lawful) (s : S) {a : Bytes} (ha : a ≠ [])
    (b : Bytes) : ng.outcome s (a ++ b) =
      match ng.recv s a with
      | (none, requests) => ⟨false, requests⟩
      | (some s', requests) =>
        ⟨(ng.outcome s' b).accepted, requests ++ (ng.outcome s' b).requests⟩ := by
  have hne : a ++ b ≠ [] := fun h => ha (List.append_eq_nil_iff.1 h).1
  rw [outcome, if_neg hne]
  by_cases hb : b = []
  · subst hb
    rw [List.append_nil]
    obtain ⟨o, requests⟩ := ng.recv s a
    cases o <;> simp [outcome]
  · rw [hng.recv_append s a b ha hb]
    obtain ⟨o, requests⟩ := ng.recv s a
    cases o <;> simp [outcome, hb]

/-- The session after nghttp2 has reported requests. -/
def ServerSession.reported (s : ServerSession S R) (session : S) (requests : List R) :
    ServerSession S R :=
  { s with session := session, fullRequestList := requests.reverse ++ s.fullRequestList }

/-- The loop goes to nghttp2 once. -/
theorem Nghttp2.Lawful.parse_cases (hng : ng.Lawful) (s : ServerSession S R) {data : Bytes}
    (hdata : data ≠ []) : ∃ session requests,
      (ng.recv s.session data = (none, requests) ∧
        s.parse ng data = (s.reported session requests, -1)) ∨
      (ng.recv s.session data = (some session, requests) ∧
        s.parse ng data = (s.reported session requests, 0)) := by
  refine ⟨(ng.memRecv s.session data).session, (ng.memRecv s.session data).requests, ?_⟩
  rw [ServerSession.parse, dif_neg hdata]
  by_cases hnread : (ng.memRecv s.session data).nread ≤ 0
  · left
    have hrecv : ¬ 0 < (ng.memRecv s.session data).nread := by omega
    exact ⟨by rw [recv, if_neg hrecv], dif_pos hnread⟩
  · right
    have hpos : 0 < (ng.memRecv s.session data).nread := by omega
    have hdrop : data.drop (ng.memRecv s.session data).nread.toNat = [] := by
      rw [hng.nread_eq _ _ hdata hpos]
      simp
    refine ⟨by rw [recv, if_pos hpos], ?_⟩
    rw [dif_neg hnread, hdrop, ServerSession.parse]
    rfl

/-- A session that is through with the client magic passes everything on. -/
theorem Nghttp2.Lawful.receive_of_good (hng : ng.Lawful) (pieces : List Piece) :
    ∀ (s : ServerSession S R) (requests : List R), s.goodClientMagic = true →
      (s.receive ng requests pieces).accepted = (ng.outcome s.session (sent pieces)).accepted ∧
      ∀ r, r ∈ (s.receive ng requests pieces).requests ↔
        r ∈ requests ∨ r ∈ s.fullRequestList ∨ r ∈ (ng.outcome s.session (sent pieces)).requests := by
  induction pieces with
  | nil =>
    intro s requests _
    exact ⟨rfl, fun r => by simp [ServerSession.receive, sent, outcome]⟩
  | cons p pieces ih =>
    intro s requests hgood
    have hsent : sent (p :: pieces) = p.1 ++ sent pieces := rfl
    have hcall : s.parseRecvMessage ng p.1 = s.parse ng p.1 := by
      rw [ServerSession.parseRecvMessage, if_neg (by simp [hgood])]
    rw [hsent, hng.outcome_append s.session p.2.1]
    obtain ⟨session, reqs, ⟨hrecv, hparse⟩ | ⟨hrecv, hparse⟩⟩ := hng.parse_cases s p.2.1
    · have hreceive : s.receive ng requests (p :: pieces) =
          ⟨false, requests ++ (reqs.reverse ++ s.fullRequestList)⟩ := by
        rw [ServerSession.receive, hcall, hparse]
        rfl
      rw [hreceive, hrecv]
      exact ⟨rfl, fun r => by simp [or_comm]⟩
    · have hreceive : s.receive ng requests (p :: pieces) =
          { s with session := session, fullRequestList := [] }.receive ng
            (requests ++ (reqs.reverse ++ s.fullRequestList)) pieces := by
        rw [ServerSession.receive, hcall, hparse]
        rfl
      obtain ⟨haccepted, hrequests⟩ := ih { s with session := session, fullRequestList := [] }
        (requests ++ (reqs.reverse ++ s.fullRequestList)) hgood
      rw [hreceive, hrecv]
      refine ⟨haccepted, fun r => ?_⟩
      rw [hrequests]
      simp only [List.mem_append, List.mem_reverse, List.not_mem_nil, false_or]
      tauto

/-- A new session, called with what is long enough for the client magic, does as nghttp2 does. -/
theorem Nghttp2.Lawful.call_of_le (hng : ng.Lawful) {data : Bytes}
    (hle : kClientMagicLen ≤ data.length) : ∃ requests,
      (ng.recv ng.serverNew data = (none, requests) ∧
        ∃ s, (ServerSession.init ng).parseRecvMessage ng data = (s, -1) ∧
          s.fullRequestList = requests.reverse) ∨
      (∃ session, ng.recv ng.serverNew data = (some session, requests) ∧
        (ServerSession.init ng).parseRecvMessage ng data = (⟨true, session, requests.reverse⟩, 0)) := by
  have hdata : data ≠ [] := by
    rintro rfl
    exact absurd hle (by decide)
  have hcall : (ServerSession.init ng).parseRecvMessage ng data =
      (ServerSession.init ng).handleClientMagic ng data := rfl
  rw [hcall, ServerSession.handleClientMagic, if_neg hdata, if_neg (Nat.not_lt.2 hle)]
  by_cases hmagic : kClientMagic <+: data
  · rw [if_neg (not_not.2 hmagic)]
    obtain ⟨session, requests, ⟨hrecv, hparse⟩ | ⟨hrecv, hparse⟩⟩ :=
      hng.parse_cases (ServerSession.init ng) hdata
    · refine ⟨requests, .inl ⟨hrecv, (ServerSession.init ng).reported session requests, ?_, ?_⟩⟩
      · rw [hparse]
        rfl
      · exact List.append_nil _
    · refine ⟨requests, .inr ⟨session, hrecv, ?_⟩⟩
      rw [hparse]
      simp [ServerSession.reported, ServerSession.init]
  · rw [if_pos hmagic]
    exact ⟨[], .inl ⟨hng.bad_client_magic data hle hmagic, _, rfl, rfl⟩⟩

/-! ### All calls -/

theorem ServerSession.receive_of_short {p : Piece} (hp : p.1.length < kClientMagicLen)
    (pieces : List Piece) :
    (init ng).receive ng [] (p :: pieces) = (init ng).receive ng [] pieces := by
  have hcall : (init ng).parseRecvMessage ng p.1 = (init ng, 0) := by
    show (init ng).handleClientMagic ng p.1 = _
    rw [handleClientMagic, if_neg p.2.1, if_pos hp]
  rw [receive, hcall]
  rfl

/-- The pieces at the beginning that are too short are dropped. -/
theorem ServerSession.ofPieces_kept (pieces : List Piece) :
    ofPieces ng (kept pieces) = ofPieces ng pieces := by
  unfold kept ofPieces
  induction pieces with
  | nil => rfl
  | cons p pieces ih =>
    by_cases hp : p.1.length < kClientMagicLen
    · rw [List.dropWhile_cons_of_pos (by simpa using hp), ih, receive_of_short hp]
    · rw [List.dropWhile_cons_of_neg (by simpa using hp)]

/-- What is not dropped goes to nghttp2. -/
theorem Nghttp2.Lawful.ofPieces_same (hng : ng.Lawful) (pieces : List Piece) :
    (ServerSession.ofPieces ng pieces).Same (ng.outcome ng.serverNew (sent (kept pieces))) := by
  rw [← ServerSession.ofPieces_kept]
  cases hkept : kept pieces with
  | nil => exact ⟨rfl, fun r => by simp [ServerSession.ofPieces, ServerSession.receive,
      ServerSession.init, sent, outcome]⟩
  | cons p rest =>
    have hle : kClientMagicLen ≤ p.1.length := by
      have hp := List.head?_dropWhile_not (fun p : Piece => p.1.length < kClientMagicLen) pieces
      rw [show pieces.dropWhile _ = p :: rest from hkept] at hp
      simpa using hp
    have hsent : sent (p :: rest) = p.1 ++ sent rest := rfl
    rw [hsent, hng.outcome_append ng.serverNew p.2.1, ServerSession.ofPieces]
    obtain ⟨requests, ⟨hrecv, s, hcall, hlist⟩ | ⟨session, hrecv, hcall⟩⟩ := hng.call_of_le hle
    · have hreceive : (ServerSession.init ng).receive ng [] (p :: rest) =
          ⟨false, requests.reverse⟩ := by
        rw [ServerSession.receive, hcall]
        simp [hlist]
      rw [hreceive, hrecv]
      exact ⟨rfl, fun r => by simp⟩
    · have hreceive : (ServerSession.init ng).receive ng [] (p :: rest) =
          ServerSession.receive ng ⟨true, session, []⟩ requests.reverse rest := by
        rw [ServerSession.receive, hcall]
        rfl
      obtain ⟨haccepted, hrequests⟩ :=
        hng.receive_of_good rest ⟨true, session, []⟩ requests.reverse rfl
      rw [hreceive, hrecv]
      refine ⟨haccepted, fun r => ?_⟩
      rw [hrequests]
      simp

/-- What is long enough for the client magic goes to nghttp2 in one call. -/
theorem Nghttp2.Lawful.ofWhole_same (hng : ng.Lawful) {data : Bytes}
    (hle : kClientMagicLen ≤ data.length) :
    (ServerSession.ofWhole ng data).Same (ng.outcome ng.serverNew data) := by
  have hdata : data ≠ [] := by
    rintro rfl
    exact absurd hle (by decide)
  rw [outcome, if_neg hdata, ServerSession.ofWhole]
  obtain ⟨requests, ⟨hrecv, s, hcall, hlist⟩ | ⟨session, hrecv, hcall⟩⟩ := hng.call_of_le hle
  · rw [hcall, hrecv]
    exact ⟨rfl, fun r => by simp [hlist]⟩
  · rw [hcall, hrecv]
    exact ⟨rfl, fun r => by simp⟩

end Lawful

theorem Outcome.Same.symm {o o' : Outcome R} (h : o.Same o') : o'.Same o :=
  ⟨h.1.symm, fun r => (h.2 r).symm⟩

theorem Outcome.Same.trans {o o' o'' : Outcome R} (h : o.Same o') (h' : o'.Same o'') :
    o.Same o'' :=
  ⟨h.1.trans h'.1, fun r => (h.2 r).trans (h'.2 r)⟩

theorem length_le_sent {p : Piece} {pieces : List Piece} (hp : p ∈ pieces) :
    p.1.length ≤ (sent pieces).length :=
  (List.sublist_flatten_of_mem (List.mem_map_of_mem hp)).length_le

/-- Too little for the client magic is dropped, in one call as in several. -/
theorem same_of_short {ng : Nghttp2 S R} {pieces : List Piece} (hnil : pieces ≠ [])
    (hlt : (sent pieces).length < kClientMagicLen) :
    (ServerSession.ofPieces ng pieces).Same (ServerSession.ofWhole ng (sent pieces)) := by
  have hkept : kept pieces = [] := List.dropWhile_eq_nil_iff.2 fun p hp =>
    decide_eq_true (Nat.lt_of_le_of_lt (length_le_sent hp) hlt)
  have hsent : sent pieces ≠ [] := by
    obtain ⟨p, hp⟩ := List.exists_mem_of_ne_nil pieces hnil
    have hpos : 0 < p.1.length := List.length_pos_iff.2 p.2.1
    exact List.length_pos_iff.1 (Nat.lt_of_lt_of_le hpos (length_le_sent hp))
  have hwhole : ServerSession.ofWhole ng (sent pieces) = ⟨true, []⟩ := by
    have hcall : (ServerSession.init ng).parseRecvMessage ng (sent pieces) =
        (ServerSession.init ng, 0) := by
      show (ServerSession.init ng).handleClientMagic ng (sent pieces) = _
      rw [ServerSession.handleClientMagic, if_neg hsent, if_pos hlt]
    rw [ServerSession.ofWhole, hcall]
    rfl
  rw [← ServerSession.ofPieces_kept, hkept, hwhole]
  exact ⟨rfl, fun r => Iff.rfl⟩

/-- **When the pieces do not matter**: nothing at the beginning is dropped that nghttp2 would miss. -/
theorem same_iff_nothingMissed {ng : Nghttp2 S R} (hng : ng.Lawful) (pieces : List Piece) :
    (ServerSession.ofPieces ng pieces).Same (ServerSession.ofWhole ng (sent pieces)) ↔
      NothingMissed ng pieces := by
  have hpieces := hng.ofPieces_same pieces
  unfold NothingMissed
  by_cases hnil : pieces = []
  · subst hnil
    refine ⟨fun h => ?_, fun h => absurd rfl h.1⟩
    have : true = false := h.1
    cases this
  rw [and_iff_right hnil]
  rcases Nat.lt_or_ge (sent pieces).length kClientMagicLen with hlt | hge
  · exact ⟨fun _ => .inl hlt, fun _ => same_of_short hnil hlt⟩
  · have hwhole := hng.ofWhole_same hge
    rw [or_iff_right (Nat.not_lt.2 hge)]
    exact ⟨fun h => (hpieces.symm.trans h).trans hwhole, fun h =>
      (hpieces.trans h).trans hwhole.symm⟩

/-! ### A session that looks at the frames -/

/-- Inside the client magic, in front of the rest of it; inside the head of a frame, or inside its
payload, with the stream that the frame ends. -/
inductive FrameState where
  | magic (c : UInt8) (left : Bytes)
  | head (got : Bytes)
  | payload (left : ℕ) (ends : Option ℕ)
  deriving DecidableEq, Repr

namespace FrameState

def ofMagic : Bytes → FrameState
  | [] => .head []
  | c :: left => .magic c left

/-- With its head complete the payload of a frame begins; a frame without a payload is over.  A frame of
type `DATA` or `HEADERS` with the flag `END_STREAM` makes the request of its stream full. -/
def ofHead : Bytes → FrameState × List ℕ
  | [l2, l1, l0, type, flags, i3, i2, i1, i0] =>
    let length := (l2.toNat * 256 + l1.toNat) * 256 + l0.toNat
    let id := ((i3.toNat % 128 * 256 + i2.toNat) * 256 + i1.toNat) * 256 + i0.toNat
    let ends := if type.toNat ≤ 1 ∧ flags.toNat % 2 = 1 then some id else none
    if length = 0 then (.head [], ends.toList) else (.payload length ends, [])
  | got => (.head got, [])

def next : FrameState → UInt8 → Option (FrameState × List ℕ)
  | .magic c left, b => if b = c then some (ofMagic left, []) else none
  | .head got, b => some (ofHead (got ++ [b]))
  | .payload left ends, _ =>
    some (if left ≤ 1 then (.head [], ends.toList) else (.payload (left - 1) ends, []))

def feed : FrameState → Bytes → Option FrameState × List ℕ
  | s, [] => (some s, [])
  | s, b :: bs =>
    match s.next b with
    | none => (none, [])
    | some (s', requests) => ((feed s' bs).1, requests ++ (feed s' bs).2)

theorem feed_append (s : FrameState) (a b : Bytes) : s.feed (a ++ b) =
    match s.feed a with
    | (none, requests) => (none, requests)
    | (some s', requests) => ((s'.feed b).1, requests ++ (s'.feed b).2) := by
  induction a generalizing s with
  | nil => rfl
  | cons c a ih =>
    rw [List.cons_append, feed, feed]
    cases s.next c with
    | none => rfl
    | some p =>
      obtain ⟨s', requests⟩ := p
      dsimp only
      rw [ih]
      obtain ⟨o, requests'⟩ := s'.feed a
      cases o <;> simp

theorem feed_ofMagic {magic data : Bytes} (hle : magic.length ≤ data.length)
    (h : ¬ magic <+: data) : (ofMagic magic).feed data = (none, []) := by
  induction magic generalizing data with
  | nil => exact absurd List.nil_prefix h
  | cons c magic ih =>
    cases data with
    | nil => exact absurd hle (Nat.not_succ_le_zero _)
    | cons b data =>
      by_cases hb : b = c
      · subst hb
        have hrest : ¬ magic <+: data := fun hp => h (List.cons_prefix_cons.2 ⟨rfl, hp⟩)
        rw [ofMagic, feed, next, if_pos rfl]
        dsimp only
        rw [ih (Nat.le_of_succ_le_succ hle) hrest]
        rfl
      · rw [ofMagic, feed, next, if_neg hb]

end FrameState

def FrameState.memRecv (s : FrameState) (data : Bytes) : RecvResult FrameState ℕ :=
  ⟨(s.feed data).1.getD s, (s.feed data).2, if (s.feed data).1.isSome then data.length else -903⟩

/-- A session that checks the client magic, and looks at nothing but the heads of the frames after
it. -/
def framesOnly : Nghttp2 FrameState ℕ := ⟨.ofMagic kClientMagic, FrameState.memRecv⟩

theorem recv_framesOnly (s : FrameState) {data : Bytes} (hdata : data ≠ []) :
    framesOnly.recv s data = s.feed data := by
  have hpos : (0 : ℤ) < data.length := Int.natCast_pos.2 (List.length_pos_iff.2 hdata)
  show ((if 0 < (s.memRecv data).nread then some (s.memRecv data).session else none),
    (s.memRecv data).requests) = s.feed data
  unfold FrameState.memRecv
  obtain ⟨o, requests⟩ := s.feed data
  cases o with
  | none => rfl
  | some s' => exact Prod.ext (if_pos hpos) rfl

theorem lawful_framesOnly : framesOnly.Lawful where
  nread_eq s data _ h := by
    have hnread : (framesOnly.memRecv s data).nread =
        if (s.feed data).1.isSome then (data.length : ℤ) else -903 := rfl
    rw [hnread] at h ⊢
    split at h
    next hsome => rw [if_pos hsome]
    · omega
  recv_append s a b ha hb := by
    have hab : a ++ b ≠ [] := fun h => ha (List.append_eq_nil_iff.1 h).1
    rw [recv_framesOnly s hab, FrameState.feed_append, recv_framesOnly s ha]
    obtain ⟨o, requests⟩ := FrameState.feed s a
    cases o with
    | none => rfl
    | some s' => simp only [recv_framesOnly s' hb]
  bad_client_magic data hle h := by
    have hdata : data ≠ [] := by
      rintro rfl
      exact absurd hle (by decide)
    have hfeed : (FrameState.ofMagic kClientMagic).feed data = (none, []) :=
      FrameState.feed_ofMagic hle h
    exact (recv_framesOnly _ hdata).trans hfeed

/-- A `SETTINGS` frame without entries, and a `WINDOW_UPDATE` of the connection. -/
def firstFrames : Bytes :=
  [0, 0, 0, 4, 0, 0, 0, 0, 0] ++ [0, 0, 4, 8, 0, 0, 0, 0, 0, 0, 0, 255, 255]

/-- The client magic and the frames in one piece. -/
theorem same_of_one_piece :
    (ServerSession.ofPieces framesOnly [⟨kClientMagic ++ firstFrames, by decide⟩]).Same
      (ServerSession.ofWhole framesOnly (sent [⟨kClientMagic ++ firstFrames, by decide⟩])) :=
  (same_iff_nothingMissed lawful_framesOnly _).2
    ⟨List.cons_ne_nil _ _, .inr ⟨rfl, fun _ => Iff.rfl⟩⟩

/-- The client magic is cut behind its first 10 bytes. -/
def cutMagic : List Piece :=
  [⟨kClientMagic.take 10, by decide⟩, ⟨kClientMagic.drop 10 ++ firstFrames, by decide⟩]

theorem not_same_cutMagic : ¬ (ServerSession.ofPieces framesOnly cutMagic).Same
    (ServerSession.ofWhole framesOnly (sent cutMagic)) := by
  rintro ⟨haccepted, -⟩
  have hpieces : (ServerSession.ofPieces framesOnly cutMagic).accepted = false := by decide
  have hwhole : (ServerSession.ofWhole framesOnly (sent cutMagic)).Same _ :=
    lawful_framesOnly.ofWhole_same (by decide)
  rw [haccepted, hwhole.1] at hpieces
  revert hpieces
  decide

end AimRT.Grpc
