import AimRT.Lib.LittleEndian

/-!
# Framed streams

A frame is a head of fixed size that tells the length of the message behind it.  A receiver reads a
byte stream with exact reads, a head and a body in turn, in whatever pieces the bytes arrive.

`Receiver.Expects` is its invariant: what it has read of the pending item and what is still on the
way are the frames of the messages it has not posted.
-/

namespace AimRT.Lib

/-- A head of fixed size; `decode` has no value where a receiver rejects the head. -/
structure HeadFormat where
  size : ℕ
  encode : ℕ → Bytes
  decode : Bytes → Option ℕ
  size_pos : 0 < size
  encode_length : ∀ n, (encode n).length = size

namespace HeadFormat

def frame (fmt : HeadFormat) (m : Bytes) : Bytes := fmt.encode m.length ++ m

def frames (fmt : HeadFormat) (ms : List Bytes) : Bytes := ms.flatMap fmt.frame

@[simp] theorem frames_nil (fmt : HeadFormat) : fmt.frames [] = [] := rfl

@[simp] theorem frames_cons (fmt : HeadFormat) (m : Bytes) (ms : List Bytes) :
    fmt.frames (m :: ms) = fmt.encode m.length ++ (m ++ fmt.frames ms) := by
  simp [frames, frame]

@[simp] theorem frames_append (fmt : HeadFormat) (ms ms' : List Bytes) :
    fmt.frames (ms ++ ms') = fmt.frames ms ++ fmt.frames ms' := by
  simp [frames]

/-- A message whose length the head can carry and the receiver accepts. -/
def Accepts (fmt : HeadFormat) (m : Bytes) : Prop := fmt.decode (fmt.encode m.length) = some m.length

end HeadFormat

/-- The exact read that is pending. -/
inductive ReadPhase where
  | head
  | body (len : ℕ)
  | closed
  deriving DecidableEq, Repr

/-- A receive loop: the pending read, what it has got of it, and the messages posted. -/
structure Receiver where
  phase : ReadPhase
  got : Bytes
  posted : List Bytes
  deriving DecidableEq, Repr

namespace Receiver

def init : Receiver := ⟨.head, [], []⟩

/-- The size of the pending read. -/
def need (fmt : HeadFormat) (r : Receiver) : ℕ :=
  match r.phase with
  | .head => fmt.size
  | .body len => len
  | .closed => 0

/-- More bytes for the pending read. -/
def arrive (r : Receiver) (bs : Bytes) : Receiver := { r with got := r.got ++ bs }

/-- The loop goes on after a complete read. -/
def next (fmt : HeadFormat) (r : Receiver) : Receiver :=
  match r.phase with
  | .head =>
    match fmt.decode r.got with
    | some len => { r with phase := .body len, got := [] }
    | none => { r with phase := .closed }
  | .body _ => { phase := .head, got := [], posted := r.posted ++ [r.got] }
  | .closed => r

/-- The messages `rest` are not posted yet: what is left of their frames is `bytes`. -/
def Expects (fmt : HeadFormat) (r : Receiver) (rest : List Bytes) (bytes : Bytes) : Prop :=
  match r.phase with
  | .head => r.got ++ bytes = fmt.frames rest
  | .body len => ∃ m rest', rest = m :: rest' ∧ len = m.length ∧ r.got ++ bytes = m ++ fmt.frames rest'
  | .closed => False

variable {fmt : HeadFormat} {r : Receiver} {rest : List Bytes} {bytes bs : Bytes}

theorem expects_init (fmt : HeadFormat) : Expects fmt init [] [] := rfl

theorem Expects.phase_ne (h : r.Expects fmt rest bytes) : r.phase ≠ .closed := by
  intro hphase
  rw [Expects, hphase] at h
  exact h

theorem Expects.arrive (h : r.Expects fmt rest (bs ++ bytes)) :
    (r.arrive bs).Expects fmt rest bytes := by
  unfold Expects Receiver.arrive at *
  cases hphase : r.phase with
  | head => simpa [hphase] using h
  | body len => simpa [hphase] using h
  | closed => simp [hphase] at h

/-- A loop that goes on starts its next read. -/
theorem got_next (hphase : r.phase ≠ .closed) (hnext : (r.next fmt).phase ≠ .closed) :
    (r.next fmt).got = [] := by
  unfold Receiver.next at *
  cases h : r.phase with
  | head =>
    cases hdecode : fmt.decode r.got with
    | some len => simp only
    | none => simp [h, hdecode] at hnext
  | body len => rfl
  | closed => exact absurd h hphase

/-- More frames behind those expected. -/
theorem Expects.append (h : r.Expects fmt rest bytes) (ms : List Bytes) :
    r.Expects fmt (rest ++ ms) (bytes ++ fmt.frames ms) := by
  unfold Expects at *
  cases hphase : r.phase with
  | head =>
    simp only [hphase] at h ⊢
    rw [← List.append_assoc, h, HeadFormat.frames_append]
  | body len =>
    simp only [hphase] at h ⊢
    obtain ⟨m, rest', rfl, hlen, hbytes⟩ := h
    refine ⟨m, rest' ++ ms, rfl, hlen, ?_⟩
    rw [← List.append_assoc, hbytes, HeadFormat.frames_append, List.append_assoc]
  | closed => simp [hphase] at h

/-- A complete head is that of the first message. -/
theorem Expects.next_head {m : Bytes} (h : r.Expects fmt (m :: rest) bytes)
    (hphase : r.phase = .head) (hneed : r.got.length = r.need fmt) (hm : fmt.Accepts m) :
    r.next fmt = ⟨.body m.length, [], r.posted⟩ ∧ (r.next fmt).Expects fmt (m :: rest) bytes := by
  simp only [Expects, hphase, HeadFormat.frames_cons] at h
  simp only [need, hphase] at hneed
  obtain ⟨hgot, hbytes⟩ := List.append_inj h (hneed.trans (fmt.encode_length _).symm)
  have hdecode : fmt.decode r.got = some m.length := by rw [hgot]; exact hm
  have hnext : r.next fmt = ⟨.body m.length, [], r.posted⟩ := by
    simp only [Receiver.next, hphase, hdecode]
  refine ⟨hnext, ?_⟩
  rw [hnext]
  exact ⟨m, rest, rfl, rfl, hbytes⟩

/-- A complete body is the first message. -/
theorem Expects.next_body {m : Bytes} {len : ℕ} (h : r.Expects fmt (m :: rest) bytes)
    (hphase : r.phase = .body len) (hneed : r.got.length = r.need fmt) :
    r.next fmt = ⟨.head, [], r.posted ++ [m]⟩ ∧ (r.next fmt).Expects fmt rest bytes := by
  simp only [Expects, hphase] at h
  simp only [need, hphase] at hneed
  obtain ⟨m', rest', heq, rfl, hbytes⟩ := h
  obtain ⟨rfl, rfl⟩ := List.cons_eq_cons.1 heq
  obtain ⟨hgot, hbytes⟩ := List.append_inj hbytes hneed
  have hnext : r.next fmt = ⟨.head, [], r.posted ++ [m]⟩ := by
    simp only [Receiver.next, hphase, hgot]
  refine ⟨hnext, ?_⟩
  rw [hnext]
  exact hbytes

/-- The pending read can be completed as long as a message is not posted. -/
theorem Expects.need_le (h : r.Expects fmt rest bytes) (hrest : rest ≠ []) :
    r.need fmt ≤ r.got.length + bytes.length := by
  unfold Expects at h
  unfold need
  cases hphase : r.phase with
  | head =>
    simp only [hphase] at h ⊢
    obtain ⟨m, rest, rfl⟩ := List.exists_cons_of_ne_nil hrest
    have hlen := congrArg List.length h
    simp only [HeadFormat.frames_cons, List.length_append, fmt.encode_length] at hlen
    omega
  | body len =>
    simp only [hphase] at h ⊢
    obtain ⟨m, rest', rfl, rfl, hbytes⟩ := h
    have hlen := congrArg List.length hbytes
    simp only [List.length_append] at hlen
    omega
  | closed => simp [hphase] at h

/-- A complete read takes the head of the first frame, or posts the first message. -/
theorem Expects.next (h : r.Expects fmt rest bytes) (hneed : r.got.length = r.need fmt)
    (haccepts : ∀ m ∈ rest, fmt.Accepts m) :
    ∃ rest', (r.next fmt).Expects fmt rest' bytes ∧
      (r.next fmt).posted ++ rest' = r.posted ++ rest := by
  cases hphase : r.phase with
  | head =>
    cases rest with
    | nil =>
      simp only [Expects, hphase] at h
      have hgot : r.got = [] := (List.append_eq_nil_iff.1 h).1
      have := fmt.size_pos
      simp only [need, hphase, hgot, List.length_nil] at hneed
      omega
    | cons m rest =>
      obtain ⟨hnext, hexpects⟩ := h.next_head hphase hneed (haccepts m List.mem_cons_self)
      exact ⟨m :: rest, hexpects, by rw [hnext]⟩
  | body len =>
    cases rest with
    | nil => simp [Expects, hphase] at h
    | cons m rest =>
      obtain ⟨hnext, hexpects⟩ := h.next_body hphase hneed
      exact ⟨rest, hexpects, by rw [hnext, List.append_assoc, List.singleton_append]⟩
  | closed => exact absurd hphase h.phase_ne

/-- A receiver that waits for a head with nothing on the way has posted everything. -/
theorem Expects.rest_eq_nil (h : r.Expects fmt rest []) (hphase : r.phase = .head)
    (hgot : r.got = []) : rest = [] := by
  simp only [Expects, hphase, hgot, List.append_nil] at h
  cases rest with
  | nil => rfl
  | cons m rest =>
    have hlen := congrArg List.length h
    have := fmt.size_pos
    simp only [List.length_nil, HeadFormat.frames_cons, List.length_append, fmt.encode_length] at hlen
    omega

end Receiver

end AimRT.Lib
