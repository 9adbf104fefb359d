import Mathlib.Data.List.Basic
import AimRT.Lib.LittleEndian

/-!
# Writes to a byte stream

A stream takes the bytes of the writes in progress, a few of any of them at a time.  The writes have
owners, who go on when their write is over.  A stream that has failed takes nothing any more.
-/

namespace AimRT.Lib

/-- `chunks` are what the writes were begun with, `writes` those in progress with what is left of them,
and `wire` is what the stream has taken. -/
structure Stream (O : Type) where
  isOpen : Bool
  chunks : List Bytes
  writes : List (O × Bytes)
  wire : Bytes
  deriving DecidableEq, Repr

namespace Stream

variable {O : Type}

def init : Stream O := ⟨true, [], [], []⟩

def write (s : Stream O) (o : O) (chunk : Bytes) : Stream O :=
  { s with chunks := s.chunks ++ [chunk], writes := s.writes ++ [(o, chunk)] }

/-- The stream takes `n` bytes of a write. -/
def take (s : Stream O) (i n : ℕ) : Stream O :=
  match s.writes[i]? with
  | none => s
  | some (o, left) =>
    if s.isOpen then
      { s with writes := s.writes.set i (o, left.drop n), wire := s.wire ++ left.take n }
    else s

/-- A write that is over; its owner goes on. -/
def complete (s : Stream O) (i : ℕ) : Option (O × Stream O) :=
  match s.writes[i]? with
  | some (o, []) => some (o, { s with writes := s.writes.eraseIdx i })
  | _ => none

/-- A write that fails. -/
def fail (s : Stream O) (i : ℕ) : Option (O × Stream O) :=
  match s.writes[i]? with
  | some (o, _) => some (o, { s with isOpen := false, writes := s.writes.eraseIdx i })
  | none => none

def close (s : Stream O) : Stream O := { s with isOpen := false }

/-- What becomes of a stream without a new write. -/
inductive Moves (s : Stream O) : Stream O → Prop
  | keep : Moves s s
  | take (i n : ℕ) : Moves s (s.take i n)
  | complete {s' : Stream O} {i : ℕ} {o : O} : s.complete i = some (o, s') → Moves s s'
  | fail {s' : Stream O} {i : ℕ} {o : O} : s.fail i = some (o, s') → Moves s s'
  | close : Moves s s.close

/-- At most one write is in progress, and the stream is made of the chunks, one behind the other. -/
structure Sound (s : Stream O) : Prop where
  exclusive : s.writes.length ≤ 1
  inOrder : s.wire <+: s.chunks.flatten
  whole : s.isOpen → s.wire ++ (s.writes.map Prod.snd).flatten = s.chunks.flatten

variable {s s' : Stream O} {o : O}

theorem sound_init : (init : Stream O).Sound := ⟨Nat.zero_le _, List.nil_prefix, fun _ => rfl⟩

theorem Sound.write (h : s.Sound) (hidle : s.writes = []) (o : O) (chunk : Bytes) :
    (s.write o chunk).Sound where
  exclusive := by simp [Stream.write, hidle]
  inOrder := by
    rw [Stream.write, List.flatten_append]
    exact h.inOrder.trans (List.prefix_append _ _)
  whole hopen := by
    have hwhole := h.whole hopen
    rw [hidle] at hwhole
    simpa [Stream.write, hidle] using hwhole

/-- A second write beside one in progress. -/
theorem not_sound_write (hbusy : s.writes ≠ []) (o : O) (chunk : Bytes) :
    ¬ (s.write o chunk).Sound := by
  intro h
  have hlen : s.writes.length + 1 ≤ 1 := by simpa [Stream.write] using h.exclusive
  exact hbusy (List.length_eq_zero_iff.1 (by omega))

/-- There is no other write than the one that is found. -/
theorem Sound.writes_eq (h : s.Sound) {i : ℕ} {w : O × Bytes} (hi : s.writes[i]? = some w) :
    i = 0 ∧ s.writes = [w] := by
  have hexclusive := h.exclusive
  obtain ⟨hlt, hget⟩ := List.getElem?_eq_some_iff.1 hi
  obtain ⟨w', hw'⟩ := List.length_eq_one_iff.1 (show s.writes.length = 1 by omega)
  obtain rfl : i = 0 := by omega
  rw [hw', List.getElem?_cons_zero] at hi
  exact ⟨rfl, by rw [hw', Option.some.inj hi]⟩

theorem Sound.take (h : s.Sound) (i n : ℕ) : (s.take i n).Sound := by
  unfold Stream.take
  split
  · exact h
  next o left hi =>
  split
  next hopen =>
    obtain ⟨rfl, hwrites⟩ := h.writes_eq hi
    have hwhole := h.whole hopen
    rw [hwrites] at hwhole
    have hsplit : s.wire ++ left.take n ++ left.drop n = s.chunks.flatten := by
      rw [List.append_assoc, List.take_append_drop]
      simpa using hwhole
    exact ⟨by simp [hwrites], ⟨_, hsplit⟩, fun _ => by simpa [hwrites] using hsplit⟩
  · exact h

theorem Sound.complete (h : s.Sound) {i : ℕ} (hcomplete : s.complete i = some (o, s')) :
    s'.Sound := by
  unfold Stream.complete at hcomplete
  split at hcomplete
  next o' hi =>
    cases hcomplete
    obtain ⟨rfl, hwrites⟩ := h.writes_eq hi
    refine ⟨by simp [hwrites], h.inOrder, fun hopen => ?_⟩
    simpa [hwrites] using h.whole hopen
  · cases hcomplete

theorem Sound.fail (h : s.Sound) {i : ℕ} (hfail : s.fail i = some (o, s')) : s'.Sound := by
  unfold Stream.fail at hfail
  split at hfail
  next o' left hi =>
    cases hfail
    obtain ⟨rfl, hwrites⟩ := h.writes_eq hi
    exact ⟨by simp [hwrites], h.inOrder, nofun⟩
  · cases hfail

theorem Sound.moves (h : s.Sound) (hmoves : s.Moves s') : s'.Sound := by
  cases hmoves with
  | keep => exact h
  | take i n => exact h.take i n
  | complete hcomplete => exact h.complete hcomplete
  | fail hfail => exact h.fail hfail
  | close => exact ⟨h.exclusive, h.inOrder, nofun⟩

end Stream

end AimRT.Lib
