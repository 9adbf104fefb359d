import AimRT.Iceoryx.IceoryxChannelBackend
import AimRT.Zenoh.ZenohChannelBackend
import AimRT.Zenoh.ZenohRpcFrame

/-!
# Payloads from elsewhere

What the handlers of the zenoh plugin and of the iceoryx plugin do with bytes that no backend of this
program has written.  All four take the length of the frame from the first four bytes and compare it
with nothing, so that the bounds checks behind it are checks against a number of the sender.
-/

namespace AimRT.Channel

open AimRT.Lib AimRT.Util

/-- A handler stays inside the bytes it has received: it decodes them, or catches the exception of a
check. -/
def StaysInside {β : Type} (handle : Bytes → ReadResult β) (payload : Bytes) : Prop :=
  handle payload ≠ .escaped

variable (payload : Bytes)

/-- A payload that is as long as it tells is not left. -/
theorem staysInside_of_le {β : Type} {told : UInt32 → ℕ} {t : FrameReading β}
    (h : 4 + told (UInt32.ofNat (ofLe (payload.take 4))) ≤ payload.length) :
    StaysInside (FrameReading.readPayload told t) payload :=
  FrameReading.readPayload_ne_escaped_iff.2 (FrameReading.ToldInside.of_le h)

/-- **When the handlers stay inside the payload**: it holds its length, and the first field of the
frame that it cuts off ends behind this length. -/
theorem handlers_stayInside :
    (∀ name, StaysInside (Zenoh.handleMsg name) payload ↔
      FrameReading.ToldInside UInt32.toNat (readMsg name) payload) ∧
    (∀ name funcName, StaysInside (Zenoh.handleRequest name funcName) payload ↔
      FrameReading.ToldInside UInt32.toNat (Zenoh.getRequest name funcName) payload) ∧
    (∀ recorded, StaysInside (Zenoh.handleRspPayload recorded) payload ↔
      FrameReading.ToldInside UInt32.toNat (Zenoh.getRsp recorded) payload) ∧
    (∀ name, StaysInside (Iceoryx.handleMsg name) payload ↔
      FrameReading.ToldInside (fun pkgSize => (pkgSize - 4).toNat) (readMsg name) payload) := by
  refine ⟨fun name => ?_, fun name funcName => ?_, fun recorded => ?_, fun name => ?_⟩
  · exact FrameReading.readPayload_ne_escaped_iff
  · exact FrameReading.readPayload_ne_escaped_iff
  · exact FrameReading.readPayload_ne_escaped_iff
  · exact FrameReading.readPayload_ne_escaped_iff

/-- Four bytes that tell a length of eight: behind them nothing is to be read. -/
theorem not_handlers_stayInside : ¬ ∀ payload : Bytes,
    (∀ name, StaysInside (Zenoh.handleMsg name) payload) ∧
    (∀ name funcName, StaysInside (Zenoh.handleRequest name funcName) payload) ∧
    (∀ recorded, StaysInside (Zenoh.handleRspPayload recorded) payload) ∧
    (∀ name, StaysInside (Iceoryx.handleMsg name) payload) := by
  intro h
  have hzenoh : Zenoh.handleMsg [] [8, 0, 0, 0] = .escaped := rfl
  exact (h [8, 0, 0, 0]).1 [] hzenoh

end AimRT.Channel
