import AimRT.Lib.LittleEndian

/-!
# Messages of the mqtt client library

What the mqtt backends pass to `MQTTAsync_sendMessage`, and what the library puts on the wire.
-/

namespace AimRT.Mqtt

open AimRT.Lib

/-- `MQTTAsync_message` with its topic; `payloadlen` is an `int`. -/
structure MqttMessage where
  topic : Bytes
  payload : Bytes
  payloadlen : ℤ
  qos : ℕ

/-- A message over a buffer, whose size is converted to `int`. -/
def mqttMessage (topic payload : Bytes) (qos : ℕ) : MqttMessage where
  topic := topic
  payload := payload
  payloadlen := Int.bmod payload.length (2 ^ 32)
  qos := qos

/-- The payload that the client library puts on the wire: `payloadlen` bytes, none if negative. -/
def MqttMessage.onWire (m : MqttMessage) : List Bytes :=
  if m.payloadlen < 0 then [] else [m.payload.take m.payloadlen.toNat]

/-- Below `2 ^ 32` bytes the whole payload is on the wire or nothing. -/
theorem eq_of_mem_onWire {topic payload frame : Bytes} {qos : ℕ} (h : payload.length < 2 ^ 32)
    (hmem : frame ∈ (mqttMessage topic payload qos).onWire) : frame = payload := by
  unfold MqttMessage.onWire at hmem
  split at hmem
  · cases hmem
  · rename_i hlen
    rw [List.mem_singleton] at hmem
    rw [hmem]
    refine List.take_of_length_le ?_
    simp only [mqttMessage, Int.bmod] at hlen ⊢
    split at hlen
    · rw [if_pos (by assumption)]
      omega
    · omega

end AimRT.Mqtt
