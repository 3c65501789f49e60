/-
# `Packet` — the size of a message on the wire

`mqtt.c` puts a fixed header in front of a message, whose length field takes as many
bytes as it needs at seven bits each.  The client that receives the packet has to hold
all of it in its `recvbuf` before it looks at the message.
-/
import SmartHome.Exec

namespace SmartHome

/-- The size of `recvbuf`, the same in all four programs. -/
def recvbufSize : Nat := 1024

/-- The bytes of the length field in `mqtt_pack_fixed_header`. -/
def lengthBytes (remainingLength : Nat) : Nat :=
  if 127 < remainingLength then 1 + lengthBytes (remainingLength >>> 7) else 1
termination_by remainingLength
decreasing_by
  rw [Nat.shiftRight_eq_div_pow]
  omega

/-- The packet of `mqtt_pack_publish_request` at quality of service 0: control byte, length
field, the topic behind its own two length bytes, the message. -/
def packetSize (topicName : CStr) (applicationMessageSize : Nat) : Nat :=
  let remainingLength := 2 + topicName.length + applicationMessageSize
  1 + lengthBytes remainingLength + remainingLength

/-- `mqtt_unpack_response` can return the message from `recvbuf`. -/
def Deliverable (topicName : CStr) (applicationMessageSize : Nat) : Prop :=
  packetSize topicName applicationMessageSize ≤ recvbufSize

instance (topicName : CStr) (size : Nat) : Decidable (Deliverable topicName size) :=
  inferInstanceAs (Decidable (_ ≤ _))

theorem lengthBytes_of_le {n : Nat} (h : n ≤ 127) : lengthBytes n = 1 := by
  rw [lengthBytes, if_neg (Nat.not_lt.mpr h)]

theorem lengthBytes_of_lt {n : Nat} (hlo : 127 < n) (hhi : n < 16384) : lengthBytes n = 2 := by
  have hshift : n >>> 7 ≤ 127 := by
    rw [Nat.shiftRight_eq_div_pow]
    omega
  rw [lengthBytes, if_pos hlo, lengthBytes_of_le hshift]

/-- Five bytes of a packet near the limit are not the message or its topic. -/
theorem deliverable_iff {topicName : CStr} {size : Nat} :
    Deliverable topicName size ↔ topicName.length + size ≤ 1019 := by
  show 1 + lengthBytes (2 + topicName.length + size) + (2 + topicName.length + size) ≤ 1024 ↔ _
  by_cases hshort : 2 + topicName.length + size ≤ 127
  · rw [lengthBytes_of_le hshort]
    omega
  by_cases hlong : 2 + topicName.length + size < 16384
  · rw [lengthBytes_of_lt (by omega) hlong]
    omega
  · omega

end SmartHome
