import FanGateway.Lib.Buffer
import FanGateway.Lib.Crc

/-!
# Slaves, their register blocks and their replies

Three slaves share the serial line. Each owns one block of the thirty-eight data
bytes: sixteen for the first two, six for the third, one block after the other.
A poll asks for half as many registers, and the well-formed answer repeats the
address and the function code, counts its data bytes and ends with the checksum
of all that, high byte first.
-/

namespace FanGateway.Modbus

open Lib

/-- The three polled slaves. -/
inductive Slave | one | two | three
  deriving DecidableEq, Repr

namespace Slave

/-- The address byte. -/
def addr : Slave → UInt8
  | one => 1
  | two => 2
  | three => 3

/-- Where the slave's block of the data bytes starts. -/
def start : Slave → ℕ
  | one => 0
  | two => 16
  | three => 32

/-- The bytes in the slave's block. -/
def size : Slave → ℕ
  | one => 16
  | two => 16
  | three => 6

/-- The registers asked for: two bytes each. -/
def registers : Slave → UInt8
  | one => 8
  | two => 8
  | three => 3

/-- The length of a well-formed reply: address, function code and byte count
before the data, two checksum bytes after it. -/
def replyLength (k : Slave) : ℕ := k.size + 5

theorem addr_injective : Function.Injective addr := by
  intro k l h
  cases k <;> cases l <;> first | rfl | exact absurd h (by decide)

/-- A position in the slave's block. -/
def InBlock (k : Slave) (i : ℕ) : Prop := k.start ≤ i ∧ i < k.start + k.size

instance (k : Slave) (i : ℕ) : Decidable (k.InBlock i) :=
  inferInstanceAs (Decidable (_ ∧ _))

theorem InBlock.lt {k : Slave} {i : ℕ} (h : k.InBlock i) : i < 38 := by
  cases k <;> simp only [InBlock, start, size] at h <;> omega

/-- The blocks do not overlap. -/
theorem InBlock.eq {k l : Slave} {i : ℕ} (h : k.InBlock i) (h' : l.InBlock i) : k = l := by
  cases k <;> cases l <;> simp only [InBlock, start, size] at h h' <;> first | rfl | omega

end Slave

/-- The data bytes of one slave. -/
abbrev Payload (k : Slave) := Buffer UInt8 k.size

section Frames

variable (crc : List UInt8 → UInt16)

/-- A frame: a body followed by its checksum, high byte first. -/
def frame (body : List UInt8) : List UInt8 := body ++ Crc.bytes (crc body)

/-- The request for a slave's registers: function code 3 from register 0 on. -/
def request (k : Slave) : List UInt8 := frame crc [k.addr, 3, 0, 0, 0, k.registers]

/-- A reply up to its checksum. -/
def replyBody (k : Slave) (data : Payload k) : List UInt8 :=
  [k.addr, 3, UInt8.ofNat k.size] ++ data.slice 0 k.size

/-- The well-formed reply of a slave with the given data. -/
def reply (k : Slave) (data : Payload k) : List UInt8 := frame crc (replyBody k data)

variable {crc} {k : Slave} {data : Payload k}

@[simp] theorem length_frame (body : List UInt8) :
    (frame crc body).length = body.length + 2 := by
  simp [frame]

@[simp] theorem length_replyBody : (replyBody k data).length = k.size + 3 := by
  simp [replyBody]

@[simp] theorem length_reply : (reply crc k data).length = k.replyLength := by
  simp [reply, Slave.replyLength]

/-- The front of a buffer is a frame exactly when the last two bytes are the checksum of
those before. -/
theorem slice_eq_frame_iff {m : ℕ} {b : Buffer UInt8 m} {n : ℕ} :
    b.slice 0 (n + 2) = frame crc (b.slice 0 n) ↔
      Crc.word (b.peek n) (b.peek (n + 1)) = crc (b.slice 0 n) := by
  have htrailer : b.slice (0 + n) 2 = [b.peek n, b.peek (n + 1)] := by
    simp [Buffer.slice, List.range_succ]
  rw [Buffer.slice_append, frame, List.append_cancel_left_eq, Crc.word_eq_iff, htrailer]

/-- What a buffer holds when its front is the frame of a given body. -/
theorem peek_of_frame {m : ℕ} {b : Buffer UInt8 m} {body : List UInt8}
    (h : b.slice 0 (body.length + 2) = frame crc body) :
    b.slice 0 body.length = body ∧ ∀ i < body.length, body[i]? = some (b.peek i) := by
  rw [Buffer.slice_append, frame] at h
  have hbody := (List.append_inj h (by simp)).1
  refine ⟨hbody, fun i hi => ?_⟩
  rw [← Nat.zero_add i, ← hbody, Buffer.getElem?_slice, Nat.zero_add, if_pos hi, Nat.zero_add]

/-- The data bytes of a reply start at its fourth byte. -/
theorem getElem?_replyBody_data {i : ℕ} (h : i < k.size) :
    (replyBody k data)[i + 3]? = some (data.peek i) := by
  rw [replyBody, List.getElem?_append_right (by simp),
    show i + 3 - [k.addr, 3, UInt8.ofNat k.size].length = i by simp, Buffer.getElem?_slice,
    if_pos h, Nat.zero_add]

end Frames

end FanGateway.Modbus
