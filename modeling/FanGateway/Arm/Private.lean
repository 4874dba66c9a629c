import FanGateway.Modbus.Reply

/-!
# The Modbus functions of the ARM program

The checksum is the one of the STM32 program, kept in tables of its own. The
integrity check looks at the length and the checksum of a message and at nothing
else, and the decoder copies as many data bytes as its caller says.
-/

namespace FanGateway.Arm

open Lib Modbus

def tableCrcHiBytes : Array UInt8 := #[
  0x00, 0xC1, 0x81, 0x40, 0x01, 0xC0, 0x80, 0x41, 0x01, 0xC0, 0x80, 0x41, 0x00, 0xC1, 0x81, 0x40,
  0x01, 0xC0, 0x80, 0x41, 0x00, 0xC1, 0x81, 0x40, 0x00, 0xC1, 0x81, 0x40, 0x01, 0xC0, 0x80, 0x41,
  0x01, 0xC0, 0x80, 0x41, 0x00, 0xC1, 0x81, 0x40, 0x00, 0xC1, 0x81, 0x40, 0x01, 0xC0, 0x80, 0x41,
  0x00, 0xC1, 0x81, 0x40, 0x01, 0xC0, 0x80, 0x41, 0x01, 0xC0, 0x80, 0x41, 0x00, 0xC1, 0x81, 0x40,
  0x01, 0xC0, 0x80, 0x41, 0x00, 0xC1, 0x81, 0x40, 0x00, 0xC1, 0x81, 0x40, 0x01, 0xC0, 0x80, 0x41,
  0x00, 0xC1, 0x81, 0x40, 0x01, 0xC0, 0x80, 0x41, 0x01, 0xC0, 0x80, 0x41, 0x00, 0xC1, 0x81, 0x40,
  0x00, 0xC1, 0x81, 0x40, 0x01, 0xC0, 0x80, 0x41, 0x01, 0xC0, 0x80, 0x41, 0x00, 0xC1, 0x81, 0x40,
  0x01, 0xC0, 0x80, 0x41, 0x00, 0xC1, 0x81, 0x40, 0x00, 0xC1, 0x81, 0x40, 0x01, 0xC0, 0x80, 0x41,
  0x01, 0xC0, 0x80, 0x41, 0x00, 0xC1, 0x81, 0x40, 0x00, 0xC1, 0x81, 0x40, 0x01, 0xC0, 0x80, 0x41,
  0x00, 0xC1, 0x81, 0x40, 0x01, 0xC0, 0x80, 0x41, 0x01, 0xC0, 0x80, 0x41, 0x00, 0xC1, 0x81, 0x40,
  0x00, 0xC1, 0x81, 0x40, 0x01, 0xC0, 0x80, 0x41, 0x01, 0xC0, 0x80, 0x41, 0x00, 0xC1, 0x81, 0x40,
  0x01, 0xC0, 0x80, 0x41, 0x00, 0xC1, 0x81, 0x40, 0x00, 0xC1, 0x81, 0x40, 0x01, 0xC0, 0x80, 0x41,
  0x00, 0xC1, 0x81, 0x40, 0x01, 0xC0, 0x80, 0x41, 0x01, 0xC0, 0x80, 0x41, 0x00, 0xC1, 0x81, 0x40,
  0x01, 0xC0, 0x80, 0x41, 0x00, 0xC1, 0x81, 0x40, 0x00, 0xC1, 0x81, 0x40, 0x01, 0xC0, 0x80, 0x41,
  0x01, 0xC0, 0x80, 0x41, 0x00, 0xC1, 0x81, 0x40, 0x00, 0xC1, 0x81, 0x40, 0x01, 0xC0, 0x80, 0x41,
  0x00, 0xC1, 0x81, 0x40, 0x01, 0xC0, 0x80, 0x41, 0x01, 0xC0, 0x80, 0x41, 0x00, 0xC1, 0x81, 0x40]

set_option maxRecDepth 2000 in
theorem size_tableCrcHiBytes : tableCrcHiBytes.size = 256 := rfl

def tableCrcHi : Lib.Crc.ByteTable := ⟨tableCrcHiBytes, size_tableCrcHiBytes⟩

def tableCrcLoBytes : Array UInt8 := #[
  0x00, 0xC0, 0xC1, 0x01, 0xC3, 0x03, 0x02, 0xC2, 0xC6, 0x06, 0x07, 0xC7, 0x05, 0xC5, 0xC4, 0x04,
  0xCC, 0x0C, 0x0D, 0xCD, 0x0F, 0xCF, 0xCE, 0x0E, 0x0A, 0xCA, 0xCB, 0x0B, 0xC9, 0x09, 0x08, 0xC8,
  0xD8, 0x18, 0x19, 0xD9, 0x1B, 0xDB, 0xDA, 0x1A, 0x1E, 0xDE, 0xDF, 0x1F, 0xDD, 0x1D, 0x1C, 0xDC,
  0x14, 0xD4, 0xD5, 0x15, 0xD7, 0x17, 0x16, 0xD6, 0xD2, 0x12, 0x13, 0xD3, 0x11, 0xD1, 0xD0, 0x10,
  0xF0, 0x30, 0x31, 0xF1, 0x33, 0xF3, 0xF2, 0x32, 0x36, 0xF6, 0xF7, 0x37, 0xF5, 0x35, 0x34, 0xF4,
  0x3C, 0xFC, 0xFD, 0x3D, 0xFF, 0x3F, 0x3E, 0xFE, 0xFA, 0x3A, 0x3B, 0xFB, 0x39, 0xF9, 0xF8, 0x38,
  0x28, 0xE8, 0xE9, 0x29, 0xEB, 0x2B, 0x2A, 0xEA, 0xEE, 0x2E, 0x2F, 0xEF, 0x2D, 0xED, 0xEC, 0x2C,
  0xE4, 0x24, 0x25, 0xE5, 0x27, 0xE7, 0xE6, 0x26, 0x22, 0xE2, 0xE3, 0x23, 0xE1, 0x21, 0x20, 0xE0,
  0xA0, 0x60, 0x61, 0xA1, 0x63, 0xA3, 0xA2, 0x62, 0x66, 0xA6, 0xA7, 0x67, 0xA5, 0x65, 0x64, 0xA4,
  0x6C, 0xAC, 0xAD, 0x6D, 0xAF, 0x6F, 0x6E, 0xAE, 0xAA, 0x6A, 0x6B, 0xAB, 0x69, 0xA9, 0xA8, 0x68,
  0x78, 0xB8, 0xB9, 0x79, 0xBB, 0x7B, 0x7A, 0xBA, 0xBE, 0x7E, 0x7F, 0xBF, 0x7D, 0xBD, 0xBC, 0x7C,
  0xB4, 0x74, 0x75, 0xB5, 0x77, 0xB7, 0xB6, 0x76, 0x72, 0xB2, 0xB3, 0x73, 0xB1, 0x71, 0x70, 0xB0,
  0x50, 0x90, 0x91, 0x51, 0x93, 0x53, 0x52, 0x92, 0x96, 0x56, 0x57, 0x97, 0x55, 0x95, 0x94, 0x54,
  0x9C, 0x5C, 0x5D, 0x9D, 0x5F, 0x9F, 0x9E, 0x5E, 0x5A, 0x9A, 0x9B, 0x5B, 0x99, 0x59, 0x58, 0x98,
  0x88, 0x48, 0x49, 0x89, 0x4B, 0x8B, 0x8A, 0x4A, 0x4E, 0x8E, 0x8F, 0x4F, 0x8D, 0x4D, 0x4C, 0x8C,
  0x44, 0x84, 0x85, 0x45, 0x87, 0x47, 0x46, 0x86, 0x82, 0x42, 0x43, 0x83, 0x41, 0x81, 0x80, 0x40]

set_option maxRecDepth 2000 in
theorem size_tableCrcLoBytes : tableCrcLoBytes.size = 256 := rfl

def tableCrcLo : Lib.Crc.ByteTable := ⟨tableCrcLoBytes, size_tableCrcLoBytes⟩

/-- `crc16` of `buffer[0 .. buffer_length)`. -/
def crc16 (buffer : List UInt8) : UInt16 := Lib.Crc.tableCrc tableCrcHi tableCrcLo buffer

/-- Whether the first `msgLength` bytes are long enough and end with their
checksum. -/
def modbusRtuCheckIntegrity {n : ℕ} (remsg : Buffer UInt8 n) (msgLength : ℤ) : Bool :=
  if msgLength < 11 then false
  else
    let crcCalculated := crc16 (remsg.slice 0 (msgLength - 2).toNat)
    -- high byte first
    let crcReceived := ((remsg.peek (msgLength - 2).toNat).toUInt16 <<< 8) |||
      (remsg.peek (msgLength - 1).toNat).toUInt16
    crcCalculated == crcReceived

/-- Copy `len` data bytes. -/
def rtuDataAnlys {n m : ℕ} (dst : Traced UInt8 n) (src : Buffer UInt8 m) (start len : ℕ) :
    Traced UInt8 n :=
  forRange 0 len (fun i dst => dst.store (i + start) (src.peek (i + 3))) dst

/-- A message passes the check exactly when it is long enough and is a frame. -/
theorem modbusRtuCheckIntegrity_iff {n : ℕ} {remsg : Buffer UInt8 n} {length : ℕ} :
    modbusRtuCheckIntegrity remsg length = true ↔
      11 ≤ length ∧ remsg.slice 0 length = frame crc16 (remsg.slice 0 (length - 2)) := by
  by_cases hshort : length < 11
  · rw [modbusRtuCheckIntegrity, if_pos (by omega)]
    exact iff_of_false Bool.false_ne_true fun h => absurd h.1 (by omega)
  · obtain ⟨n, rfl⟩ : ∃ n, length = n + 2 := ⟨length - 2, by omega⟩
    have hbody : (((n + 2 : ℕ) : ℤ) - 2).toNat = n := by omega
    have hlast : (((n + 2 : ℕ) : ℤ) - 1).toNat = n + 1 := by omega
    have hlong : 11 ≤ n + 2 := by omega
    rw [modbusRtuCheckIntegrity, if_neg (by omega), hbody, hlast, Nat.add_sub_cancel,
      slice_eq_frame_iff, Crc.shiftLeft_or_eq_word]
    simp only [beq_iff_eq, hlong, true_and]
    exact eq_comm

/-- The bytes after the copy. -/
theorem peek_rtuDataAnlys {n m : ℕ} {dst : Traced UInt8 n} {src : Buffer UInt8 m}
    {start len j : ℕ} :
    (rtuDataAnlys dst src start len).peek j =
      if start ≤ j ∧ j < start + len ∧ j < n then src.peek (j - start + 3) else dst.peek j := by
  rw [rtuDataAnlys, Traced.peek_forRange_store (g := fun i => src.peek (i + 3))]
  exact if_congr (by omega) rfl rfl

/-- The positions the copy stores to. -/
theorem trace_rtuDataAnlys {n m : ℕ} {dst : Traced UInt8 n} {src : Buffer UInt8 m}
    {start len : ℕ} :
    (rtuDataAnlys dst src start len).trace = dst.trace ++ List.range' start len := by
  rw [rtuDataAnlys, Traced.trace_forRange_store (g := fun i => src.peek (i + 3))
    (Nat.zero_le _), Nat.zero_add, Nat.sub_zero]

end FanGateway.Arm
