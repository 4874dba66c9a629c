import FanGateway.Enc28j60.Bus

/-!
# The length of a received frame

The chip stores a frame behind six bytes, read in order: the position of the next frame, the
number of bytes and the status. The number of bytes includes the checksum of four; it is
subtracted as an unsigned number, so that what is less than four becomes more than any frame
has, and the limit of the buffer takes its place.

To say what was read and written, a bus may keep a record of its accesses.
-/

namespace FanGateway.Enc28j60

variable {σ : Type*}

/-! ## The limit -/

theorem ite_gt_eq_min (len most : ℕ) : (if len > most then most else len) = min len most := by
  split_ifs <;> omega

namespace Sys

variable {B : Bus σ} {s : Sys σ} {polls maxlen : ℕ}

theorem frameLen_eq (hmaxlen : 1 ≤ maxlen) (hsize : maxlen < 2 ^ 32) (count : ℕ) :
    frameLen maxlen count = min ((count + 2 ^ 32 - 4) % 2 ^ 32) (maxlen - 1) := by
  have hmost : (maxlen + 2 ^ 32 - 1) % 2 ^ 32 = maxlen - 1 := by omega
  simp only [frameLen, hmost, ite_gt_eq_min]

theorem frameLen_lt (hmaxlen : 1 ≤ maxlen) (hsize : maxlen < 2 ^ 32) (count : ℕ) :
    frameLen maxlen count < maxlen := by
  rw [frameLen_eq hmaxlen hsize]
  exact (Nat.min_le_right _ _).trans_lt (by omega)

/-- The limit of the buffer is the only one for a count that has no room for the checksum. -/
theorem frameLen_le_iff {count : ℕ} (hmaxlen : 1 ≤ maxlen) (hsize : maxlen < 2 ^ 32)
    (hcount : count < 65536) : frameLen maxlen count ≤ count - 4 ↔ 4 ≤ count ∨ maxlen ≤ 1 := by
  rw [frameLen_eq hmaxlen hsize]
  omega

theorem length_readBuf (len : ℕ) (s : Sys σ) : (readBuf B len s).1.length = len := by
  induction len generalizing s with
  | zero => rfl
  | succ len ih => exact congrArg (· + 1) (ih _)

/-- What is stored begins with the packet, and the buffer has room for it. -/
structure Fits (maxlen : ℕ) (r : Received) : Prop where
  len_le : r.len ≤ r.stored.length
  length_le : r.stored.length ≤ maxlen
  len_lt : r.len < maxlen

theorem fits_readPacket {len : ℕ} (hlen : len < maxlen) (s : Sys σ) :
    Fits maxlen (Received.mk len ((readBuf B len s).1 ++ [0]), (readBuf B len s).2).1 := by
  have hlength : ((readBuf B len s).1 ++ [0]).length = len + 1 := by
    rw [List.length_append, length_readBuf, List.length_singleton]
  exact ⟨(Nat.le_succ len).trans hlength.ge, hlength.le.trans hlen, hlen⟩

theorem fits_empty (hmaxlen : 1 ≤ maxlen) : Fits maxlen ⟨0, []⟩ :=
  ⟨Nat.zero_le _, Nat.zero_le _, hmaxlen⟩

theorem fits_readFrame (hmaxlen : 1 ≤ maxlen) (hsize : maxlen < 2 ^ 32) (s : Sys σ) :
    Fits maxlen (readFrame B maxlen s).1 := by
  simp only [readFrame]
  generalize readWord B s = next
  generalize readWord B { next.2 with nextPacketPtr := next.1 } = count
  generalize readWord B count.2 = rxstat
  split_ifs
  · exact fits_empty hmaxlen
  · exact fits_readPacket (frameLen_lt hmaxlen hsize count.1) rxstat.2

theorem fits_packetReceive (hmaxlen : 1 ≤ maxlen) (hsize : maxlen < 2 ^ 32)
    {r : Received × Sys σ} (hreceive : packetReceive B polls maxlen s = some r) :
    Fits maxlen r.1 := by
  rw [packetReceive] at hreceive
  dsimp only at hreceive
  split_ifs at hreceive
  · obtain rfl := Option.some.inj hreceive
    exact fits_empty hmaxlen
  · obtain ⟨u, -, rfl⟩ := Option.map_eq_some_iff.mp hreceive
    exact fits_readFrame hmaxlen hsize _

end Sys

/-! ## Recorded accesses -/

inductive Access
  | readOp (op : Op) (addr : ℕ) (answer : UInt8)
  | writeOp (op : Op) (addr : ℕ) (data : UInt8)
  | read (addr : ℕ) (answer : UInt8)
  | write (addr : ℕ) (data : UInt8)

/-- A bus that keeps a record. -/
def Bus.record (B : Bus σ) : Bus (σ × List Access) where
  readOp op addr s := let r := B.readOp op addr s.1; (r.1, r.2, s.2 ++ [.readOp op addr r.1])
  writeOp op addr data s := (B.writeOp op addr data s.1, s.2 ++ [.writeOp op addr data])
  setBank bank s := (B.setBank bank s.1, s.2)
  read addr s := let r := B.read addr s.1; (r.1, r.2, s.2 ++ [.read addr r.1])
  write addr data s := (B.write addr data s.1, s.2 ++ [.write addr data])
  reset s := (B.reset s.1, s.2)

/-- The bytes that were read from buffer memory, in order. -/
def bufferBytes (accesses : List Access) : List UInt8 :=
  accesses.filterMap fun
    | .readOp .readBufMem _ answer => some answer
    | _ => none

@[simp] theorem bufferBytes_nil : bufferBytes [] = [] := rfl

@[simp] theorem bufferBytes_append (as bs : List Access) :
    bufferBytes (as ++ bs) = bufferBytes as ++ bufferBytes bs := List.filterMap_append

/-- Sixteen bits as the driver puts them together. -/
def ofBytes (low high : UInt8) : ℕ := low.toNat ||| high.toNat <<< 8

theorem ofBytes_eq (low high : UInt8) : ofBytes low high = low.toNat + 256 * high.toNat := by
  have hlow : low.toNat < 2 ^ 8 := low.toNat_lt
  rw [ofBytes, Nat.or_comm, ← Nat.shiftLeft_add_eq_or_of_lt hlow, Nat.shiftLeft_eq]
  omega

theorem low_ofBytes (low high : UInt8) : UInt8.ofNat (ofBytes low high) = low := by
  apply UInt8.toNat_inj.mp
  have hlow := low.toNat_lt
  rw [ofBytes_eq, UInt8.toNat_ofNat']
  omega

theorem high_ofBytes (low high : UInt8) : UInt8.ofNat (ofBytes low high >>> 8) = high := by
  apply UInt8.toNat_inj.mp
  have hlow := low.toNat_lt
  have hhigh := high.toNat_lt
  rw [ofBytes_eq, UInt8.toNat_ofNat', Nat.shiftRight_eq_div_pow]
  omega

namespace Sys

variable {B : Bus σ} {s t : Sys (σ × List Access)}

/-- The record. -/
def accesses (s : Sys (σ × List Access)) : List Access := s.bus.2

theorem waitWhile_recorded {addr polls : ℕ} {mask : UInt8}
    (h : waitWhile B.record addr mask polls s = some t) :
    bufferBytes t.accesses = bufferBytes s.accesses ∧ t.nextPacketPtr = s.nextPacketPtr := by
  -- every poll adds the read of a register
  have hread (s : Sys (σ × List Access)) :
      bufferBytes (read B.record addr s).2.accesses = bufferBytes s.accesses := by
    simp [read, Bus.record, accesses, bufferBytes]
  induction polls generalizing s with
  | zero => exact absurd h (by simp [waitWhile])
  | succ polls ih =>
    rw [waitWhile] at h
    split_ifs at h
    · obtain ⟨hbytes, hnext⟩ := ih h
      exact ⟨hbytes.trans (hread s), hnext⟩
    · obtain rfl := Option.some.inj h
      exact ⟨hread s, rfl⟩

/-- Two bytes are read. -/
theorem readWord_recorded (s : Sys (σ × List Access)) :
    ∃ low high, (readWord B.record s).1 = ofBytes low high ∧
      bufferBytes (readWord B.record s).2.accesses = bufferBytes s.accesses ++ [low, high] ∧
      (readWord B.record s).2.nextPacketPtr = s.nextPacketPtr := by
  refine ⟨_, _, rfl, ?_, rfl⟩
  simp [readWord, readOp, Bus.record, accesses, bufferBytes]

theorem readBuf_recorded (len : ℕ) (s : Sys (σ × List Access)) :
    bufferBytes (readBuf B.record len s).2.accesses =
        bufferBytes s.accesses ++ (readBuf B.record len s).1 ∧
      (readBuf B.record len s).2.nextPacketPtr = s.nextPacketPtr := by
  induction len generalizing s with
  | zero => exact ⟨(List.append_nil _).symm, rfl⟩
  | succ len ih =>
    obtain ⟨hbytes, hnext⟩ := ih (readOp B.record .readBufMem 0 s).2
    refine ⟨?_, hnext⟩
    rw [readBuf]
    dsimp only
    rw [hbytes]
    simp [readOp, Bus.record, accesses, bufferBytes]

/-- A packet of that length. -/
theorem readPacket_recorded (len : ℕ) (s : Sys (σ × List Access)) :
    ∃ data, data.length = len ∧
      (Received.mk len ((readBuf B.record len s).1 ++ [0]), (readBuf B.record len s).2).1 =
        ⟨len, data ++ [0]⟩ ∧
      bufferBytes (Received.mk len ((readBuf B.record len s).1 ++ [0]),
        (readBuf B.record len s).2).2.accesses = bufferBytes s.accesses ++ data ∧
      (Received.mk len ((readBuf B.record len s).1 ++ [0]),
        (readBuf B.record len s).2).2.nextPacketPtr = s.nextPacketPtr := by
  obtain ⟨hdata, hkept⟩ := readBuf_recorded (B := B) len s
  exact ⟨_, length_readBuf len s, rfl, hdata, hkept⟩

end Sys

/-! ## The header -/

/-- The six bytes before a frame. -/
structure Header where
  nextLow : UInt8
  nextHigh : UInt8
  countLow : UInt8
  countHigh : UInt8
  statusLow : UInt8
  statusHigh : UInt8

namespace Header

def bytes (h : Header) : List UInt8 :=
  [h.nextLow, h.nextHigh, h.countLow, h.countHigh, h.statusLow, h.statusHigh]

def next (h : Header) : ℕ := ofBytes h.nextLow h.nextHigh

def count (h : Header) : ℕ := ofBytes h.countLow h.countHigh

def status (h : Header) : ℕ := ofBytes h.statusLow h.statusHigh

theorem count_lt (h : Header) : h.count < 65536 := by
  have hlow := h.countLow.toNat_lt
  have hhigh := h.countHigh.toNat_lt
  rw [count, ofBytes_eq]
  omega

/-- The frame has been received without errors. -/
def Valid (h : Header) : Prop := h.status &&& 0x80 ≠ 0

instance (h : Header) : Decidable h.Valid := inferInstanceAs (Decidable (_ ≠ _))

end Header

/-- What the header and the limit make of the length, and what is stored with it. -/
theorem Sys.readFrame_recorded {B : Bus σ} (maxlen : ℕ) (s : Sys (σ × List Access)) :
    ∃ (h : Header) (data : List UInt8),
      (readFrame B.record maxlen s).2.nextPacketPtr = h.next ∧
        bufferBytes (readFrame B.record maxlen s).2.accesses =
          bufferBytes s.accesses ++ (h.bytes ++ data) ∧
        (readFrame B.record maxlen s).1 =
          (if h.Valid then Received.mk (frameLen maxlen h.count) (data ++ [0]) else ⟨0, []⟩) ∧
        (h.Valid → data.length = frameLen maxlen h.count) := by
  simp only [readFrame]
  -- the three words, one after the other
  obtain ⟨nextLow, nextHigh, hnext, hbytes₁, -⟩ := readWord_recorded (B := B) s
  generalize readWord B.record s = next at *
  obtain ⟨countLow, countHigh, hcount, hbytes₂, hptr₂⟩ :=
    readWord_recorded (B := B) { next.2 with nextPacketPtr := next.1 }
  generalize readWord B.record { next.2 with nextPacketPtr := next.1 } = count at *
  obtain ⟨statusLow, statusHigh, hstatus, hbytes₃, hptr₃⟩ := readWord_recorded (B := B) count.2
  generalize readWord B.record count.2 = rxstat at *
  obtain ⟨h, hh⟩ : ∃ h : Header,
      h = ⟨nextLow, nextHigh, countLow, countHigh, statusLow, statusHigh⟩ := ⟨_, rfl⟩
  have hptr : rxstat.2.nextPacketPtr = h.next := by
    rw [hptr₃, hptr₂, hh]
    exact hnext
  have hheader : bufferBytes rxstat.2.accesses = bufferBytes s.accesses ++ h.bytes := by
    rw [hbytes₃, hbytes₂, hh]
    refine (congrArg (· ++ _ ++ _) hbytes₁).trans ?_
    simp [Header.bytes]
  have hlen : count.1 = h.count := by rw [hh, Header.count, hcount]
  have hvalid : rxstat.1 = h.status := by rw [hh, Header.status, hstatus]
  simp only [hlen, hvalid]
  by_cases h0 : h.status &&& 0x80 = 0
  · have hnot : ¬ h.Valid := not_not.mpr h0
    refine ⟨h, [], ?_⟩
    rw [if_pos h0, if_neg hnot, List.append_nil]
    exact ⟨hptr, hheader, rfl, fun hv => absurd hv hnot⟩
  · have hv : h.Valid := h0
    obtain ⟨data, hlength, hpacket, hdata, hkept⟩ :=
      readPacket_recorded (B := B) (frameLen maxlen h.count) rxstat.2
    refine ⟨h, data, ?_⟩
    rw [if_neg h0, if_pos hv, hpacket, hdata, hkept, hheader, List.append_assoc]
    exact ⟨hptr, rfl, rfl, fun _ => hlength⟩

/-! ## The length -/

/-- A packet was read as its header says: the length, what is stored from `packet[0]` on, the
position of the next packet, and the memory that is released last. -/
structure LengthSound (maxlen : ℕ) (h : Header) (r : Received) (t : Sys (σ × List Access)) :
    Prop where
  limit : r.len ≤ maxlen - 1
  payload : r.len ≤ h.count - 4
  stored : r.stored.length ≤ maxlen
  next : t.nextPacketPtr = h.next
  released : ∃ before, t.accesses = before ++
    [.write Reg.erxrdptl h.nextLow, .write Reg.erxrdpth h.nextHigh,
      .writeOp .bitFieldSet Reg.econ2 0x40]

/-- What follows the frame: its memory is released, up to the next packet. -/
theorem Sys.released {B : Bus σ} {s : Sys (σ × List Access)} {h : Header}
    (hnext : s.nextPacketPtr = h.next) :
    (writeOp B.record .bitFieldSet Reg.econ2 0x40 (writeNext B.record Reg.erxrdptl s)).accesses =
      s.accesses ++ [.write Reg.erxrdptl h.nextLow, .write Reg.erxrdpth h.nextHigh,
        .writeOp .bitFieldSet Reg.econ2 0x40] := by
  have hlow : UInt8.ofNat h.next = h.nextLow := low_ofBytes _ _
  have hhigh : UInt8.ofNat (h.next >>> 8) = h.nextHigh := high_ofBytes _ _
  simp [writeOp, writeNext, write, Bus.record, accesses, hnext, hlow, hhigh]

/-- What the status and the length make of the first three demands. -/
theorem Received.sound_iff {maxlen : ℕ} {h : Header} {data : List UInt8} {r : Received}
    (hmaxlen : 1 ≤ maxlen) (hsize : maxlen < 2 ^ 32)
    (hr : r = if h.Valid then ⟨Sys.frameLen maxlen h.count, data ++ [0]⟩ else ⟨0, []⟩)
    (hdata : h.Valid → data.length = Sys.frameLen maxlen h.count) :
    r.len ≤ maxlen - 1 ∧ r.stored.length ≤ maxlen ∧
      (r.len ≤ h.count - 4 ↔ ¬ (h.count < 4 ∧ h.Valid ∧ 2 ≤ maxlen)) := by
  by_cases hv : h.Valid
  · have hlimit : Sys.frameLen maxlen h.count ≤ maxlen - 1 := by
      rw [Sys.frameLen_eq hmaxlen hsize]
      exact Nat.min_le_right _ _
    have hpayload := Sys.frameLen_le_iff hmaxlen hsize h.count_lt
    rw [if_pos hv] at hr
    have hlen : r.len = Sys.frameLen maxlen h.count := by rw [hr]
    have hlength : r.stored.length = Sys.frameLen maxlen h.count + 1 := by
      rw [hr, List.length_append, hdata hv, List.length_singleton]
    rw [hlen, hlength, hpayload]
    exact ⟨hlimit, by omega, by simp only [hv, true_and]; omega⟩
  · rw [if_neg hv] at hr
    rw [hr]
    exact ⟨Nat.zero_le _, Nat.zero_le _, iff_of_true (Nat.zero_le _) fun h => hv h.2.1⟩

/-- **Length.** On any chip, with a packet pending and once reception is idle, a packet is returned
whose header are the first six bytes read. It is read as its header says exactly unless the
header counts less than the four bytes of a checksum, yet says the frame is valid, and the
buffer has room for a byte and the final zero. -/
theorem length_sound_iff (B : Bus σ) (s : Sys (σ × List Access)) (hstart : s.accesses = [])
    {polls maxlen : ℕ} (hmaxlen : 1 ≤ maxlen) (hsize : maxlen < 2 ^ 32)
    (hpending : (B.read Reg.epktcnt s.bus.1).1 ≠ 0)
    (hidle : (Sys.waitWhile B.record Reg.estat 0x04 polls
      (Sys.read B.record Reg.epktcnt { s with masked := true }).2).isSome) :
    ∃ r h, Sys.packetReceive B.record polls maxlen s = some r ∧
      (bufferBytes r.2.accesses).take 6 = h.bytes ∧
      (LengthSound maxlen h r.1 r.2 ↔ ¬ (h.count < 4 ∧ h.Valid ∧ 2 ≤ maxlen)) := by
  obtain ⟨w, hw⟩ := Option.isSome_iff_exists.mp hidle
  obtain ⟨hwait, -⟩ := Sys.waitWhile_recorded hw
  obtain ⟨h, data, hnext, hbytes, hpacket, hdata⟩ :=
    Sys.readFrame_recorded (B := B) maxlen (Sys.writeNext B.record Reg.erdptl w)
  have hreceive : Sys.packetReceive B.record polls maxlen s = some
      ((Sys.readFrame B.record maxlen (Sys.writeNext B.record Reg.erdptl w)).1,
        { Sys.writeOp B.record .bitFieldSet Reg.econ2 0x40 (Sys.writeNext B.record Reg.erxrdptl
            (Sys.readFrame B.record maxlen (Sys.writeNext B.record Reg.erdptl w)).2) with
          masked := s.masked }) := by
    have hcounted : ¬ (Sys.read B.record Reg.epktcnt { s with masked := true }).1 = 0 := hpending
    rw [Sys.packetReceive]
    dsimp only
    rw [if_neg hcounted, hw]
    rfl
  generalize Sys.readFrame B.record maxlen (Sys.writeNext B.record Reg.erdptl w) = packet at *
  have hreleased := Sys.released (B := B) hnext
  refine ⟨_, h, hreceive, ?_, ?_⟩
  · have hempty : bufferBytes (Sys.writeNext B.record Reg.erdptl w).accesses = [] := by
      have hpoll : bufferBytes w.accesses = [] := by
        rw [hwait]
        simp [Sys.read, Bus.record, Sys.accesses, bufferBytes, show s.bus.2 = [] from hstart]
      simpa [Sys.writeNext, Sys.write, Bus.record, Sys.accesses, bufferBytes] using hpoll
    rw [hempty, List.nil_append] at hbytes
    have hall := congrArg bufferBytes hreleased
    rw [bufferBytes_append, hbytes] at hall
    exact (congrArg (List.take 6) hall).trans rfl
  · obtain ⟨hlimit, hstored, hpayload⟩ := Received.sound_iff hmaxlen hsize hpacket hdata
    exact ⟨fun hsound => hpayload.mp hsound.payload,
      fun hnot => ⟨hlimit, hpayload.mpr hnot, hstored, hnext, _, hreleased⟩⟩

/-! A chip with one frame. -/

/-- One frame is counted, and its bytes are read in order. -/
def Bus.delivering : Bus (List UInt8) where
  readOp _ _ bytes := (bytes.headD 0, bytes.tail)
  writeOp _ _ _ bytes := bytes
  setBank _ bytes := bytes
  read addr bytes := (if addr = Reg.epktcnt then 1 else 0, bytes)
  write _ _ bytes := bytes
  reset bytes := bytes

/-- A header, and the driver at rest. -/
def Header.arrived (h : Header) : Sys (List UInt8 × List Access) :=
  ⟨(h.bytes, []), 0, fun _ => 0, false⟩

/-- A frame of 60 bytes. -/
theorem length_sound_of_frame :
    ∃ r h, Sys.packetReceive Bus.delivering.record 1 1518
        (Header.arrived ⟨0, 0x10, 64, 0, 0x80, 0⟩) = some r ∧
      (bufferBytes r.2.accesses).take 6 = h.bytes ∧
      (LengthSound 1518 h r.1 r.2 ↔ ¬ (h.count < 4 ∧ h.Valid ∧ 2 ≤ 1518)) :=
  length_sound_iff Bus.delivering (Header.arrived ⟨0, 0x10, 64, 0, 0x80, 0⟩) rfl (by decide)
    (by decide) (by decide) (by decide)

/-- A count of three, which has no byte of a payload, is returned as a packet of 1517 bytes. -/
theorem not_length_sound_of_three :
    (Sys.packetReceive Bus.delivering.record 1 1518
      (Header.arrived ⟨0, 0x10, 3, 0, 0x80, 0⟩)).map (fun r => r.1.len) = some 1517 ∧
    Header.count ⟨0, 0x10, 3, 0, 0x80, 0⟩ - 4 = 0 := by
  decide

end FanGateway.Enc28j60
