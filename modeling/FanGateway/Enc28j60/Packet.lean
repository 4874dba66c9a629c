import FanGateway.Enc28j60.Banks

/-!
# Reading one packet

The driver reads a frame by pointing ERDPT at it and taking byte after byte. If the
receive buffer holds a stored frame there, the header tells where the next frame is and
how long this one is, and the bytes behind the header are the frame.
-/

namespace FanGateway.Enc28j60

open Lib

/-- A chip after a packet was read: ERDPT is somewhere, the room of the packet is given back,
and one frame less is counted. -/
def Chip.consumed (c : Chip) (q next : ℕ) : Chip :=
  ((c.setPtr Reg.erdptl q).setPtr Reg.erxrdptl next).counted

namespace Driver

variable {c : Chip} {d : Driver} {p q n : ℕ} {f : Frame}

/-- The driver of a chip whose core is `c` reads buffer memory at `p`. -/
structure Reading (c : Chip) (d : Driver) (p : ℕ) : Prop where
  known : BankKnown d
  core : d.core = c.setPtr Reg.erdptl p
  lt : p < rxSize

theorem Reading.ptr (h : Reading c d p) : d.core.ptr Reg.erdptl = p := by
  rw [h.core]
  exact Chip.ptr_setPtr (h.lt.trans (by decide))

/-- Where the next packet is does not matter to reading this one. -/
theorem Reading.setNext (h : Reading c d p) :
    Reading c { d with dev := { d.dev with nextPacketPtr := n } } p :=
  ⟨h.known, h.core, h.lt⟩

theorem toNat_word {lo hi : UInt8} (hn : n < 65536) (hword : [lo, hi] = Frame.word n) :
    lo.toNat ||| hi.toNat <<< 8 = n := by
  obtain ⟨rfl, hhi⟩ := List.cons_eq_cons.1 hword
  obtain ⟨rfl, -⟩ := List.cons_eq_cons.1 hhi
  have hlow := (UInt8.ofNat n).toNat_lt
  rw [Nat.or_comm, ← Nat.shiftLeft_add_eq_or_of_lt hlow, Nat.shiftLeft_eq, UInt8.toNat_ofNat',
    UInt8.toNat_ofNat']
  omega

/-- The low byte of a number, as the driver cuts it out. -/
theorem ofNat_low (n : ℕ) : UInt8.ofNat (n &&& 0xFF) = UInt8.ofNat n := by
  apply UInt8.toNat_inj.mp
  rw [UInt8.toNat_ofNat', UInt8.toNat_ofNat',
    show n &&& 0xFF = n % 2 ^ 8 from Nat.and_two_pow_sub_one_eq_mod n 8, Nat.mod_mod]

/-- The high byte of a variable of 16 bits. -/
theorem ofNat_high (n : ℕ) : UInt8.ofNat ((n % 2 ^ 16) >>> 8) = UInt8.ofNat (n / 256) := by
  apply UInt8.toNat_inj.mp
  rw [UInt8.toNat_ofNat', UInt8.toNat_ofNat', Nat.shiftRight_eq_div_pow]
  omega

section Bytes

variable (hconf : Configured c)
include hconf

/-- One byte is read and the read pointer goes on. -/
theorem Reading.byte (h : Reading c d p) :
    (readOp .readBufMem 0 d).1 = c.mem p ∧
      Reading c (readOp .readBufMem 0 d).2 ((p + 1) % rxSize) := by
  have hconf' : Configured d.core := by
    rw [h.core]
    exact hconf.setPtr (by decide)
  have hmem : d.core.mem = c.mem := by rw [h.core]; rfl
  constructor
  · calc
      (readOp .readBufMem 0 d).1 = d.core.mem (d.core.ptr Reg.erdptl) := rfl
      _ = c.mem p := by rw [h.ptr, hmem]
  · refine ⟨h.known, ?_, Nat.mod_lt _ (Nat.succ_pos _)⟩
    calc
      (readOp .readBufMem 0 d).2.core =
          d.core.setPtr Reg.erdptl (d.core.next (d.core.ptr Reg.erdptl)) := rfl
      _ = c.setPtr Reg.erdptl ((p + 1) % rxSize) := by
        rw [h.ptr, hconf'.next_eq h.lt, h.core, Chip.setPtr_setPtr]

theorem Reading.bytes (h : Reading c d p) (n : ℕ) :
    (readBuf n d).1 = Ring.load rxSize c.mem p n ∧
      (readBuf n d).2.dev.nextPacketPtr = d.dev.nextPacketPtr ∧
      Reading c (readBuf n d).2 ((p + n) % rxSize) := by
  -- induction on the count; every byte moves the read pointer on
  induction n generalizing d p with
  | zero =>
    refine ⟨rfl, rfl, ?_⟩
    rw [Nat.add_zero, Nat.mod_eq_of_lt h.lt]
    exact h
  | succ n ih =>
    obtain ⟨hbyte, hread⟩ := h.byte hconf
    obtain ⟨hbytes, hnext, hread'⟩ := ih hread
    refine ⟨?_, hnext, ?_⟩
    · rw [Ring.load_succ, Nat.mod_eq_of_lt h.lt, ← hbyte, ← Ring.load_mod, ← hbytes]
      rfl
    · rw [Nat.mod_add_mod, Nat.add_assoc, Nat.add_comm 1 n] at hread'
      exact hread'

/-- Two bytes that hold a number are read as that number. -/
theorem Reading.word (h : Reading c d p) (hn : n < 65536)
    (hword : Ring.Holds rxSize c.mem p (Frame.word n)) :
    (readWord d).1 = n ∧ (readWord d).2.dev.nextPacketPtr = d.dev.nextPacketPtr ∧
      Reading c (readWord d).2 ((p + 2) % rxSize) := by
  obtain ⟨hlow, hread⟩ := h.byte hconf
  obtain ⟨hhigh, hread'⟩ := hread.byte hconf
  have hbytes : [c.mem p, c.mem ((p + 1) % rxSize)] = Frame.word n := by
    rw [← hword]
    simp [Ring.load, Frame.word, List.range_succ, Nat.mod_eq_of_lt h.lt]
  refine ⟨?_, rfl, ?_⟩
  · rw [readWord, hlow, hhigh]
    exact toNat_word hn hbytes
  · rw [Nat.mod_add_mod] at hread'
    exact hread'

/-- A stored frame is read: its data without the checksum, and where the next one is. -/
theorem Reading.frame (h : Reading c d p) {next : ℕ} (hnext : next < 65536)
    (hframe : Ring.Holds rxSize c.mem p (f.encode next)) (hf : f.Whole) :
    (readFrame maxFramelen d).1 = f.payload ∧
      (readFrame maxFramelen d).2.dev.nextPacketPtr = next ∧
      ∃ q, Reading c (readFrame maxFramelen d).2 q := by
  simp only [Frame.encode, List.append_assoc, Ring.holds_append] at hframe
  obtain ⟨hnextWord, hcountWord, hstatusWord, hdata, -⟩ := hframe
  -- the header: where the next frame is, the byte count, the status
  obtain ⟨hnext', -, hread⟩ := h.word hconf hnext hnextWord
  obtain ⟨hcount, hkeep, hread⟩ := (hread.setNext (n := (readWord d).1)).word hconf
    (hf.length.trans_lt (by decide)) (Ring.holds_mod.2 hcountWord)
  rw [Nat.mod_add_mod] at hread
  obtain ⟨hrxstat, hkeep', hread⟩ := hread.word hconf f.status.toNat_lt
    (Ring.holds_mod.2 hstatusWord)
  have hmin : 4 ≤ f.data.length := hf.checksum
  have hmax : f.data.length ≤ 1518 := hf.length
  -- a whole frame is neither too short nor too long, and its status says that it is valid
  have hlen : (f.data.length + 2 ^ 32 - 4) % 2 ^ 32 = f.data.length - 4 := by omega
  have hcap : ¬f.data.length - 4 > maxFramelen - 1 := by
    change ¬f.data.length - 4 > 1517
    omega
  have hvalid : f.status.toNat &&& 0x80 ≠ 0 := by
    intro hzero
    exact hf.status (UInt16.toNat_inj.mp hzero)
  -- the data are read but for the checksum
  obtain ⟨hbytes, hkeep'', hread⟩ := hread.bytes hconf (f.data.length - 4)
  have hpayload : Ring.load rxSize c.mem (p + 2 + 2 + 2) (f.data.length - 4) = f.payload :=
    hdata.load_eq_take (Nat.sub_le _ _)
  have hrun : readFrame maxFramelen d = readBuf (f.data.length - 4)
      (readWord (readWord { (readWord d).2 with
        dev := { (readWord d).2.dev with nextPacketPtr := (readWord d).1 } }).2).2 := by
    rw [readFrame]
    simp only [hcount, hrxstat, hlen, if_neg hcap, if_neg hvalid]
  rw [hrun]
  refine ⟨?_, ?_, _, hread⟩
  · rw [hbytes, Nat.mod_add_mod, Ring.load_mod, hpayload]
  · exact ((hkeep''.trans hkeep').trans hkeep).trans hnext'

end Bytes

/-! ## What the handler does -/

/-- `ENC28J60_Packet_Receive` returns the frame at `NextPacketPtr` and goes on to the next. -/
theorem packetReceive_frame {next : ℕ} (hknown : BankKnown d) (hconf : Configured d.core)
    (hbusy : d.core.estat = 0) (hcount : d.core.regs Reg.epktcnt ≠ 0)
    (hptr : d.dev.nextPacketPtr < rxSize) (hnext : next < 65536)
    (hframe : Ring.Holds rxSize d.core.mem d.dev.nextPacketPtr (f.encode next)) (hf : f.Whole) :
    ∃ d' q, packetReceive maxFramelen d = some (some f.payload, d') ∧ BankKnown d' ∧
      d'.core = d.core.consumed q next ∧ d'.dev.nextPacketPtr = next := by
  have hsame := (sameCore_read Reg.epktcnt d).trans (sameCore_read Reg.estat _)
  have hcount' : (read Reg.epktcnt d).1 ≠ 0 := by
    rw [read_banked hknown (by decide)]
    exact hcount
  have hbusy' : (read Reg.estat (read Reg.epktcnt d).2).1 &&& 0x04 = 0 := by
    rw [read_estat]
    exact (congrArg Chip.estat (sameCore_read Reg.epktcnt d).core).trans hbusy
  -- ERDPT is set to the frame
  obtain ⟨hknown₁, hcore₁, -⟩ := writeNext_spec (l := Reg.erdptl) (hsame.known hknown) (by decide)
  rw [hsame.core, hsame.next] at hcore₁
  have hread : Reading d.core _ d.dev.nextPacketPtr := ⟨hknown₁, hcore₁, hptr⟩
  obtain ⟨hpayload, hnext', q, hread'⟩ :=
    hread.frame hconf hnext hframe hf
  -- ERXRDPT is set to the next one
  obtain ⟨hknown₂, hcore₂, hnext₂⟩ :=
    writeNext_spec (l := Reg.erxrdptl) hread'.known (by decide)
  rw [hnext', hread'.core] at hcore₂
  refine ⟨_, q, ?_, hknown₂.pktdec, ?_, hnext₂.trans hnext'⟩
  · rw [packetReceive]
    simp only [if_neg hcount', hbusy', ne_eq, not_true_eq_false, if_false, hpayload]
  · rw [core_pktdec, hcore₂, Chip.consumed]

/-- The flags as the handler reads them. -/
def flags (d : Driver) : UInt8 := (read Reg.eir (writeOp .bitFieldClr Reg.eie 0x80 d)).1

theorem flags_rxerif : flags d &&& 0x01 = d.chip.eir &&& 0x01 := rxerif_eq

theorem flags_pktif : flags d &&& 0x40 ≠ 0 ↔ d.core.regs Reg.epktcnt ≠ 0 := pktif_iff

/-- A transmission error is cleared, if there is one, and interrupts are enabled. -/
theorem sameCore_finish (failed : Prop) [Decidable failed] (d : Driver) :
    SameCore d (writeOp .bitFieldSet Reg.eie 0x80 (if failed then txError d else d)) := by
  split_ifs
  · exact (sameCore_txError d).trans (sameCore_setEie _ _)
  · exact sameCore_setEie _ _

theorem sameCore_sent (done : Prop) [Decidable done] (d : Driver) :
    SameCore d (if done then writeOp .bitFieldClr Reg.eir 0x08 d else d) := by
  split_ifs
  · exact sameCore_clearEir _ _
  · exact SameCore.refl d

/-- Without a receive error the other branches leave the receive buffer alone. -/
theorem sameCore_otherFlags {status : UInt8} (hstatus : status &&& 0x01 = 0) (d : Driver) :
    SameCore d (otherFlags status d) := by
  have hquiet : ¬status &&& 0x01 ≠ 0 := not_not.2 hstatus
  simp only [otherFlags, if_neg hquiet]
  exact (sameCore_sent _ d).trans (sameCore_finish _ _)

/-- The receive error branch moves ERXRDPT on by one byte and counts one frame less; it reads
none. -/
theorem rxError_spec (h : BankKnown d) :
    BankKnown (rxError d) ∧
      (rxError d).core = (d.core.setPtr Reg.erxrdptl (d.core.ptr Reg.erxrdptl + 1)).counted ∧
      (rxError d).dev.nextPacketPtr = d.dev.nextPacketPtr := by
  -- clearing the flag and reading the counter and the pointer leave the core as it is
  have hflag := (sameCore_clearEir 0x01 d).trans (sameCore_read Reg.epktcnt _)
  have hhigh := hflag.trans (sameCore_read Reg.erxrdpth _)
  have hsame := hhigh.trans (sameCore_read Reg.erxrdptl _)
  have hknown := hsame.known h
  have hlow (v : UInt8) : BankKnown (write Reg.erxrdptl v _) := hknown.write (by decide)
  refine ⟨((hlow _).write (by decide)).pktdec, ?_, ?_⟩
  · -- the two bytes that are read are the pointer
    have hbyte := (d.core.regs Reg.erxrdptl).toNat_lt
    have hptr : (d.core.regs Reg.erxrdpth).toNat <<< 8 ||| (d.core.regs Reg.erxrdptl).toNat =
        d.core.ptr Reg.erxrdptl := by
      rw [← Nat.shiftLeft_add_eq_or_of_lt hbyte, Nat.shiftLeft_eq, Nat.add_comm, Nat.mul_comm]
      rfl
    rw [rxError, core_pktdec, core_write (hlow _) (by decide), core_write hknown (by decide),
      hsame.core, read_banked (hflag.known h) (by decide), read_banked (hhigh.known h) (by decide),
      hflag.core, hhigh.core, show Reg.slot Reg.erxrdpth = Reg.erxrdpth from rfl,
      show Reg.slot Reg.erxrdptl = Reg.erxrdptl from rfl, hptr, ofNat_low, ofNat_high]
    rfl
  · rw [rxError, next_pktdec, next_write (hlow _) (by decide), next_write hknown (by decide),
      hsame.next]

/-- With a receive error the other branches do what the one for it does. -/
theorem otherFlags_error {status : UInt8} (hstatus : status &&& 0x01 ≠ 0) (h : BankKnown d) :
    BankKnown (otherFlags status d) ∧
      (otherFlags status d).core =
        (d.core.setPtr Reg.erxrdptl (d.core.ptr Reg.erxrdptl + 1)).counted ∧
      (otherFlags status d).dev.nextPacketPtr = d.dev.nextPacketPtr := by
  simp only [otherFlags, if_pos hstatus]
  have hsent := sameCore_sent (status &&& 0x08 ≠ 0) d
  have hfinish := sameCore_finish (status &&& 0x02 ≠ 0) (rxError
    (if status &&& 0x08 ≠ 0 then writeOp .bitFieldClr Reg.eir 0x08 d else d))
  obtain ⟨hknown, hcore, hnext⟩ := rxError_spec (hsent.known h)
  refine ⟨hfinish.known hknown, ?_, ?_⟩
  · rw [hfinish.core, hcore, hsent.core]
  · rw [hfinish.next, hnext, hsent.next]

theorem isrHandler_eq {mymalloc : Bool} : isrHandler mymalloc d =
    (if flags d &&& 0x40 ≠ 0 then
      lowLevelInput mymalloc (writeOp .bitFieldClr Reg.eir 0x40
        (read Reg.eir (writeOp .bitFieldClr Reg.eie 0x80 d)).2)
    else some (none, (read Reg.eir (writeOp .bitFieldClr Reg.eie 0x80 d)).2)).map
      fun r => (r.1, otherFlags (flags d) r.2) := rfl

/-- When there is nothing to read or no memory to read it to, no packet is passed on. -/
theorem isrHandler_idle {mymalloc : Bool} (h : d.core.regs Reg.epktcnt = 0 ∨ mymalloc = false) :
    ∃ d', SameCore d d' ∧ isrHandler mymalloc d = some (none, otherFlags (flags d) d') := by
  have hsame := (sameCore_clearEie 0x80 d).trans (sameCore_read Reg.eir _)
  rw [isrHandler_eq]
  by_cases hflag : flags d &&& 0x40 ≠ 0
  · have hmalloc : mymalloc = false := h.resolve_left (flags_pktif.1 hflag)
    refine ⟨_, hsame.trans (sameCore_clearEir 0x40 _), ?_⟩
    rw [if_pos hflag, hmalloc]
    rfl
  · refine ⟨_, hsame, ?_⟩
    rw [if_neg hflag]
    rfl

/-- Otherwise the oldest packet is. -/
theorem isrHandler_frame {next : ℕ} (hknown : BankKnown d) (hconf : Configured d.core)
    (hbusy : d.core.estat = 0) (hcount : d.core.regs Reg.epktcnt ≠ 0)
    (hptr : d.dev.nextPacketPtr < rxSize) (hnext : next < 65536)
    (hframe : Ring.Holds rxSize d.core.mem d.dev.nextPacketPtr (f.encode next)) (hf : f.Whole) :
    ∃ d' q, isrHandler true d = some (some f.payload, otherFlags (flags d) d') ∧
      BankKnown d' ∧ d'.core = d.core.consumed q next ∧ d'.dev.nextPacketPtr = next := by
  -- up to the call of the stack only enable bits and flags change
  have hsame := ((sameCore_clearEie 0x80 d).trans (sameCore_read Reg.eir _)).trans
    (sameCore_clearEir 0x40 _)
  rw [← hsame.core] at hconf hbusy hcount hframe
  rw [← hsame.next] at hptr hframe
  obtain ⟨d', q, hrun, hknown', hcore, hnext'⟩ :=
    packetReceive_frame (hsame.known hknown) hconf hbusy hcount hptr hnext hframe hf
  refine ⟨d', q, ?_, hknown', hcore.trans (by rw [hsame.core]), hnext'⟩
  rw [hsame.core] at hcount
  rw [isrHandler_eq, if_pos (flags_pktif.2 hcount), lowLevelInput, if_pos rfl, hrun]
  rfl

end Driver

end FanGateway.Enc28j60
