import FanGateway.Enc28j60.Banks
import FanGateway.Enc28j60.Length

/-!
# The driver on the chip

The functions of `enc28j60.c` stand over any bus, and over the chip. The chip is a bus:
its answers come at once, and the byte that a register of MAC or MII puts in front is
not used. Over that bus every function does what it does over the chip.

A function over a bus also has the interrupt mask and the number of polls for its waits.
While the chip is receiving, its wait ends on neither side; otherwise one poll is enough.
-/

namespace FanGateway.Enc28j60

/-- The chip answers commands. Pulling the reset line resets it. -/
def Chip.wire : Wire Chip where
  read op a _ c := c.exec op a 0
  write op a v c := (c.exec op a v).2
  reset := Chip.reset

/-- The accesses of `enc28j60.c` to the chip. -/
abbrev Chip.bus : Bus (Cached Chip) := Cached.bus Chip.wire

namespace Sys

/-- The driver of the chip, without the interrupt mask. -/
def toDriver (s : Sys (Cached Chip)) : Driver :=
  ⟨s.bus.chip, ⟨s.bus.enc28j60bank, s.nextPacketPtr, s.macaddr⟩⟩

variable {s : Sys (Cached Chip)} {addr : ℕ} {v : UInt8}

/-! ## Accesses -/

theorem toDriver_readOp (op : Op) (addr : ℕ) :
    ((readOp Chip.bus op addr s).1, (readOp Chip.bus op addr s).2.toDriver) =
      Driver.readOp op addr s.toDriver := rfl

theorem toDriver_writeOp (op : Op) (addr : ℕ) (v : UInt8) :
    (writeOp Chip.bus op addr v s).toDriver = Driver.writeOp op addr v s.toDriver := rfl

theorem toDriver_setBank (addr : ℕ) :
    toDriver { s with bus := Chip.bus.setBank addr s.bus } = Driver.setBank addr s.toDriver := by
  change toDriver { s with bus := Cached.setBank Chip.wire addr s.bus } = _
  rw [Cached.setBank, Driver.setBank]
  change _ = if addr &&& 0x60 ≠ s.bus.enc28j60bank then _ else _
  split_ifs <;> rfl

theorem toDriver_read (addr : ℕ) :
    ((read Chip.bus addr s).1, (read Chip.bus addr s).2.toDriver) =
      Driver.read addr s.toDriver := by
  rw [Driver.read, ← toDriver_setBank]
  rfl

theorem toDriver_write (addr : ℕ) (v : UInt8) :
    (write Chip.bus addr v s).toDriver = Driver.write addr v s.toDriver := by
  rw [Driver.write, ← toDriver_setBank]
  rfl

theorem fst_read (addr : ℕ) :
    (read Chip.bus addr s).1 = (Driver.read addr s.toDriver).1 :=
  congrArg Prod.fst (toDriver_read addr)

theorem snd_read (addr : ℕ) :
    (read Chip.bus addr s).2.toDriver = (Driver.read addr s.toDriver).2 :=
  congrArg Prod.snd (toDriver_read addr)

theorem toDriver_readBuf (n : ℕ) :
    ((readBuf Chip.bus n s).1, (readBuf Chip.bus n s).2.toDriver) =
      Driver.readBuf n s.toDriver := by
  induction n generalizing s with
  | zero => rfl
  | succ n ih =>
    have hrest := @ih (readOp Chip.bus .readBufMem 0 s).2
    rw [Driver.readBuf, ← toDriver_readOp]
    dsimp only
    rw [← hrest]
    rfl

theorem fst_read_estat : (read Chip.bus Reg.estat s).1 = s.bus.chip.estat :=
  (fst_read Reg.estat).trans Driver.read_estat

theorem estat_read (addr : ℕ) : (read Chip.bus addr s).2.bus.chip.estat = s.bus.chip.estat := by
  change (read Chip.bus addr s).2.toDriver.chip.estat = _
  rw [snd_read]
  change (Driver.setBank addr s.toDriver).chip.estat = _
  rw [Driver.setBank_eq]
  rfl

/-- The wait for RXBUSY ends with the first poll or never: to read ESTAT does not change it. -/
theorem waitWhile_estat (polls : ℕ) : waitWhile Chip.bus Reg.estat 0x04 (polls + 1) s =
    if s.bus.chip.estat &&& 0x04 ≠ 0 then none else some (read Chip.bus Reg.estat s).2 := by
  rw [waitWhile, fst_read_estat]
  split_ifs with hbusy
  · induction polls generalizing s with
    | zero => rfl
    | succ polls ih =>
      have hbusy' : (read Chip.bus Reg.estat s).2.bus.chip.estat &&& 0x04 ≠ 0 := by
        rw [estat_read]
        exact hbusy
      rw [waitWhile, fst_read_estat, if_pos hbusy']
      exact ih hbusy'
  · rfl

/-! ## Initialisation -/

theorem toDriver_phyWait (retry : ℕ) :
    (phyWait Chip.bus retry s).toDriver = Driver.phyWait retry s.toDriver := by
  induction retry generalizing s with
  | zero => exact snd_read Reg.mistat
  | succ retry ih =>
    rw [phyWait, Driver.phyWait, fst_read, ← snd_read]
    split_ifs
    · exact ih
    · rfl

theorem toDriver_phyWrite (a : UInt8) (data : ℕ) :
    (phyWrite Chip.bus a data s).toDriver = Driver.phyWrite a data s.toDriver := by
  rw [phyWrite, toDriver_phyWait, toDriver_write, toDriver_write, toDriver_write]
  rfl

theorem toDriver_phyRead (a : UInt8) :
    ((phyRead Chip.bus a s).1, (phyRead Chip.bus a s).2.toDriver) =
      Driver.phyRead a s.toDriver := by
  simp only [phyRead, Driver.phyRead, fst_read, snd_read, toDriver_write, toDriver_phyWait]

theorem toDriver_waitClock (retry : ℕ) :
    ((waitClock Chip.bus retry s).1, (waitClock Chip.bus retry s).2.toDriver) =
      Driver.waitClock retry s.toDriver := by
  induction retry generalizing s with
  | zero => exact Prod.ext rfl (snd_read Reg.estat)
  | succ retry ih =>
    rw [waitClock, Driver.waitClock, fst_read, ← snd_read]
    split_ifs
    · exact ih
    · rfl

theorem toDriver_setup (ws : List (ℕ × UInt8)) :
    (ws.foldl (fun s w => write Chip.bus w.1 w.2 s) s).toDriver =
      ws.foldl (fun d w => Driver.write w.1 w.2 d) s.toDriver := by
  induction ws generalizing s with
  | nil => rfl
  | cons w ws ih => rw [List.foldl_cons, List.foldl_cons, ih, toDriver_write]

theorem toDriver_configure :
    (configure Chip.bus s).toDriver = Driver.configure s.macaddr s.toDriver := by
  have hduplex (u : Sys (Cached Chip)) : (phyRead Chip.bus 0x00 u).2.toDriver =
      (Driver.getDuplex u.toDriver).2 := congrArg Prod.snd (toDriver_phyRead 0x00)
  rw [configure, hduplex, toDriver_writeOp, toDriver_writeOp, toDriver_setBank, toDriver_phyWrite,
    toDriver_phyWrite, toDriver_setup, Driver.configure, ← snd_read]
  rfl

theorem macaddr_waitClock (retry : ℕ) :
    (waitClock Chip.bus retry s).2.macaddr = s.macaddr := by
  induction retry generalizing s with
  | zero => rfl
  | succ retry ih =>
    rw [waitClock]
    split_ifs
    · exact ih
    · rfl

theorem toDriver_init (temp : ℕ) :
    ((init Chip.bus temp s).1, (init Chip.bus temp s).2.toDriver) =
      Driver.init temp s.toDriver := by
  -- the command resets a chip that has been reset once more
  let mac : Fin 6 → UInt8 :=
    ![2, 0, 0, UInt8.ofNat (temp >>> 16 &&& 0xFF), UInt8.ofNat (temp >>> 8 &&& 0xFFF),
      UInt8.ofNat (temp &&& 0xFF)]
  let u : Sys (Cached Chip) :=
    writeOp Chip.bus .softReset 0 0xFF { s with macaddr := mac, bus := Chip.bus.reset s.bus }
  let clock := waitClock Chip.bus 250 u
  have hclock : (clock.1, clock.2.toDriver) = Driver.waitClock 250 u.toDriver :=
    toDriver_waitClock 250
  have hmac : clock.2.macaddr = mac := macaddr_waitClock 250
  have hinit : init Chip.bus temp s =
      if clock.1 then (0, configure Chip.bus clock.2) else (1, clock.2) := rfl
  have hinit' : Driver.init temp s.toDriver =
      if (Driver.waitClock 250 u.toDriver).1 then
        (0, Driver.configure mac (Driver.waitClock 250 u.toDriver).2)
      else (1, (Driver.waitClock 250 u.toDriver).2) := rfl
  rw [hinit, hinit', ← hclock]
  split_ifs
  · exact Prod.ext rfl (toDriver_configure.trans (by rw [hmac]))
  · rfl

/-! ## Reception -/

theorem toDriver_writeNext (l : ℕ) :
    (writeNext Chip.bus l s).toDriver = Driver.writeNext l s.toDriver := by
  rw [writeNext, toDriver_write, toDriver_write]
  rfl

end Sys

/-- The bytes `ENC28J60_Packet_Receive` says it returns. -/
def Received.packet (r : Received) : List UInt8 := r.stored.take r.len

namespace Sys

variable {s : Sys (Cached Chip)} {maxlen : ℕ}

/-- A frame that is not valid has no bytes; the zero behind the bytes is not one of them. -/
theorem toDriver_readPacket (p : Prop) [Decidable p] (n : ℕ) :
    let r : Received × Sys (Cached Chip) :=
      if p then (⟨0, []⟩, s)
      else let data := readBuf Chip.bus n s; (⟨n, data.1 ++ [0]⟩, data.2)
    (r.1.packet, r.2.toDriver) =
      if p then ([], s.toDriver) else Driver.readBuf n s.toDriver := by
  have hlength := length_readBuf (B := Chip.bus) n s
  dsimp only
  split_ifs
  · rfl
  · rw [← toDriver_readBuf, Received.packet, List.take_append_of_le_length hlength.ge,
      List.take_of_length_le hlength.le]

/-- The header is read alike, and so are the bytes behind it. -/
theorem driverReadFrame_eq (hpos : 0 < maxlen) (hmax : maxlen < 2 ^ 32) :
    Driver.readFrame maxlen s.toDriver =
      let next := readWord Chip.bus s
      let count := readWord Chip.bus { next.2 with nextPacketPtr := next.1 }
      let rxstat := readWord Chip.bus count.2
      if rxstat.1 &&& 0x80 = 0 then ([], rxstat.2.toDriver)
      else Driver.readBuf (frameLen maxlen count.1) rxstat.2.toDriver := by
  simp only [Driver.readFrame, ite_gt_eq_min, ← frameLen_eq hpos hmax]
  rfl

theorem toDriver_readFrame (hpos : 0 < maxlen) (hmax : maxlen < 2 ^ 32) :
    ((readFrame Chip.bus maxlen s).1.packet, (readFrame Chip.bus maxlen s).2.toDriver) =
      Driver.readFrame maxlen s.toDriver := by
  rw [driverReadFrame_eq hpos hmax]
  exact toDriver_readPacket _ _

/-- What is returned without a frame has no bytes. -/
theorem toDriver_packetReceive (polls : ℕ) (hpos : 0 < maxlen) (hmax : maxlen < 2 ^ 32) :
    (packetReceive Chip.bus (polls + 1) maxlen s).map (fun r => (r.1.packet, r.2.toDriver)) =
      (Driver.packetReceive maxlen s.toDriver).map fun r => (r.1.getD [], r.2) := by
  let count := read Chip.bus Reg.epktcnt { s with masked := true }
  have hcount : (count.1, count.2.toDriver) = Driver.read Reg.epktcnt s.toDriver :=
    toDriver_read Reg.epktcnt
  have hbusy : (Driver.read Reg.estat count.2.toDriver).1 = count.2.bus.chip.estat :=
    (fst_read Reg.estat).symm.trans fst_read_estat
  rw [packetReceive, Driver.packetReceive, ← hcount]
  change Option.map _ (if count.1 = 0 then _ else _) = _
  rw [waitWhile_estat]
  dsimp only
  rw [hbusy]
  split_ifs with hzero hwait
  · rfl
  · rfl
  · have hframe := toDriver_readFrame (s := writeNext Chip.bus Reg.erdptl
      (read Chip.bus Reg.estat count.2).2) hpos hmax
    rw [toDriver_writeNext, snd_read] at hframe
    rw [← hframe]
    dsimp only [Option.map_some, Option.getD_some]
    rw [← toDriver_writeNext]
    rfl

theorem toDriver_rxError : (rxError Chip.bus s).toDriver = Driver.rxError s.toDriver := by
  simp only [rxError, Driver.rxError, toDriver_writeOp, toDriver_write, fst_read, snd_read]

theorem toDriver_otherFlags (status : UInt8) :
    (otherFlags Chip.bus status s).toDriver = Driver.otherFlags status s.toDriver := by
  have hite (p : Prop) [Decidable p] (u v : Sys (Cached Chip)) :
      (if p then u else v).toDriver = if p then u.toDriver else v.toDriver := apply_ite ..
  have htxError (u : Sys (Cached Chip)) : (txError Chip.bus u).toDriver =
      Driver.txError u.toDriver := rfl
  simp only [otherFlags, Driver.otherFlags, toDriver_writeOp, hite, htxError, toDriver_rxError]

theorem toDriver_pktHandle (mymalloc : Bool) (polls : ℕ) :
    (pktHandle Chip.bus mymalloc (polls + 1) s).map
        (fun r => ((r.1.map Received.packet).getD [], r.2.toDriver)) =
      (Driver.lowLevelInput mymalloc s.toDriver).map fun r => (r.1.getD [], r.2) := by
  rw [pktHandle, Driver.lowLevelInput]
  split_ifs
  · rw [← toDriver_packetReceive polls (by decide) (Nat.le_of_ble_eq_true rfl), Option.map_map]
    rfl
  · rfl

/-- The interrupt handler over the chip is the one over any bus. -/
theorem toDriver_isrHandler (mymalloc : Bool) (polls : ℕ) :
    (isrHandler Chip.bus (pktHandle Chip.bus mymalloc (polls + 1)) s).map
        (fun r => ((r.1.join.map Received.packet).getD [], r.2.toDriver)) =
      (Driver.isrHandler mymalloc s.toDriver).map fun r => (r.1.getD [], r.2) := by
  let status := read Chip.bus Reg.eir (writeOp Chip.bus .bitFieldClr Reg.eie 0x80 s)
  have hstatus : (status.1, status.2.toDriver) =
      Driver.read Reg.eir (Driver.writeOp .bitFieldClr Reg.eie 0x80 s.toDriver) :=
    toDriver_read Reg.eir
  rw [isrHandler, Driver.isrHandler, ← hstatus]
  dsimp only
  change Option.map _ (Option.map _ (if status.1 &&& 0x40 ≠ 0 then _ else _)) = _
  split_ifs
  · have hinput := toDriver_pktHandle (s := writeOp Chip.bus .bitFieldClr Reg.eir 0x40 status.2)
      mymalloc polls
    have hflags := congrArg (Option.map fun r : List UInt8 × Driver =>
      (r.1, Driver.otherFlags status.1 r.2)) hinput
    simp only [Option.map_map] at hflags ⊢
    refine Eq.trans ?_ hflags
    simp only [Function.comp_def, toDriver_otherFlags]
    rfl
  · simp only [Option.map_some, toDriver_otherFlags]
    rfl

end Sys

end FanGateway.Enc28j60
