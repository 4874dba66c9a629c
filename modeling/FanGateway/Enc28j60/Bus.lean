import FanGateway.Enc28j60.Driver

/-!
# The driver on any chip

The functions of `enc28j60.c` once more, over nothing but the register accesses they
are made of. What answers them may be any chip, in any state and with any behaviour of
its own, so that what holds here holds for every sequence of values read over SPI.

Two loops wait for the chip without a limit. They get a number of polls, and a function
whose loop has not ended by then has no result. A result does not depend on the number.

Critical sections save the interrupt mask on entry and restore it on exit.
-/

namespace FanGateway.Enc28j60

/-- What answers the commands: a register is addressed by its five lower bits, and of two bytes
that are clocked out the first is dropped. -/
structure Wire (τ : Type*) where
  read : Op → ℕ → Bool → τ → UInt8 × τ
  write : Op → ℕ → UInt8 → τ → τ
  /-- The reset line is pulled. -/
  reset : τ → τ

/-- The accesses the functions of the driver are made of. -/
structure Bus (σ : Type*) where
  readOp : Op → ℕ → σ → UInt8 × σ
  writeOp : Op → ℕ → UInt8 → σ → σ
  setBank : ℕ → σ → σ
  read : ℕ → σ → UInt8 × σ
  write : ℕ → UInt8 → σ → σ
  reset : σ → σ

/-- What every access keeps. -/
structure Bus.Keeps {σ : Type*} (B : Bus σ) (P : σ → Prop) : Prop where
  readOp : ∀ op addr s, P s → P (B.readOp op addr s).2
  writeOp : ∀ op addr data s, P s → P (B.writeOp op addr data s)
  read : ∀ addr s, P s → P (B.read addr s).2
  write : ∀ addr data s, P s → P (B.write addr data s)

/-! ## Accesses through the remembered bank -/

/-- A chip and the bank the driver remembers. -/
structure Cached (τ : Type*) where
  chip : τ
  enc28j60bank : ℕ

namespace Cached

variable {τ : Type*} (W : Wire τ)

/-- `ENC28J60_Read_Op`. -/
def readOp (op : Op) (addr : ℕ) (c : Cached τ) : UInt8 × Cached τ :=
  -- the registers of MAC and MII answer one byte late
  let r := W.read op (addr &&& 0x1F) (addr &&& 0x80 ≠ 0) c.chip
  (r.1, { c with chip := r.2 })

/-- `ENC28J60_Write_Op`. -/
def writeOp (op : Op) (addr : ℕ) (data : UInt8) (c : Cached τ) : Cached τ :=
  { c with chip := W.write op (addr &&& 0x1F) data c.chip }

/-- `ENC28J60_Set_Bank`. -/
def setBank (bank : ℕ) (c : Cached τ) : Cached τ :=
  if bank &&& 0x60 ≠ c.enc28j60bank then
    let c := writeOp W .bitFieldClr Reg.econ1 0x03 c
    let c := writeOp W .bitFieldSet Reg.econ1 (UInt8.ofNat ((bank &&& 0x60) >>> 5)) c
    { c with enc28j60bank := bank &&& 0x60 }
  else c

/-- The accesses of `enc28j60.c`. -/
def bus : Bus (Cached τ) where
  readOp := readOp W
  writeOp := writeOp W
  setBank := setBank W
  read addr c := readOp W .readCtrlReg addr (setBank W addr c)
  write addr data c := writeOp W .writeCtrlReg addr data (setBank W addr c)
  reset c := { c with chip := W.reset c.chip }

end Cached

/-! ## The functions of the driver -/

/-- What the accesses change, the other variables of the driver, and whether interrupts are
masked. -/
structure Sys (σ : Type*) where
  bus : σ
  nextPacketPtr : ℕ
  macaddr : Fin 6 → UInt8
  masked : Bool

/-- What `ENC28J60_Packet_Receive` returns, and the bytes it stores from `packet[0]` on. -/
structure Received where
  len : ℕ
  stored : List UInt8
  deriving DecidableEq, Repr

namespace Sys

variable {σ : Type*} (B : Bus σ)

/-! ### Accesses -/

def readOp (op : Op) (addr : ℕ) (s : Sys σ) : UInt8 × Sys σ :=
  let r := B.readOp op addr s.bus
  (r.1, { s with bus := r.2 })

def writeOp (op : Op) (addr : ℕ) (data : UInt8) (s : Sys σ) : Sys σ :=
  { s with bus := B.writeOp op addr data s.bus }

def read (addr : ℕ) (s : Sys σ) : UInt8 × Sys σ :=
  let r := B.read addr s.bus
  (r.1, { s with bus := r.2 })

def write (addr : ℕ) (data : UInt8) (s : Sys σ) : Sys σ :=
  { s with bus := B.write addr data s.bus }

/-- `ENC28J60_Read_Buf`: the bytes it reads; a zero is stored behind them. -/
def readBuf : ℕ → Sys σ → List UInt8 × Sys σ
  | 0, s => ([], s)
  | len + 1, s =>
    let b := readOp B .readBufMem 0 s
    let bs := readBuf len b.2
    (b.1 :: bs.1, bs.2)

/-- `ENC28J60_Write_Buf`. -/
def writeBuf : List UInt8 → Sys σ → Sys σ
  | [], s => s
  | x :: xs, s => writeBuf xs (writeOp B .writeBufMem 0 x s)

/-- `while(ENC28J60_Read(addr)&mask);` for a number of polls. -/
def waitWhile (addr : ℕ) (mask : UInt8) : ℕ → Sys σ → Option (Sys σ)
  | 0, _ => none
  | polls + 1, s =>
    let r := read B addr s
    if r.1 &&& mask ≠ 0 then waitWhile addr mask polls r.2 else some r.2

/-! ### The PHY -/

/-- The loop that waits while the PHY is busy. -/
def phyWait : ℕ → Sys σ → Sys σ
  | 0, s => (read B Reg.mistat s).2
  | retry + 1, s =>
    let r := read B Reg.mistat s
    if r.1 &&& 0x01 ≠ 0 then phyWait retry r.2 else r.2

/-- `ENC28J60_PHY_Write`. -/
def phyWrite (addr : UInt8) (data : ℕ) (s : Sys σ) : Sys σ :=
  let s := write B Reg.miregadr addr s
  let s := write B Reg.miwrl (UInt8.ofNat data) s
  let s := write B Reg.miwrh (UInt8.ofNat (data >>> 8)) s
  phyWait B 0xFFFF s

/-- `ENC28J60_PHY_Read`. -/
def phyRead (addr : UInt8) (s : Sys σ) : ℕ × Sys σ :=
  let temp := read B Reg.micmd s
  let s := write B Reg.miregadr addr temp.2
  let s := write B Reg.micmd (temp.1 ||| 0x01) s
  let s := phyWait B 0xFFFF s
  let s := write B Reg.micmd (temp.1 &&& ~~~0x01) s
  let low := read B Reg.mirdl s
  let high := read B Reg.mirdh low.2
  (low.1.toNat ||| high.1.toNat <<< 8, high.2)

/-! ### Initialisation -/

/-- The loop that waits for the clock, with the polls it has left. -/
def waitClock : ℕ → Sys σ → Bool × Sys σ
  | 0, s => (false, (read B Reg.estat s).2)
  | retry + 1, s =>
    let r := read B Reg.estat s
    if r.1 &&& 0x01 = 0 then waitClock retry r.2 else (true, r.2)

/-- What `ENC28J60_Init` does once the clock is stable. -/
def configure (s : Sys σ) : Sys σ :=
  let s := (read B Reg.erevid s).2
  let s := { s with nextPacketPtr := 0 }
  let s := (Driver.setup s.macaddr).foldl (fun s w => write B w.1 w.2 s) s
  -- PHCON1: full duplex; PHCON2: no loopback
  let s := phyWrite B 0x00 0x0100 s
  let s := phyWrite B 0x10 0x0100 s
  let s := { s with bus := B.setBank Reg.econ1 s.bus }
  let s := writeOp B .bitFieldSet Reg.eie (0x80 ||| 0x40 ||| 0x08 ||| 0x02 ||| 0x01) s
  let s := writeOp B .bitFieldSet Reg.econ1 0x04 s
  -- the duplex mode is read to be printed
  (phyRead B 0x00 s).2

/-- `ENC28J60_Init`: 0 for success. -/
def init (temp : ℕ) (s : Sys σ) : ℕ × Sys σ :=
  let macaddr : Fin 6 → UInt8 :=
    ![2, 0, 0, UInt8.ofNat (temp >>> 16 &&& 0xFF), UInt8.ofNat (temp >>> 8 &&& 0xFFF),
      UInt8.ofNat (temp &&& 0xFF)]
  let s := { s with macaddr, bus := B.reset s.bus }
  let clock := waitClock B 250 (writeOp B .softReset 0 0xFF s)
  if clock.1 then (0, configure B clock.2) else (1, clock.2)

/-! ### Transmission -/

/-- `TXSTART_INIT`. -/
abbrev txstartInit : ℕ := 0x1FFF - 1518

/-- The write pointer and the end of the frame are set, and the frame is written behind its
control byte. -/
def loadFrame (packet : List UInt8) (s : Sys σ) : Sys σ :=
  let len := packet.length
  let s := write B Reg.ewrptl (UInt8.ofNat txstartInit) s
  let s := write B Reg.ewrpth (UInt8.ofNat (txstartInit >>> 8)) s
  let s := write B Reg.etxndl (UInt8.ofNat (txstartInit + len)) s
  let s := write B Reg.etxndh (UInt8.ofNat ((txstartInit + len) >>> 8)) s
  writeBuf B packet (writeOp B .writeBufMem 0 0x00 s)

/-- `ENC28J60_Packet_Send`. -/
def packetSend (polls : ℕ) (packet : List UInt8) (s : Sys σ) : Option (Sys σ) :=
  let cpuSr := s.masked
  let s := { s with masked := true }
  -- TXRTS: the frame before is still being sent
  (waitWhile B Reg.econ1 0x08 polls s).map fun s =>
    let s :=
      if packet.length > maxFramelen then
        -- no bank is selected for these two
        writeOp B .bitFieldSet 0x0E (0x01 ||| 0x08) (writeOp B .bitFieldSet Reg.macon3 0x04 s)
      else s
    let s := writeOp B .bitFieldSet Reg.econ1 0x08 (loadFrame B packet s)
    -- TXERIF
    let flags := read B Reg.eir s
    let s :=
      if flags.1 &&& 0x02 ≠ 0 then writeOp B .bitFieldClr Reg.econ1 0x08 flags.2 else flags.2
    { s with masked := cpuSr }

/-! ### Reception -/

/-- Two bytes of buffer memory, low byte first. -/
def readWord (s : Sys σ) : ℕ × Sys σ :=
  let low := readOp B .readBufMem 0 s
  let high := readOp B .readBufMem 0 low.2
  (low.1.toNat ||| high.1.toNat <<< 8, high.2)

/-- `NextPacketPtr` goes to a pointer register, low byte first. -/
def writeNext (l : ℕ) (s : Sys σ) : Sys σ :=
  write B (l + 1) (UInt8.ofNat (s.nextPacketPtr >>> 8))
    (write B l (UInt8.ofNat s.nextPacketPtr) s)

/-- The length of a frame from the byte count of its header: without the checksum, and within the
limit. -/
def frameLen (maxlen count : ℕ) : ℕ :=
  -- lengths are unsigned
  let len := (count + 2 ^ 32 - 4) % 2 ^ 32
  let most := (maxlen + 2 ^ 32 - 1) % 2 ^ 32
  if len > most then most else len

/-- The frame at the read pointer: its header and as much of it as is wanted. -/
def readFrame (maxlen : ℕ) (s : Sys σ) : Received × Sys σ :=
  let next := readWord B s
  let count := readWord B { next.2 with nextPacketPtr := next.1 }
  let rxstat := readWord B count.2
  let len := frameLen maxlen count.1
  if rxstat.1 &&& 0x80 = 0 then (⟨0, []⟩, rxstat.2)
  else
    let data := readBuf B len rxstat.2
    (⟨len, data.1 ++ [0]⟩, data.2)

/-- `ENC28J60_Packet_Receive`. -/
def packetReceive (polls maxlen : ℕ) (s : Sys σ) : Option (Received × Sys σ) :=
  let cpuSr := s.masked
  let s := { s with masked := true }
  let count := read B Reg.epktcnt s
  -- this return does not leave the critical section
  if count.1 = 0 then some (⟨0, []⟩, count.2)
  else
    -- RXBUSY
    (waitWhile B Reg.estat 0x04 polls count.2).map fun s =>
      let packet := readFrame B maxlen (writeNext B Reg.erdptl s)
      let s := writeNext B Reg.erxrdptl packet.2
      let s := writeOp B .bitFieldSet Reg.econ2 0x40 s
      (packet.1, { s with masked := cpuSr })

/-! ### The interrupt handler -/

/-- The receive error branch of the interrupt handler. -/
def rxError (s : Sys σ) : Sys σ :=
  let s := writeOp B .bitFieldClr Reg.eir 0x01 s
  let packetnum := read B Reg.epktcnt s
  let high := read B Reg.erxrdpth packetnum.2
  let low := read B Reg.erxrdptl high.2
  let temp := (high.1.toNat <<< 8 ||| low.1.toNat) + 1
  let s := write B Reg.erxrdptl (UInt8.ofNat (temp &&& 0xFF)) low.2
  let s := write B Reg.erxrdpth (UInt8.ofNat ((temp % 2 ^ 16) >>> 8)) s
  writeOp B .bitFieldSet Reg.econ2 0x40 s

/-- The transmit error branch. -/
def txError (s : Sys σ) : Sys σ :=
  writeOp B .bitFieldClr Reg.estat (0x10 ||| 0x02) (writeOp B .bitFieldClr Reg.eir 0x02 s)

/-- The branches behind the one for received packets; then interrupts are enabled again. -/
def otherFlags (status : UInt8) (s : Sys σ) : Sys σ :=
  let s := if status &&& 0x08 ≠ 0 then writeOp B .bitFieldClr Reg.eir 0x08 s else s
  let s := if status &&& 0x01 ≠ 0 then rxError B s else s
  let s := if status &&& 0x02 ≠ 0 then txError B s else s
  writeOp B .bitFieldSet Reg.eie 0x80 s

/-- `ENC28J60_ISRHandler`, with what it passed on to the stack. -/
def isrHandler {α : Type*} (lwipPktHandle : Sys σ → Option (α × Sys σ)) (s : Sys σ) :
    Option (Option α × Sys σ) :=
  let status := read B Reg.eir (writeOp B .bitFieldClr Reg.eie 0x80 s)
  let input :=
    if status.1 &&& 0x40 ≠ 0 then
      (lwipPktHandle (writeOp B .bitFieldClr Reg.eir 0x40 status.2)).map fun r => (some r.1, r.2)
    else some (none, status.2)
  input.map fun r => (r.1, otherFlags B status.1 r.2)

/-- The part of `lwip_pkt_handle` that concerns the chip: a packet is read if there is memory
for it. -/
def pktHandle (mymalloc : Bool) (polls : ℕ) (s : Sys σ) : Option (Option Received × Sys σ) :=
  if mymalloc then (packetReceive B polls maxFramelen s).map fun r => (some r.1, r.2)
  else some (none, s)

end Sys

/-! ## What the functions keep -/

namespace Bus.Keeps

open Sys

variable {σ : Type*} {B : Bus σ} {P : σ → Prop} {s t : Sys σ} {polls : ℕ}
  (h : B.Keeps P) (hs : P s.bus)
include h hs

theorem sysWriteBuf (xs : List UInt8) : P (Sys.writeBuf B xs s).bus := by
  induction xs generalizing s with
  | nil => exact hs
  | cons x xs ih => exact ih (h.writeOp _ _ _ _ hs)

theorem sysReadBuf (len : ℕ) : P (Sys.readBuf B len s).2.bus := by
  induction len generalizing s with
  | zero => exact hs
  | succ len ih => exact ih (h.readOp _ _ _ hs)

theorem sysWaitWhile {addr : ℕ} {mask : UInt8} (hwait : Sys.waitWhile B addr mask polls s = some t) :
    P t.bus := by
  induction polls generalizing s with
  | zero => exact absurd hwait (by simp [Sys.waitWhile])
  | succ polls ih =>
    rw [Sys.waitWhile] at hwait
    split_ifs at hwait
    · exact ih (h.read _ _ hs) hwait
    · obtain rfl := Option.some.inj hwait
      exact h.read _ _ hs

theorem sysLoadFrame (packet : List UInt8) : P (Sys.loadFrame B packet s).bus := by
  have hewrpt := h.write Reg.ewrpth (UInt8.ofNat (txstartInit >>> 8)) _
    (h.write Reg.ewrptl (UInt8.ofNat txstartInit) _ hs)
  have hetxnd := h.write Reg.etxndh (UInt8.ofNat ((txstartInit + packet.length) >>> 8)) _
    (h.write Reg.etxndl (UInt8.ofNat (txstartInit + packet.length)) _ hewrpt)
  exact h.sysWriteBuf (h.writeOp _ _ _ _ hetxnd) packet

theorem sysPacketSend {packet : List UInt8} (hsend : Sys.packetSend B polls packet s = some t) :
    P t.bus := by
  obtain ⟨u, hu, rfl⟩ := Option.map_eq_some_iff.mp hsend
  have hwait : P u.bus := h.sysWaitWhile (s := { s with masked := true }) hs hu
  have hlong : P (if packet.length > maxFramelen then
      Sys.writeOp B .bitFieldSet 0x0E (0x01 ||| 0x08) (Sys.writeOp B .bitFieldSet Reg.macon3 0x04 u)
      else u).bus := by
    split_ifs
    · exact h.writeOp _ _ _ _ (h.writeOp _ _ _ _ hwait)
    · exact hwait
  have hflags (r : UInt8 × Sys σ) (hr : P r.2.bus) : P (if r.1 &&& 0x02 ≠ 0 then
      Sys.writeOp B .bitFieldClr Reg.econ1 0x08 r.2 else r.2).bus := by
    split_ifs
    · exact h.writeOp _ _ _ _ hr
    · exact hr
  exact hflags _ (h.read _ _ (h.writeOp _ _ _ _ (h.sysLoadFrame hlong packet)))

theorem sysReadWord : P (Sys.readWord B s).2.bus := h.readOp _ _ _ (h.readOp _ _ _ hs)

theorem sysWriteNext (l : ℕ) : P (Sys.writeNext B l s).bus := h.write _ _ _ (h.write _ _ _ hs)

theorem sysReadPacket (len : ℕ) : P (Received.mk len ((Sys.readBuf B len s).1 ++ [0]),
    (Sys.readBuf B len s).2).2.bus := h.sysReadBuf hs len

theorem sysReadFrame (maxlen : ℕ) : P (Sys.readFrame B maxlen s).2.bus := by
  have hnext := h.sysReadWord hs
  simp only [Sys.readFrame]
  generalize Sys.readWord B s = next at *
  have hcount := h.sysReadWord (s := { next.2 with nextPacketPtr := next.1 }) hnext
  generalize Sys.readWord B { next.2 with nextPacketPtr := next.1 } = count at *
  have hrxstat := h.sysReadWord hcount
  generalize Sys.readWord B count.2 = rxstat at *
  split_ifs
  · exact hrxstat
  · exact h.sysReadPacket hrxstat _

theorem sysPacketReceive {maxlen : ℕ} {r : Received × Sys σ}
    (hreceive : Sys.packetReceive B polls maxlen s = some r) : P r.2.bus := by
  have hcount : P (Sys.read B Reg.epktcnt { s with masked := true }).2.bus := h.read _ _ hs
  rw [Sys.packetReceive] at hreceive
  dsimp only at hreceive
  split_ifs at hreceive
  · obtain rfl := Option.some.inj hreceive
    exact hcount
  · obtain ⟨u, hu, rfl⟩ := Option.map_eq_some_iff.mp hreceive
    have hframe := h.sysReadFrame (h.sysWriteNext (h.sysWaitWhile hcount hu) Reg.erdptl) maxlen
    exact h.writeOp _ _ _ _ (h.sysWriteNext hframe Reg.erxrdptl)

end Bus.Keeps

end FanGateway.Enc28j60
