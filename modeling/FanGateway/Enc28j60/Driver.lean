import FanGateway.Enc28j60.Chip
import Mathlib.Data.Fin.VecNotation

/-!
# The driver of the ENC28J60

The functions of `enc28j60.c` as transformations of the chip and of the driver's own
variables. The driver remembers the bank it selected last; as long as what it
remembers is right, a register is read and written where its address says.
-/

namespace FanGateway.Enc28j60

open Lib

/-- The variables of the driver. -/
structure DevStruct where
  enc28j60bank : ℕ
  nextPacketPtr : ℕ
  macaddr : Fin 6 → UInt8

/-- The chip and the driver. -/
structure Driver where
  chip : Chip
  dev : DevStruct

namespace Driver

/-! ## Registers -/

/-- `ENC28J60_Read_Op`. -/
def readOp (op : Op) (addr : ℕ) (d : Driver) : UInt8 × Driver :=
  -- a register of MAC or MII answers with one more byte first, which is not used
  let r := d.chip.exec op (addr &&& 0x1F) 0
  (r.1, { d with chip := r.2 })

/-- `ENC28J60_Write_Op`. -/
def writeOp (op : Op) (addr : ℕ) (data : UInt8) (d : Driver) : Driver :=
  { d with chip := (d.chip.exec op (addr &&& 0x1F) data).2 }

/-- `ENC28J60_Set_Bank`. -/
def setBank (bank : ℕ) (d : Driver) : Driver :=
  if bank &&& 0x60 ≠ d.dev.enc28j60bank then
    -- BSEL1 and BSEL0
    let d := writeOp .bitFieldClr Reg.econ1 0x03 d
    let d := writeOp .bitFieldSet Reg.econ1 (UInt8.ofNat ((bank &&& 0x60) >>> 5)) d
    { d with dev := { d.dev with enc28j60bank := bank &&& 0x60 } }
  else d

/-- `ENC28J60_Read`. -/
def read (addr : ℕ) (d : Driver) : UInt8 × Driver :=
  readOp .readCtrlReg addr (setBank addr d)

/-- `ENC28J60_Write`. -/
def write (addr : ℕ) (data : UInt8) (d : Driver) : Driver :=
  writeOp .writeCtrlReg addr data (setBank addr d)

/-- `ENC28J60_Read_Buf`: the bytes it stores. -/
def readBuf : ℕ → Driver → List UInt8 × Driver
  | 0, d => ([], d)
  | len + 1, d =>
    let b := readOp .readBufMem 0 d
    let bs := readBuf len b.2
    (b.1 :: bs.1, bs.2)

/-! ## The PHY -/

/-- The loop that waits while the PHY is busy. -/
def phyWait : ℕ → Driver → Driver
  | 0, d => (read Reg.mistat d).2
  | retry + 1, d =>
    let r := read Reg.mistat d
    if r.1 &&& 0x01 ≠ 0 then phyWait retry r.2 else r.2

/-- `ENC28J60_PHY_Write`. -/
def phyWrite (addr : UInt8) (data : ℕ) (d : Driver) : Driver :=
  let d := write Reg.miregadr addr d
  let d := write Reg.miwrl (UInt8.ofNat data) d
  let d := write Reg.miwrh (UInt8.ofNat (data >>> 8)) d
  phyWait 0xFFFF d

/-- `ENC28J60_PHY_Read`. -/
def phyRead (addr : UInt8) (d : Driver) : ℕ × Driver :=
  let temp := read Reg.micmd d
  let d := write Reg.miregadr addr temp.2
  let d := write Reg.micmd (temp.1 ||| 0x01) d
  let d := phyWait 0xFFFF d
  let d := write Reg.micmd (temp.1 &&& ~~~0x01) d
  let low := read Reg.mirdl d
  let high := read Reg.mirdh low.2
  (low.1.toNat ||| high.1.toNat <<< 8, high.2)

/-- `ENC28J60_Get_Duplex`. -/
def getDuplex (d : Driver) : ℕ × Driver :=
  let r := phyRead 0x00 d
  ((r.1 &&& 0x0100) >>> 8, r.2)

/-! ## Initialisation -/

/-- The loop that waits for the clock, with the polls it has left. -/
def waitClock : ℕ → Driver → Bool × Driver
  | 0, d => (false, (read Reg.estat d).2)
  | retry + 1, d =>
    let r := read Reg.estat d
    if r.1 &&& 0x01 = 0 then waitClock retry r.2 else (true, r.2)

/-- The registers `ENC28J60_Init` writes before it sets up the PHY, in its order. -/
def setup (macaddr : Fin 6 → UInt8) : List (ℕ × UInt8) :=
  [(Reg.erxstl, 0), (Reg.erxsth, 0),
    (Reg.erxndl, UInt8.ofNat rxstopInit), (Reg.erxndh, UInt8.ofNat (rxstopInit >>> 8)),
    (Reg.etxstl, UInt8.ofNat (0x1FFF - 1518)), (Reg.etxsth, UInt8.ofNat ((0x1FFF - 1518) >>> 8)),
    (Reg.etxndl, 0xFF), (Reg.etxndh, 0x1F),
    (Reg.erxrdptl, 0), (Reg.erxrdpth, 0),
    (Reg.erxfcon, 0x80 ||| 0x20 ||| 0x10),
    (Reg.epmm0, 0x3F), (Reg.epmm1, 0x30), (Reg.epmcsl, 0xF9), (Reg.epmcsh, 0xF7),
    (Reg.macon1, 0x01 ||| 0x08 ||| 0x04), (Reg.macon2, 0x00),
    (Reg.macon3, 0x20 ||| 0x10 ||| 0x02 ||| 0x01),
    (Reg.mamxfll, UInt8.ofNat maxFramelen), (Reg.mamxflh, UInt8.ofNat (maxFramelen >>> 8)),
    (Reg.mabbipg, 0x15), (Reg.maipgl, 0x12), (Reg.maipgh, 0x0C),
    (Reg.maadr5, macaddr 0), (Reg.maadr4, macaddr 1), (Reg.maadr3, macaddr 2),
    (Reg.maadr2, macaddr 3), (Reg.maadr1, macaddr 4), (Reg.maadr0, macaddr 5)]

/-- What `ENC28J60_Init` does once the clock is stable. The version and the duplex mode are
read to be printed. -/
def configure (macaddr : Fin 6 → UInt8) (d : Driver) : Driver :=
  let d := (read Reg.erevid d).2
  let d := { d with dev := { d.dev with nextPacketPtr := 0 } }
  let d := (setup macaddr).foldl (fun d w => write w.1 w.2 d) d
  -- PHCON1: full duplex; PHCON2: no loopback
  let d := phyWrite 0x00 0x0100 d
  let d := phyWrite 0x10 0x0100 d
  let d := setBank Reg.econ1 d
  -- INTIE, PKTIE, TXIE, TXERIE and RXERIE, then RXEN
  let d := writeOp .bitFieldSet Reg.eie (0x80 ||| 0x40 ||| 0x08 ||| 0x02 ||| 0x01) d
  let d := writeOp .bitFieldSet Reg.econ1 0x04 d
  (getDuplex d).2

/-- `ENC28J60_Init`: 0 for success. The address of the interface ends in three bytes of the
unique number of the microcontroller. -/
def init (temp : ℕ) (d : Driver) : ℕ × Driver :=
  let macaddr : Fin 6 → UInt8 :=
    -- the fifth byte is masked with twelve bits and keeps the lower eight
    ![2, 0, 0, UInt8.ofNat (temp >>> 16 &&& 0xFF), UInt8.ofNat (temp >>> 8 &&& 0xFFF),
      UInt8.ofNat (temp &&& 0xFF)]
  let d := { d with dev := { d.dev with macaddr } }
  let clock := waitClock 250 (writeOp .softReset 0 0xFF d)
  if clock.1 then (0, configure macaddr clock.2) else (1, clock.2)

/-! ## Reception -/

/-- Two bytes of buffer memory, low byte first. -/
def readWord (d : Driver) : ℕ × Driver :=
  let low := readOp .readBufMem 0 d
  let high := readOp .readBufMem 0 low.2
  (low.1.toNat ||| high.1.toNat <<< 8, high.2)

/-- The frame at the read pointer: its header and as much of it as is wanted. The position
of the next frame goes to `NextPacketPtr`. -/
def readFrame (maxlen : ℕ) (d : Driver) : List UInt8 × Driver :=
  let next := readWord d
  let count := readWord { next.2 with dev := { next.2.dev with nextPacketPtr := next.1 } }
  let rxstat := readWord count.2
  -- without the checksum; the length is unsigned
  let len := (count.1 + 2 ^ 32 - 4) % 2 ^ 32
  let len := if len > maxlen - 1 then maxlen - 1 else len
  if rxstat.1 &&& 0x80 = 0 then ([], rxstat.2) else readBuf len rxstat.2

/-- `NextPacketPtr` goes to a pointer register, low byte first. -/
def writeNext (l : ℕ) (d : Driver) : Driver :=
  write (l + 1) (UInt8.ofNat (d.dev.nextPacketPtr >>> 8))
    (write l (UInt8.ofNat d.dev.nextPacketPtr) d)

/-- `ENC28J60_Packet_Receive`: the packet it returns, if EPKTCNT counts one. While the chip
is receiving it waits, without end if nothing else happens. -/
def packetReceive (maxlen : ℕ) (d : Driver) : Option (Option (List UInt8) × Driver) :=
  let count := read Reg.epktcnt d
  if count.1 = 0 then some (none, count.2)
  else
    let busy := read Reg.estat count.2
    -- RXBUSY: the loop only reads ESTAT again
    if busy.1 &&& 0x04 ≠ 0 then none
    else
      let packet := readFrame maxlen (writeNext Reg.erdptl busy.2)
      let d := writeNext Reg.erxrdptl packet.2
      some (some packet.1, writeOp .bitFieldSet Reg.econ2 0x40 d)

/-- `low_level_input`, called through `lwip_pkt_handle` and `ethernetif_input`: nothing is read
when there is no memory for a packet. -/
def lowLevelInput (mymalloc : Bool) (d : Driver) : Option (Option (List UInt8) × Driver) :=
  if mymalloc then packetReceive maxFramelen d else some (none, d)

/-- The receive error branch of the interrupt handler. -/
def rxError (d : Driver) : Driver :=
  let d := writeOp .bitFieldClr Reg.eir 0x01 d
  let packetnum := read Reg.epktcnt d
  let high := read Reg.erxrdpth packetnum.2
  let low := read Reg.erxrdptl high.2
  -- ERXRDPT goes on by one byte and PKTDEC counts a packet, though none has been read;
  -- `temp` has 16 bits
  let temp := (high.1.toNat <<< 8 ||| low.1.toNat) + 1
  let d := write Reg.erxrdptl (UInt8.ofNat (temp &&& 0xFF)) low.2
  let d := write Reg.erxrdpth (UInt8.ofNat ((temp % 2 ^ 16) >>> 8)) d
  writeOp .bitFieldSet Reg.econ2 0x40 d

/-- The transmit error branch. -/
def txError (d : Driver) : Driver :=
  writeOp .bitFieldClr Reg.estat (0x10 ||| 0x02) (writeOp .bitFieldClr Reg.eir 0x02 d)

/-- The branches of the interrupt handler behind the one for received packets; then the
interrupts are enabled again. -/
def otherFlags (status : UInt8) (d : Driver) : Driver :=
  -- the flags as they were read when the handler started
  let d := if status &&& 0x08 ≠ 0 then writeOp .bitFieldClr Reg.eir 0x08 d else d
  let d := if status &&& 0x01 ≠ 0 then rxError d else d
  let d := if status &&& 0x02 ≠ 0 then txError d else d
  writeOp .bitFieldSet Reg.eie 0x80 d

/-- `ENC28J60_ISRHandler`, with the packet it passed on. -/
def isrHandler (mymalloc : Bool) (d : Driver) : Option (Option (List UInt8) × Driver) :=
  let status := read Reg.eir (writeOp .bitFieldClr Reg.eie 0x80 d)
  let input :=
    if status.1 &&& 0x40 ≠ 0 then
      lowLevelInput mymalloc (writeOp .bitFieldClr Reg.eir 0x40 status.2)
    else some (none, status.2)
  input.map fun r => (r.1, otherFlags status.1 r.2)

end Driver

end FanGateway.Enc28j60
