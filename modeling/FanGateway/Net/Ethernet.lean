import FanGateway.Enc28j60.Bus
import FanGateway.Malloc.Memory

/-!
# Between the chip and the stack

`ethernetif.c` copies frames between the chip's buffer and packet buffers of the
stack, through a block it takes from the internal memory area for each frame. A
packet buffer is a chain of pieces; those for received frames come from a pool.

The functions run on the driver's bus with the memory of the controller beside it.
What was handed to `ENC28J60_Packet_Send` and what `ENC28J60_Packet_Receive` returned
is remembered.
-/

namespace FanGateway.Enc28j60

/-- The accesses with something beside the chip that they leave alone. -/
def Bus.beside {σ : Type*} (κ : Type*) (B : Bus σ) : Bus (σ × κ) where
  readOp op addr s := let r := B.readOp op addr s.1; (r.1, r.2, s.2)
  writeOp op addr data s := (B.writeOp op addr data s.1, s.2)
  setBank bank s := (B.setBank bank s.1, s.2)
  read addr s := let r := B.read addr s.1; (r.1, r.2, s.2)
  write addr data s := (B.write addr data s.1, s.2)
  reset s := (B.reset s.1, s.2)

end FanGateway.Enc28j60

namespace FanGateway.Net

open Enc28j60 Malloc

/-! ## Packet buffers -/

/-- A chain of packet buffers: the payloads, and the length the first one gives. -/
structure Pbuf where
  totLen : ℕ
  payloads : List (List UInt8)
  totLen_lt : totLen < 65536

/-- `PBUF_POOL_BUFSIZE`. -/
abbrev pbufPoolBufsize : ℕ := 512

/-- The pieces behind the first one, while the pool has any. -/
def pbufTail : ℕ → ℕ → Option (List ℕ)
  | _, 0 => some []
  | 0, _ + 1 => none
  | free + 1, remLen + 1 =>
    let len := min (remLen + 1) pbufPoolBufsize
    (pbufTail free (remLen + 1 - len)).map (len :: ·)

/-- `pbuf_alloc(PBUF_RAW, length, PBUF_POOL)`: the lengths of the pieces. -/
def pbufAlloc (free length : ℕ) : Option (List ℕ) :=
  let length := length % 65536
  if free = 0 then none
  else
    let len := min length pbufPoolBufsize
    (pbufTail (free - 1) (length - len)).map (len :: ·)

/-! ## The controller -/

/-- The memory of the controller, the packet buffers left in the pool, and what went through
the driver. -/
structure Host (b : Bank) where
  mem : Memory b
  pbufs : ℕ
  sent : List (List UInt8)
  received : List Received

variable {σ : Type*} {b : Bank}

/-- The driver, its bus and the controller. -/
abbrev Board (σ : Type*) (b : Bank) := Sys (σ × Host b)

namespace Board

def host (s : Board σ b) : Host b := s.bus.2

def withHost (s : Board σ b) (h : Host b) : Board σ b := { s with bus := (s.bus.1, h) }

def mem (s : Board σ b) : Memory b := s.host.mem

def withMem (s : Board σ b) (m : Memory b) : Board σ b := s.withHost { s.host with mem := m }

/-- A block for a frame. -/
def malloc (size : ℕ) (s : Board σ b) : ℕ × Board σ b :=
  let r := mymalloc size s.mem.dev
  (r.1, s.withMem { s.mem with dev := r.2 })

def free (ptr : ℕ) (s : Board σ b) : Board σ b :=
  s.withMem { s.mem with dev := myfree ptr s.mem.dev }

end Board

/-! ## The functions of `ethernetif.c` -/

abbrev errOk : ℤ := 0
abbrev errMem : ℤ := -1

/-- The loop that copies a chain into the buffer. -/
def copyChain (buffer : ℕ) : ℕ → List (List UInt8) → Memory b → Memory b
  | _, [], m => m
  | l, payload :: q, m => copyChain buffer (l + payload.length) q (m.writeBytes (buffer + l) payload)

/-- The loop that copies the buffer into a chain. -/
def fillChain (buffer : ℕ) : ℕ → List ℕ → Memory b → List (List UInt8) × Memory b
  | _, [], m => ([], m)
  | l, len :: q, m =>
    let r := m.readBytes (buffer + l) len
    let rest := fillChain buffer (l + len) q r.2
    (r.1 :: rest.1, rest.2)

/-- The packet that is sent, its buffer, and the memory with both. -/
def copyPacket (p : Pbuf) (m : Memory b) : List UInt8 × ℕ × Memory b :=
  -- a null pointer is reported, and the loop copies all the same
  let buffer := mymalloc p.totLen m.dev
  let m := copyChain buffer.1 0 p.payloads { m with dev := buffer.2 }
  let packet := m.readBytes buffer.1 p.totLen
  (packet.1, buffer.1, packet.2)

section Functions

variable (B : Bus σ) (polls : ℕ)

/-- `low_level_output`. -/
def lowLevelOutput (p : Pbuf) (s : Board σ b) : Option (ℤ × Board σ b) :=
  let packet := copyPacket p s.mem
  let s := s.withHost
    { s.host with
      mem := packet.2.2
      sent := s.host.sent ++ [packet.1] }
  (Sys.packetSend (B.beside (Host b)) polls packet.1 s).map fun s : Board σ b =>
    (errOk, s.free packet.2.1)

/-- The frame goes from the buffer to a chain, if the pool has one, and the buffer is freed. -/
def takeFrame (buffer : ℕ) (r : Received) (s : Board σ b) :
    Option (List (List UInt8)) × Board σ b :=
  let s := s.withHost
    { s.host with
      mem := s.mem.writeBytes buffer r.stored
      received := s.host.received ++ [r] }
  match pbufAlloc s.host.pbufs r.len with
  | none => (none, s.free buffer)
  | some lens =>
    let chain := fillChain buffer 0 lens s.mem
    let s := s.withHost { s.host with mem := chain.2, pbufs := s.host.pbufs - lens.length }
    (some chain.1, s.free buffer)

/-- `low_level_input`: the payloads of the chain, if there is one. -/
def lowLevelInput (s : Board σ b) : Option (Option (List (List UInt8)) × Board σ b) :=
  let buffer := s.malloc 1600
  if buffer.1 = 0 then some (none, buffer.2)
  else
    (Sys.packetReceive (B.beside (Host b)) polls maxFramelen buffer.2).map fun r =>
      takeFrame buffer.1 r.1 r.2

variable (input : List (List UInt8) → Board σ b → ℤ × Board σ b)

/-- The chain goes to the stack, which leaves it to the caller if it does not take it. -/
def passOn (p : Option (List (List UInt8)) × Board σ b) : ℤ × Board σ b :=
  match p.1 with
  | none => (errMem, p.2)
  | some chain =>
    let err := input chain p.2
    if err.1 ≠ errOk then
      let host := err.2.host
      (err.1, err.2.withHost { host with pbufs := host.pbufs + chain.length })
    else err

/-- `ethernetif_input`; `input` is the function of the stack that `netif->input` points to. -/
def ethernetifInput (s : Board σ b) : Option (ℤ × Board σ b) :=
  (lowLevelInput B polls s).map (passOn input)

/-- `ENC28J60_ISRHandler`, which calls `ethernetif_input` through `lwip_pkt_handle`. -/
def isrHandler (s : Board σ b) : Option (Option ℤ × Board σ b) :=
  Sys.isrHandler (B.beside (Host b)) (ethernetifInput B polls input) s

end Functions

/-! ## A chip at rest -/

/-- Registers that always read the same. -/
def still (reg : ℕ → UInt8) : Bus Unit where
  readOp _ _ s := (0, s)
  writeOp _ _ _ s := s
  setBank _ s := s
  read addr s := (reg addr, s)
  write _ _ s := s
  reset s := s

/-- A controller that has just started. -/
def started (b : Bank) : Board Unit b :=
  ⟨((), ⟨⟨boot b, fun _ => 0, [], []⟩, 20, [], []⟩), 0, fun _ => 0, false⟩

end FanGateway.Net
