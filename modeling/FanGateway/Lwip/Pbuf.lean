import FanGateway.Lib.Machine
import FanGateway.Lib.RefCount
import Mathlib.Data.UInt

/-!
# Packet buffers

A packet is a chain of buffers. Each buffer holds its own length, the length of the chain from it
on, and a count of the pointers to it, those from other buffers among them. Memory is a map from
the addresses to the buffers that are there; to read or write at an address where there is none,
or through the null pointer, is a fault.

Which addresses the allocators give out is an argument of `pbuf_alloc`. The program that calls the
functions is known by the references it owns.
-/

namespace FanGateway.Lwip

open Function (update)

/-- `pbuf_type`. -/
inductive PbufType
  | ram
  | rom
  | ref
  | pool
  deriving DecidableEq, Repr

/-- `pbuf_layer`. -/
inductive PbufLayer
  | transport
  | ip
  | link
  | raw
  deriving DecidableEq, Repr

/-- `LWIP_MEM_ALIGN_SIZE`, with `MEM_ALIGNMENT` 4. -/
def lwipMemAlignSize (size : ℕ) : ℕ := (size + 4 - 1) / 4 * 4

def pbufLinkHlen : ℕ := 14
def pbufIpHlen : ℕ := 20
def pbufTransportHlen : ℕ := 20
def sizeofStructPbuf : ℕ := lwipMemAlignSize 16
def pbufPoolBufsizeAligned : ℕ := lwipMemAlignSize 512

/-- `MIN_SIZE_ALIGNED`. -/
def minSizeAligned : ℕ := 12

/-- The room for headers in front of a payload. -/
def PbufLayer.offset : PbufLayer → ℕ
  | transport => pbufLinkHlen + pbufIpHlen + pbufTransportHlen
  | ip => pbufLinkHlen + pbufIpHlen
  | link => pbufLinkHlen
  | raw => 0

/-- `struct pbuf`, with the size of the block of memory it lies in. The payload is counted from
the start of the block if it lies in the block, and else from where it began. -/
structure StructPbuf (ι : Type*) where
  next : Option ι
  payload : ℕ
  totLen : UInt16
  len : UInt16
  type : PbufType
  ref : ℕ
  size : ℕ
  deriving DecidableEq, Repr

/-- The buffers in memory. -/
abbrev PbufHeap (ι : Type*) := ι → Option (StructPbuf ι)

namespace PbufHeap

variable {ι : Type*} [DecidableEq ι]

/-- Write a buffer. -/
def store (p : ι) (b : StructPbuf ι) (h : PbufHeap ι) : PbufHeap ι := update h p (some b)

/-! ## References -/

/-- The loop of `pbuf_free`, with the number of buffers freed so far. The loop runs once for each
buffer at most. -/
def pbufFreeLoop : ℕ → Option ι → ℕ → PbufHeap ι → Option (PbufHeap ι × ℕ)
  | _, none, count, h => some (h, count)
  | 0, some _, _, _ => none
  | fuel + 1, some p, count, h => do
    let b ← h p
    let ref := (b.ref + 2 ^ 16 - 1) % 2 ^ 16
    if ref = 0 then pbufFreeLoop fuel b.next ((count + 1) % 2 ^ 8) (update h p none)
    else some (h.store p { b with ref := ref }, count)

/-- `pbuf_ref`. -/
def pbufRef (p : Option ι) (h : PbufHeap ι) : Option (PbufHeap ι) :=
  match p with
  | none => some h
  | some p => do
    let b ← h p
    some (h.store p { b with ref := (b.ref + 1) % 2 ^ 16 })

/-- The loop of `pbuf_cat`. -/
def pbufCatLoop : ℕ → ι → ι → PbufHeap ι → Option (PbufHeap ι)
  | 0, _, _, _ => none
  | fuel + 1, p, t, h => do
    let b ← h p
    let bt ← h t
    match b.next with
    | some q => pbufCatLoop fuel q t (h.store p { b with totLen := b.totLen + bt.totLen })
    | none => some (h.store p { b with totLen := b.totLen + bt.totLen, next := some t })

/-- The loop of `pbuf_realloc`: the buffer that becomes the last, and its length. -/
def pbufReallocLoop : ℕ → UInt16 → UInt16 → ι → PbufHeap ι → Option (PbufHeap ι × ι × UInt16)
  | 0, _, _, _, _ => none
  | fuel + 1, remLen, grow, q, h => do
    let b ← h q
    if remLen > b.len then
      let next ← b.next
      pbufReallocLoop fuel (remLen - b.len) grow next
        (h.store q { b with totLen := b.totLen + grow })
    else some (h, q, remLen)

/-- `mem_trim` on the block of a buffer. It answers with the null pointer if the block is to
grow. -/
def memTrim (newsize : ℕ) (b : StructPbuf ι) : Option (StructPbuf ι) :=
  let newsize := max (lwipMemAlignSize newsize) minSizeAligned
  if newsize > b.size then none else some { b with size := newsize }

/-- `pbuf_realloc` shrinks the memory of a buffer in the heap whose length changes. -/
def shrink (remLen : UInt16) (b : StructPbuf ι) : Option (StructPbuf ι) :=
  if b.type = .ram ∧ remLen ≠ b.len then memTrim (b.payload + remLen.toNat) b else some b

section

variable [Fintype ι]

/-- `pbuf_free`. -/
def pbufFree (p : Option ι) (h : PbufHeap ι) : Option (PbufHeap ι × ℕ) :=
  pbufFreeLoop (Fintype.card ι + 1) p 0 h

/-- `pbuf_cat`. -/
def pbufCat (h t : Option ι) (heap : PbufHeap ι) : Option (PbufHeap ι) :=
  match h, t with
  | some h, some t => pbufCatLoop (Fintype.card ι + 1) h t heap
  | _, _ => some heap

/-- `pbuf_chain`. -/
def pbufChain (h t : Option ι) (heap : PbufHeap ι) : Option (PbufHeap ι) :=
  (pbufCat h t heap).bind (pbufRef t)

/-- `pbuf_dechain`. -/
def pbufDechain (p : ι) (h : PbufHeap ι) : Option (PbufHeap ι × Option ι) := do
  let b ← h p
  match b.next with
  | none => some (h, none)
  | some q =>
    let bq ← h q
    let h := h.store q { bq with totLen := b.totLen - b.len }
    let h := h.store p { b with next := none, totLen := b.len }
    let (h, tailGone) ← pbufFree (some q) h
    some (h, if tailGone > 0 then none else some q)

/-- `pbuf_realloc`. -/
def pbufRealloc (p : ι) (newLen : UInt16) (h : PbufHeap ι) : Option (PbufHeap ι) := do
  let b ← h p
  if newLen ≥ b.totLen then some h
  else
    let grow := newLen - b.totLen
    let (h, q, remLen) ← pbufReallocLoop (Fintype.card ι + 1) newLen grow p h
    let b ← (h q).bind (shrink remLen)
    let (h, _) ← pbufFree b.next (h.store q { b with len := remLen, totLen := remLen })
    let b ← h q
    some (h.store q { b with next := none })

/-- `pbuf_header`, with the error it answers. -/
def pbufHeader (p : Option ι) (headerSizeIncrement : ℤ) (h : PbufHeap ι) :
    Option (PbufHeap ι × ℕ) :=
  match p with
  | none => some (h, 0)
  | some p =>
    if headerSizeIncrement = 0 then some (h, 0)
    else do
      let b ← h p
      let incrementMagnitude := headerSizeIncrement.natAbs
      if headerSizeIncrement < 0 ∧ incrementMagnitude > b.len.toNat then some (h, 1)
      else
        let moved := { b with
          payload := (b.payload - headerSizeIncrement).toNat
          len := b.len + UInt16.ofInt headerSizeIncrement
          totLen := b.totLen + UInt16.ofInt headerSizeIncrement }
        if b.type = .ram ∨ b.type = .pool then
          if b.payload - headerSizeIncrement < sizeofStructPbuf then some (h, 1)
          else some (h.store p moved, 0)
        else if headerSizeIncrement < 0 ∧ incrementMagnitude ≤ b.len.toNat then
          some (h.store p moved, 0)
        else some (h, 1)

/-! ## Allocation -/

/-- The length of the first buffer from the pool, and the buffer. -/
def firstLen (layer : PbufLayer) (length : UInt16) : ℕ :=
  min length.toNat (pbufPoolBufsizeAligned - lwipMemAlignSize layer.offset)
def firstBuffer (layer : PbufLayer) (length : UInt16) : StructPbuf ι where
  next := none
  payload := lwipMemAlignSize (sizeofStructPbuf + layer.offset)
  totLen := length
  len := UInt16.ofNat (firstLen layer length)
  type := .pool
  ref := 1
  size := sizeofStructPbuf + pbufPoolBufsizeAligned

/-- The buffers behind the first, with what is left of the length. -/
def nextBuffer (remLen : ℕ) : StructPbuf ι where
  next := none
  payload := sizeofStructPbuf
  totLen := UInt16.ofNat remLen
  len := UInt16.ofNat (min remLen pbufPoolBufsizeAligned)
  type := .pool
  ref := 1
  size := sizeofStructPbuf + pbufPoolBufsizeAligned

/-- The loop of `pbuf_alloc` behind the first buffer from the pool, with the blocks the pool has;
it answers whether there were enough. -/
def pbufAllocTail : List ι → ι → ℕ → PbufHeap ι → Option (PbufHeap ι × Bool)
  | [], _, remLen, h => some (h, remLen = 0)
  | q :: mem, r, remLen, h =>
    if remLen = 0 then some (h, true)
    else do
      let b ← h r
      pbufAllocTail mem q (remLen - min remLen pbufPoolBufsizeAligned)
        ((h.store r { b with next := some q }).store q (nextBuffer remLen))

/-- A buffer in the heap. The size of its block is computed in 16 bits. -/
def ramBuffer (layer : PbufLayer) (length : UInt16) : StructPbuf ι where
  next := none
  payload := lwipMemAlignSize (sizeofStructPbuf + layer.offset)
  totLen := length
  len := length
  type := .ram
  ref := 1
  size := (lwipMemAlignSize (sizeofStructPbuf + layer.offset) +
    lwipMemAlignSize length.toNat) % 2 ^ 16

/-- A buffer whose payload lies elsewhere. -/
def outerBuffer (length : UInt16) (type : PbufType) : StructPbuf ι where
  next := none
  payload := 0
  totLen := length
  len := length
  type := type
  ref := 1
  size := 0

/-- `pbuf_alloc`, with the blocks that the allocators have. -/
def pbufAlloc (layer : PbufLayer) (length : UInt16) (type : PbufType) (mem : List ι)
    (h : PbufHeap ι) : Option (PbufHeap ι × Option ι) :=
  match mem with
  | [] => some (h, none)
  | p :: mem =>
    match type with
    | .pool => do
      let h := h.store p (firstBuffer layer length)
      let (h, enough) ← pbufAllocTail mem p (length.toNat - firstLen layer length) h
      if enough then some (h, some p)
      else
        let (h, _) ← pbufFree (some p) h
        some (h, none)
    | .ram => some (h.store p (ramBuffer layer length), some p)
    | type => some (h.store p (outerBuffer length type), some p)

end

end PbufHeap

/-! ## Programs -/

open PbufHeap

/-- The memory and how many references the program owns to each buffer. -/
structure PbufState (ι : Type*) where
  heap : PbufHeap ι
  owned : ι → ℕ

/-- The calls. -/
inductive PbufCall (ι : Type*)
  | alloc (layer : PbufLayer) (length : UInt16) (type : PbufType) (mem : List ι)
  | free (p : Option ι)
  | ref (p : Option ι)
  | cat (h t : Option ι)
  | chain (h t : Option ι)
  | dechain (p : ι)
  | realloc (p : ι) (newLen : UInt16)
  | header (p : Option ι) (headerSizeIncrement : ℤ)
  deriving DecidableEq, Repr

namespace PbufState

variable {ι : Type*} [DecidableEq ι]

/-- The program gets a reference, or gives one away. -/
def gain (owned : ι → ℕ) : Option ι → ι → ℕ
  | none => owned
  | some p => update owned p (owned p + 1)
def lose (owned : ι → ℕ) : Option ι → ι → ℕ
  | none => owned
  | some p => update owned p (owned p - 1)

/-- A call. `pbuf_cat` takes the reference to the second packet, if it is given two. -/
def step [Fintype ι] (s : PbufState ι) : PbufCall ι → Option (PbufState ι)
  | .alloc layer length type mem =>
    (pbufAlloc layer length type mem s.heap).map fun r => ⟨r.1, gain s.owned r.2⟩
  | .free p => (pbufFree p s.heap).map fun r => ⟨r.1, lose s.owned p⟩
  | .ref p => (pbufRef p s.heap).map fun h => ⟨h, gain s.owned p⟩
  | .cat h t =>
    (pbufCat h t s.heap).map fun heap => ⟨heap, if h = none then s.owned else lose s.owned t⟩
  | .chain h t => (pbufChain h t s.heap).map fun heap => ⟨heap, s.owned⟩
  | .dechain p => (pbufDechain p s.heap).map fun r => ⟨r.1, s.owned⟩
  | .realloc p newLen => (pbufRealloc p newLen s.heap).map fun heap => ⟨heap, s.owned⟩
  | .header p headerSizeIncrement =>
    (pbufHeader p headerSizeIncrement s.heap).map fun r => ⟨r.1, s.owned⟩

/-- No buffer, and nothing owned. -/
def start (ι : Type*) : PbufState ι := ⟨fun _ => none, fun _ => 0⟩

/-- The packet buffers, as a machine. A step without a next state is a fault. -/
def machine (ι : Type*) [DecidableEq ι] [Fintype ι] : Lib.Machine (PbufState ι) (PbufCall ι) :=
  ⟨start ι, step⟩

end PbufState

end FanGateway.Lwip
