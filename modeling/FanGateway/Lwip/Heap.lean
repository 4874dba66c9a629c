import FanGateway.Lwip.Pbuf

/-!
# The heap of the stack

The heap is one range of bytes. A `struct mem` stands before each piece of it and says where the
pieces before and behind it begin and whether it is used; the rest of a piece belongs to whoever
asked for it. So the structures that the heap rests on lie between the bytes that others write.

Addresses and pointers are counted from `ram` on. A word is stored with its low byte first.
-/

namespace FanGateway.Lwip

open Function (update)

/-- `struct mem`. -/
structure Mem where
  next : ℕ
  prev : ℕ
  used : UInt8
  deriving DecidableEq, Repr

def sizeofStructMem : ℕ := lwipMemAlignSize 6
def memSize : ℕ := 6 * 1024
def memSizeAligned : ℕ := lwipMemAlignSize memSize

/-- The bytes from `ram` on. -/
abbrev Ram := ℕ → UInt8

namespace Ram

/-- A word of type `mem_size_t`. -/
def word (p : ℕ) (r : Ram) : ℕ := (r p).toNat + 2 ^ 8 * (r (p + 1)).toNat

def setWord (p v : ℕ) (r : Ram) : Ram :=
  update (update r p (UInt8.ofNat v)) (p + 1) (UInt8.ofNat (v / 2 ^ 8))

/-- The `struct mem` at an address, and the assignments to its fields. -/
def mem (r : Ram) (p : ℕ) : Mem := ⟨r.word p, r.word (p + 2), r (p + 4)⟩
def setNext (p v : ℕ) (r : Ram) : Ram := r.setWord p v
def setPrev (p v : ℕ) (r : Ram) : Ram := r.setWord (p + 2) v
def setUsed (p : ℕ) (x : UInt8) (r : Ram) : Ram := update r (p + 4) x

/-- The size of the data of the `struct mem` at an address, which is an `unsigned int`. -/
def room (r : Ram) (ptr : ℕ) : ℕ := ((r.mem ptr).next + 2 ^ 32 - (ptr + sizeofStructMem)) % 2 ^ 32

/-- Insert an unused `struct mem` between one and the one that is to follow. -/
def insertMem (ptr ptr2 next : ℕ) (r : Ram) : Ram :=
  let r := ((r.setUsed ptr2 0).setNext ptr2 next).setPrev ptr2 ptr
  let r := r.setNext ptr ptr2
  if next ≠ memSizeAligned then r.setPrev next ptr2 else r

/-- Combine a `struct mem` with the one behind it. -/
def combine (mem nmem : ℕ) (r : Ram) : Ram :=
  let next := (r.mem nmem).next
  (r.setNext mem next).setPrev next mem

/-- `memset`. -/
def memset (p : ℕ) (x : UInt8) (n : ℕ) (r : Ram) : Ram :=
  fun a => if p ≤ a ∧ a < p + n then x else r a

/-- The bytes from an address on. -/
def bytes (p n : ℕ) (r : Ram) : List UInt8 := (List.range n).map fun i => r (p + i)

end Ram

/-- The heap: its bytes, and the pointer to the lowest free `struct mem`. -/
structure MemHeap where
  ram : Ram
  lfree : ℕ

namespace MemHeap

/-- `mem_init`, on the bytes that the port has got for the heap. -/
def memInit (ram : Ram) : MemHeap where
  ram :=
    let r := ((ram.setNext 0 memSizeAligned).setPrev 0 0).setUsed 0 0
    ((r.setUsed memSizeAligned 1).setNext memSizeAligned memSizeAligned).setPrev
      memSizeAligned memSizeAligned
  lfree := 0

/-- `plug_holes`, forward. -/
def plugForward (mem : ℕ) (h : MemHeap) : MemHeap :=
  let nmem := (h.ram.mem mem).next
  if mem ≠ nmem ∧ (h.ram.mem nmem).used = 0 ∧ nmem ≠ memSizeAligned then
    ⟨h.ram.combine mem nmem, if h.lfree = nmem then mem else h.lfree⟩
  else h

/-- `plug_holes`, backward. -/
def plugBackward (mem : ℕ) (h : MemHeap) : MemHeap :=
  let pmem := (h.ram.mem mem).prev
  if pmem ≠ mem ∧ (h.ram.mem pmem).used = 0 then
    ⟨h.ram.combine pmem mem, if h.lfree = mem then pmem else h.lfree⟩
  else h

def plugHoles (mem : ℕ) (h : MemHeap) : MemHeap := plugBackward mem (plugForward mem h)

/-- `mem_free`. -/
def memFree (rmem : Option ℕ) (h : MemHeap) : MemHeap :=
  match rmem with
  | none => h
  | some rmem =>
    if rmem ≥ memSizeAligned then h
    else
      let mem := rmem - sizeofStructMem
      plugHoles mem ⟨h.ram.setUsed mem 0, if mem < h.lfree then mem else h.lfree⟩

/-- The size of the data for a request, which is a `mem_size_t`. -/
def dataSize (size : UInt16) : ℕ := max (lwipMemAlignSize size.toNat % 2 ^ 16) minSizeAligned

/-- `mem_trim`, with the pointer it answers. -/
def memTrim (rmem : ℕ) (newsize : UInt16) (h : MemHeap) : MemHeap × Option ℕ :=
  let newsize := dataSize newsize
  if newsize > memSizeAligned then (h, none)
  else if rmem ≥ memSizeAligned then (h, some rmem)
  else
    let ptr := rmem - sizeofStructMem
    let size := h.ram.room ptr % 2 ^ 16
    if newsize > size then (h, none)
    else if newsize = size then (h, some rmem)
    else
      let mem2 := (h.ram.mem ptr).next
      let ptr2 := (ptr + sizeofStructMem + newsize) % 2 ^ 16
      if (h.ram.mem mem2).used = 0 then
        -- the free block behind moves down
        (⟨h.ram.insertMem ptr ptr2 (h.ram.mem mem2).next,
          if h.lfree = mem2 then ptr2 else h.lfree⟩, some rmem)
      else if newsize + sizeofStructMem + minSizeAligned ≤ size then
        (⟨h.ram.insertMem ptr ptr2 mem2, if ptr2 < h.lfree then ptr2 else h.lfree⟩, some rmem)
      else (h, some rmem)

/-- What `mem_malloc` does to the `struct mem` it has found. -/
def takeMem (size ptr : ℕ) (r : Ram) : Ram :=
  if r.room ptr ≥ size + sizeofStructMem + minSizeAligned then
    (r.insertMem ptr ((ptr + sizeofStructMem + size) % 2 ^ 16) (r.mem ptr).next).setUsed ptr 1
  else r.setUsed ptr 1

/-- The inner loop of `mem_malloc`, which looks for the next free `struct mem`. It runs once for
each of them at most. -/
def nextFree (r : Ram) : ℕ → ℕ → Option ℕ
  | 0, _ => none
  | fuel + 1, cur =>
    if (r.mem cur).used ≠ 0 ∧ cur ≠ memSizeAligned then nextFree r fuel (r.mem cur).next
    else some cur

/-- `lfree` after the `struct mem` at an address has been taken. -/
def adjustLfree (ptr lfree : ℕ) (r : Ram) : Option ℕ :=
  if ptr = lfree then nextFree r (memSizeAligned + 1) lfree else some lfree

/-- The end of `mem_malloc`, with the `struct mem` it has found. -/
def memMallocAt (size ptr : ℕ) (h : MemHeap) : Option (MemHeap × Option ℕ) :=
  let ram := takeMem size ptr h.ram
  (adjustLfree ptr h.lfree ram).map fun lfree => (⟨ram, lfree⟩, some (ptr + sizeofStructMem))

/-- The loop of `mem_malloc`. -/
def memMallocLoop (size : ℕ) (h : MemHeap) : ℕ → ℕ → Option (MemHeap × Option ℕ)
  | 0, _ => none
  | fuel + 1, ptr =>
    if ptr < memSizeAligned - size then
      if (h.ram.mem ptr).used = 0 ∧ h.ram.room ptr ≥ size then memMallocAt size ptr h
      else memMallocLoop size h fuel (h.ram.mem ptr).next
    else some (h, none)

/-- `mem_malloc`, with the pointer it answers. -/
def memMalloc (size : UInt16) (h : MemHeap) : Option (MemHeap × Option ℕ) :=
  if size = 0 then some (h, none)
  else if dataSize size > memSizeAligned then some (h, none)
  else memMallocLoop (dataSize size) h (memSizeAligned + 1) h.lfree

/-- `mem_calloc`. The product is cut to 16 bits for the request, and not for the bytes to clear. -/
def memCalloc (count size : UInt16) (h : MemHeap) : Option (MemHeap × Option ℕ) := do
  let (h, p) ← memMalloc (count * size) h
  match p with
  | none => some (h, none)
  | some p => some (⟨h.ram.memset p 0 (count.toNat * size.toNat), h.lfree⟩, some p)

end MemHeap

/-! ## Programs -/

open MemHeap

/-- The heap, and what the programs that use it keep in the memory they own, by its address. -/
structure MemState where
  heap : MemHeap
  owned : ℕ → Option (List UInt8)

/-- The calls, and the writes of a program to its memory. -/
inductive MemCall
  | malloc (size : UInt16)
  | calloc (count size : UInt16)
  | free (rmem : Option ℕ)
  | trim (rmem : ℕ) (newsize : UInt16)
  | write (rmem i : ℕ) (x : UInt8)
  deriving DecidableEq, Repr

namespace MemState

/-- A program gets memory, and finds in it what is there, or gives it back. -/
def gain (ram : Ram) (n : ℕ) (owned : ℕ → Option (List UInt8)) :
    Option ℕ → ℕ → Option (List UInt8)
  | none => owned
  | some p => update owned p (some (ram.bytes p n))
def lose (owned : ℕ → Option (List UInt8)) : Option ℕ → ℕ → Option (List UInt8)
  | none => owned
  | some p => update owned p none

/-- What a program keeps at an address changes. -/
def change (p : ℕ) (f : List UInt8 → List UInt8) (owned : ℕ → Option (List UInt8)) :
    ℕ → Option (List UInt8) :=
  update owned p ((owned p).map f)

/-- A call or a write. -/
def step (s : MemState) : MemCall → Option MemState
  | .malloc size =>
    (memMalloc size s.heap).map fun r => ⟨r.1, gain r.1.ram size.toNat s.owned r.2⟩
  | .calloc count size =>
    (memCalloc count size s.heap).map fun r =>
      ⟨r.1, gain r.1.ram (count.toNat * size.toNat) s.owned r.2⟩
  | .free rmem => some ⟨memFree rmem s.heap, lose s.owned rmem⟩
  | .trim rmem newsize =>
    let r := memTrim rmem newsize s.heap
    some ⟨r.1, if r.2 = none then s.owned else change rmem (List.take newsize.toNat) s.owned⟩
  | .write rmem i x =>
    some ⟨⟨update s.heap.ram (rmem + i) x, s.heap.lfree⟩,
      change rmem (fun data => data.set i x) s.owned⟩

/-- The heap and its users, as a machine on the bytes that the port has got. -/
def machine (ram : Ram) : Lib.Machine MemState MemCall := ⟨⟨memInit ram, fun _ => none⟩, step⟩

end MemState

end FanGateway.Lwip
