import FanGateway.Lwip.Blocks

/-!
# The pools of the stack

What the stack needs most, it takes from pools: each of them is cut into elements of one size when
the stack begins. A free element keeps in its first bytes the address of the next free one of its
pool, and an element in use belongs wholly to its owner, so that the lists lie in the same bytes as
the data.

Addresses are those of the controller, and the null pointer is 0.
-/

namespace FanGateway.Lwip

open Function (update)

namespace Ram

/-- A pointer, in four bytes. -/
def pointer (r : Ram) (p : ℕ) : ℕ := r.word p + 2 ^ 16 * r.word (p + 2)

def setPointer (p v : ℕ) (r : Ram) : Ram := (r.setWord p (v % 2 ^ 16)).setWord (p + 2) (v / 2 ^ 16)

end Ram

/-- An entry of `memp_std.h`: how many elements there are, and the size of what they are for. It
has a byte, and aligned it fits in 16 bits. -/
structure Mempool where
  num : UInt16
  size : ℕ
  size_pos : 0 < size
  size_le : size ≤ 65532
  deriving DecidableEq

/-- An entry of `memp_sizes`. -/
def Mempool.sizes (pool : Mempool) : ℕ := lwipMemAlignSize pool.size % 2 ^ 16

/-- The bytes that the elements of a pool take. -/
def Mempool.span (pool : Mempool) : ℕ := pool.num.toNat * lwipMemAlignSize pool.size

/-- `memp_get_memorysize`. -/
def mempGetMemorysize (pools : List Mempool) : ℕ :=
  (4 - 1 + (pools.map Mempool.span).sum) % 2 ^ 32

/-- The memory of the pools: its bytes, and `memp_tab`, which keeps the first free element of each
pool. -/
structure MempHeap where
  ram : Ram
  tab : ℕ → ℕ

namespace MempHeap

/-- The inner loop of `memp_init`, which cuts a pool, and the address behind it. -/
def carve (i size : ℕ) : ℕ → ℕ × MempHeap → ℕ × MempHeap
  | 0, r => r
  | j + 1, (memp, h) =>
    carve i size j (memp + size, ⟨h.ram.setPointer memp (h.tab i), update h.tab i memp⟩)

/-- The outer loop of `memp_init`, which goes through the pools. -/
def carveAll : ℕ → List Mempool → ℕ × MempHeap → MempHeap
  | _, [], (_, h) => h
  | i, pool :: pools, (memp, h) =>
    carveAll (i + 1) pools
      (carve i pool.sizes pool.num.toNat (memp, ⟨h.ram, update h.tab i 0⟩))

/-- `memp_init`, on the bytes that the port has got for the pools. `LWIP_MEM_ALIGN` rounds an
address up as `LWIP_MEM_ALIGN_SIZE` does a size. -/
def mempInit (pools : List Mempool) (mempMemory : ℕ) (ram : Ram) : MempHeap :=
  carveAll 0 pools (lwipMemAlignSize mempMemory, ⟨ram, fun _ => 0⟩)

/-- `memp_malloc`, with the pointer it answers. -/
def mempMalloc (pools : List Mempool) (type : ℕ) (h : MempHeap) : MempHeap × ℕ :=
  if type < pools.length then
    let memp := h.tab type
    if memp ≠ 0 then (⟨h.ram, update h.tab type (h.ram.pointer memp)⟩, memp) else (h, 0)
  else (h, 0)

/-- `memp_free`. -/
def mempFree (type mem : ℕ) (h : MempHeap) : MempHeap :=
  if mem = 0 then h else ⟨h.ram.setPointer mem (h.tab type), update h.tab type mem⟩

end MempHeap

/-! ## Programs -/

open MempHeap

/-- The pools, and what the programs that use them keep in the elements they own, by the address
and with the type of each. -/
structure MempState where
  heap : MempHeap
  owned : ℕ → Option (ℕ × List UInt8)

/-- The calls, and the writes of a program to its elements. -/
inductive MempCall
  | malloc (type : ℕ)
  | free (type mem : ℕ)
  | write (mem i : ℕ) (x : UInt8)
  deriving DecidableEq, Repr

/-- The table of the pools, and the memory that the port has got for them. -/
structure MempPort where
  pools : List Mempool
  mempMemory : ℕ
  memory_pos : 0 < mempMemory
  memory_le : mempMemory + (4 - 1 + (pools.map Mempool.span).sum) ≤ 2 ^ 32

namespace MempState

/-- The size of what the elements of a type are for. -/
def sizeOf (pools : List Mempool) (type : ℕ) : ℕ := pools[type]?.elim 0 Mempool.size

/-- A call or a write. -/
def step (pools : List Mempool) (s : MempState) : MempCall → Option MempState
  | .malloc type =>
    let r := mempMalloc pools type s.heap
    some ⟨r.1, if r.2 = 0 then s.owned
      else update s.owned r.2 (some (type, r.1.ram.bytes r.2 (sizeOf pools type)))⟩
  | .free type mem =>
    some ⟨mempFree type mem s.heap, if mem = 0 then s.owned else update s.owned mem none⟩
  | .write mem i x =>
    some ⟨⟨update s.heap.ram (mem + i) x, s.heap.tab⟩,
      update s.owned mem ((s.owned mem).map (Prod.map id fun data => data.set i x))⟩

/-- The pools and their users, as a machine on the bytes that the port has got. -/
def machine (port : MempPort) (ram : Ram) : Lib.Machine MempState MempCall :=
  ⟨⟨mempInit port.pools port.mempMemory ram, fun _ => none⟩, step port.pools⟩

end MempState

end FanGateway.Lwip
