import FanGateway.Malloc.Batch

/-!
# Bringing up the network

The network initialisation allocates four areas of the internal pool, brings up
the chip and then starts the stack. If an area is missing it gives the others
back and reports it. If the chip does not answer it reports that, but keeps the
areas, and the next attempt overwrites the pointers to them.
-/

namespace FanGateway.Net

open Lib Malloc

/-- The internal memory area, wherever the linker puts its pool. -/
def sramin (membase : ℕ) (base_pos : 0 < membase) (base_le : membase + 1056 * 32 ≤ 2 ^ 32) :
    Bank where
  memtblsize := 1056
  memblksize := 32
  membase := membase
  tblsize_pos := by decide
  tblsize_lt := by decide
  blksize_pos := Nat.succ_pos 31
  memsize_lt := by decide
  base_pos := base_pos
  base_le := base_le

/-- The pool and the global pointers to the four areas. -/
structure Globals (b : Bank) where
  dev : MallcoDev b
  mempMemory : ℕ
  ramHeap : ℕ
  tcpipThreadTaskStk : ℕ
  lwipDhcpTaskStk : ℕ

variable {b : Bank}

/-! ## The functions of `lwip_comm.c` -/

/-- `LWIP_MEM_ALIGN_SIZE(size)` with `MEM_ALIGNMENT` 4. -/
def memAlignSize (size : ℕ) : ℕ := (size + 3) / 4 * 4

/-- The heap of the stack: `MEM_SIZE` and two list heads, aligned, and the alignment itself. -/
def ramheapsize : ℕ := memAlignSize (6 * 1024) + 2 * memAlignSize (4 * 3) + 4

/-- `TCPIP_THREAD_STACKSIZE*4`. -/
def tcpipStackSize : ℕ := 1000 * 4

/-- `LWIP_DHCP_STK_SIZE*4`. -/
def dhcpStackSize : ℕ := 128 * 4

def lwipCommMemFree (g : Globals b) : Globals b :=
  let dev := myfree g.mempMemory g.dev
  let dev := myfree g.ramHeap dev
  let dev := myfree g.tcpipThreadTaskStk dev
  let dev := myfree g.lwipDhcpTaskStk dev
  { g with dev }

/-- 0 for success, 1 if an area is missing. The pools of the stack take `mempsize` bytes, which
`memp_get_memorysize` adds up. -/
def lwipCommMemMalloc (mempsize : ℕ) (g : Globals b) : ℕ × Globals b :=
  let (mempMemory, dev) := mymalloc mempsize g.dev
  let g := { g with mempMemory, dev }
  let (ramHeap, dev) := mymalloc ramheapsize g.dev
  let g := { g with ramHeap, dev }
  let (tcpipThreadTaskStk, dev) := mymalloc tcpipStackSize g.dev
  let g := { g with tcpipThreadTaskStk, dev }
  let (lwipDhcpTaskStk, dev) := mymalloc dhcpStackSize g.dev
  let g := { g with lwipDhcpTaskStk, dev }
  if g.mempMemory = 0 ∨ g.ramHeap = 0 ∨ g.tcpipThreadTaskStk = 0 ∨ g.lwipDhcpTaskStk = 0 then
    (1, lwipCommMemFree g)
  else (0, g)

/-- 0 for success, 1 for missing memory, 2 if the chip does not answer; `chip` is what
`ENC28J60_Init` returns, and `start` what the rest does, which cannot fail. -/
def lwipCommInit (start : Globals b → Globals b) (mempsize chip : ℕ) (g : Globals b) :
    ℕ × Globals b :=
  let (failed, g) := lwipCommMemMalloc mempsize g
  if failed ≠ 0 then (1, g)
  else if chip ≠ 0 then (2, g)
  else (0, start g)

/-! ## The loop of `main` -/

/-- The loop of `main`, as often as the chip is given a chance: every attempt finds the table as
it was before the first one, comes off as a first attempt would if the chip answers, and leaves
the table alone if it fails. -/
def RetriesSound (start : Globals b → Globals b) (mempsize : ℕ) (g₀ : Globals b) :
    List ℕ → Globals b → Prop
  | [], _ => True
  | chip :: chips, g =>
    g.dev.memmap = g₀.dev.memmap ∧
      (chip = 0 → (lwipCommInit start mempsize chip g).1 =
        (lwipCommInit start mempsize chip g₀).1) ∧
      ((lwipCommInit start mempsize chip g).1 ≠ 0 →
        (lwipCommInit start mempsize chip g).2.dev.memmap = g.dev.memmap ∧
          RetriesSound start mempsize g₀ chips (lwipCommInit start mempsize chip g).2)

/-- The sizes of the four areas, in the order they are allocated. -/
def areas (mempsize : ℕ) : List ℕ := [mempsize, ramheapsize, tcpipStackSize, dhcpStackSize]

section Init

variable {start : Globals b → Globals b} {mempsize chip : ℕ} {g g₀ : Globals b}
  {live : List Live} {L : Layout b.memtblsize}

/-- The function allocates the areas one after the other and frees all of them if one is
missing. -/
theorem lwipCommMemMalloc_eq (mempsize : ℕ) (g : Globals b) :
    ((lwipCommMemMalloc mempsize g).1, (lwipCommMemMalloc mempsize g).2.dev) =
      if ∀ ptr ∈ (mallocAll (areas mempsize) g.dev).1, ptr ≠ 0 then
        (0, (mallocAll (areas mempsize) g.dev).2)
      else (1, freeAll (mallocAll (areas mempsize) g.dev).1
        (mallocAll (areas mempsize) g.dev).2) := by
  simp only [lwipCommMemMalloc, areas, mallocAll]
  split_ifs with hmissing hall hall
  · simp only [List.forall_mem_cons] at hall
    tauto
  · rfl
  · rfl
  · simp only [List.forall_mem_cons] at hall
    simp_all

theorem areas_fit (hfits : mempsize ≤ 65535 * b.memblksize) :
    ∀ size ∈ areas mempsize, size ≤ 65535 * b.memblksize := by
  have hblk := b.blksize_pos
  simp only [areas, List.forall_mem_cons, List.not_mem_nil, false_imp_iff, implies_true, and_true]
  refine ⟨hfits, ?_, ?_, ?_⟩ <;>
    simp only [ramheapsize, tcpipStackSize, dhcpStackSize, memAlignSize] <;>
    omega

/-- Without room for the areas an attempt reports missing memory, whatever the chip would have
said, and every pointer in use before is in use still. -/
theorem lwipCommInit_of_not_room (start : Globals b → Globals b) (chip : ℕ)
    (h : Represents ⟨g.dev, live⟩ L)
    (hfits : mempsize ≤ 65535 * b.memblksize) (hroom : ¬ Room b (areas mempsize) g.dev.memmap) :
    (lwipCommInit start mempsize chip g).1 = 1 ∧
      ∃ L', Represents ⟨(lwipCommInit start mempsize chip g).2.dev, live⟩ L' := by
  obtain ⟨-, -, -, -, hiff⟩ := h.mallocAll (areas_fit hfits)
  have hmalloc := lwipCommMemMalloc_eq mempsize g
  rw [if_neg (mt hiff.mp hroom), Prod.mk.injEq] at hmalloc
  have hinit : lwipCommInit start mempsize chip g = (1, (lwipCommMemMalloc mempsize g).2) := by
    simp [lwipCommInit, hmalloc.1]
  rw [hinit, hmalloc.2]
  exact ⟨rfl, h.freeAll_mallocAll (areas_fit hfits)⟩

/-- With room for them an attempt comes off as the chip wants it to, and the table shows the
areas if the chip does not answer. -/
theorem lwipCommInit_of_room (start : Globals b → Globals b) (chip : ℕ)
    (h : Represents ⟨g.dev, live⟩ L)
    (hfits : mempsize ≤ 65535 * b.memblksize) (hroom : Room b (areas mempsize) g.dev.memmap) :
    (chip = 0 → (lwipCommInit start mempsize chip g).1 = 0) ∧
      (chip ≠ 0 → (lwipCommInit start mempsize chip g).1 ≠ 0 ∧
        (lwipCommInit start mempsize chip g).2.dev.memmap ≠ g.dev.memmap) := by
  obtain ⟨-, -, -, -, hiff⟩ := h.mallocAll (areas_fit hfits)
  have hmalloc := lwipCommMemMalloc_eq mempsize g
  rw [if_pos (hiff.mpr hroom), Prod.mk.injEq] at hmalloc
  refine ⟨fun hchip => by simp [lwipCommInit, hmalloc.1, hchip], fun hchip => ?_⟩
  have hinit : lwipCommInit start mempsize chip g = (2, (lwipCommMemMalloc mempsize g).2) := by
    simp [lwipCommInit, hmalloc.1, hchip]
  rw [hinit, hmalloc.2]
  exact ⟨two_ne_zero, h.memmap_mallocAll_ne (areas_fit hfits) (List.cons_ne_nil _ _) hroom⟩

/-- Without room every attempt comes off as the first one. -/
theorem retriesSound_of_not_room {chips : List ℕ} {L₀ : Layout b.memtblsize}
    (h : Represents ⟨g.dev, live⟩ L) (h₀ : Represents ⟨g₀.dev, live⟩ L₀)
    (hfits : mempsize ≤ 65535 * b.memblksize)
    (hroom : ¬ Room b (areas mempsize) g₀.dev.memmap) :
    RetriesSound start mempsize g₀ chips g := by
  -- induction on the attempts; the pointers in use stay those of the start
  induction chips generalizing g L with
  | nil => trivial
  | cons chip chips ih =>
    have hsame : g.dev.memmap = g₀.dev.memmap := h₀.memmap_eq h
    obtain ⟨hfailed, L', hL'⟩ := lwipCommInit_of_not_room start chip h hfits
      (by rwa [hsame])
    have hfirst := (lwipCommInit_of_not_room start chip h₀ hfits hroom).1
    exact ⟨hsame, fun _ => hfailed.trans hfirst.symm, fun _ => ⟨h.memmap_eq hL', ih hL'⟩⟩

/-- **Retries.** In every reachable state of the pool and whatever the pointers hold, the loop of
`main` is sound exactly when the chip answers at the first attempt or the pool has no room for
the areas from the start. -/
theorem retriesSound_iff (h : (sessions b).Reachable ⟨g.dev, live⟩)
    (hfits : mempsize ≤ 65535 * b.memblksize) (chips : List ℕ) :
    RetriesSound start mempsize g (chip :: chips) g ↔
      chip = 0 ∨ ¬ Room b (areas mempsize) g.dev.memmap := by
  obtain ⟨L, hL⟩ := represents_of_reachable h
  by_cases hroom : Room b (areas mempsize) g.dev.memmap
  · obtain ⟨hanswers, hleaks⟩ := lwipCommInit_of_room start chip hL hfits hroom
    constructor
    · intro hsound
      by_contra hnot
      obtain ⟨hfailed, hchanged⟩ := hleaks fun hchip => hnot (.inl hchip)
      exact hchanged (hsound.2.2 hfailed).1
    · rintro (hchip | hnone)
      · exact ⟨rfl, fun _ => rfl, fun hfailed => absurd (hanswers hchip) hfailed⟩
      · exact absurd hroom hnone
  · exact iff_of_true (retriesSound_of_not_room hL hL hfits hroom) (.inr hroom)

end Init

/-! ## A cold start -/

/-- Nothing has been allocated yet. -/
def coldStart (b : Bank) : Globals b := ⟨boot b, 0, 0, 0, 0⟩

/-- The internal area at the start of the internal memory. -/
def sram : Bank := sramin 0x20000000 (by decide) (by decide)

theorem coldStart_room_iff (mempsize : ℕ) (hpos : 0 < mempsize) :
    Room sram (areas mempsize) (coldStart sram).dev.memmap ↔
      ((areas mempsize).map (blocks sram)).sum ≤ 1056 := by
  have hfree : ∀ j < sram.memtblsize, (coldStart sram).dev.memmap.peek j = 0 :=
    fun j hj => Buffer.peek_of_lt hj
  refine room_iff_of_prefix le_rfl hfree (fun j hj hlt => absurd hlt (Nat.not_lt.mpr hj)) ?_
  intro size hsize
  rw [areas, List.mem_cons] at hsize
  rcases hsize with rfl | hother
  · exact hpos
  · revert size
    decide

/-- With a memory pool of 25000 bytes there is room for two of the four areas only. Three attempts
fail on that, and so does the last one, at which the chip would answer. -/
theorem retriesSound_of_full :
    RetriesSound id 25000 (coldStart sram) [1, 2, 1, 0] (coldStart sram) := by
  have hboot : (sessions sram).Reachable ⟨(coldStart sram).dev, []⟩ := ⟨[], .nil⟩
  refine (retriesSound_iff hboot (by decide) [2, 1, 0]).mpr (.inr ?_)
  rw [coldStart_room_iff 25000 (by decide)]
  decide

/-- If the chip does not answer at first, the areas of the first attempt are lost. -/
theorem retries_leak : ¬ RetriesSound id 16000 (coldStart sram) [1, 0] (coldStart sram) := by
  have hroom : Room sram (areas 16000) (coldStart sram).dev.memmap :=
    (coldStart_room_iff 16000 (by decide)).mpr (by decide)
  have hready : Represents ⟨(coldStart sram).dev, []⟩ Layout.empty := represents_boot
  obtain ⟨hfailed, hchanged⟩ :=
    (lwipCommInit_of_room id 1 hready (by decide) hroom).2 one_ne_zero
  exact fun hsound => hchanged (hsound.2.2 hfailed).1

end FanGateway.Net
