import FanGateway.Malloc.Memory
import FanGateway.Malloc.Placement

/-!
# Reallocation

A reallocation takes a new block, copies as many bytes as the new size has, and
frees the old block. The old size is not known to it, so a block that grows past
the blocks it has is copied together with what lies behind it.
-/

namespace FanGateway.Malloc

open Lib

variable {b : Bank}

/-- Reallocate: the address of the new block, or 0. -/
def myrealloc (ptr size : ℕ) (m : Memory b) : ℕ × Memory b :=
  let (offset, dev) := myMemMalloc size m.dev
  let m := { m with dev }
  if offset = 0xFFFFFFFF then (0, m)
  else
    let new := (b.membase + offset) % 2 ^ 32
    let m := mymemcpy new ptr size m
    (new, { m with dev := myfree ptr m.dev })

/-! ## What a reallocation leaves behind -/

/-- The memory after the new block has been taken. -/
def Memory.take (m : Memory b) (o n : ℕ) : Memory b :=
  { m with dev := { m.dev with memmap := mark m.dev.memmap o n } }

/-- Free the old block. -/
def Memory.free (m : Memory b) (ptr : ℕ) : Memory b := { m with dev := myfree ptr m.dev }

section Outcome

variable {m : Memory b} {a : Live} {L : Layout b.memtblsize} {live : List Live}
  {ptr size t o j c : ℕ}

/-- A reallocation fails with its allocation, or takes, copies and frees. -/
theorem myrealloc_outcome (ptr size : ℕ) (hready : m.dev.memrdy = true) :
    ((size = 0 ∨ Excluded size m.dev) ∧ mymalloc size m.dev = (0, m.dev) ∧
        myrealloc ptr size m = (0, m)) ∨
      ∃ o < b.memtblsize, FreeRun m.dev.memmap (nmembOf b size) o ∧ ¬ Excluded size m.dev ∧
        mymalloc size m.dev =
          (b.membase + o * b.memblksize, (m.take o (nmembOf b size)).dev) ∧
        myrealloc ptr size m = (b.membase + o * b.memblksize,
          (mymemcpy (b.membase + o * b.memblksize) ptr size
            (m.take o (nmembOf b size))).free ptr) := by
  rcases myMemMalloc_outcome size hready with ⟨hnone, heq⟩ | ⟨o, hlt, hrun, hsome, heq⟩
  · exact .inl ⟨hnone, mymalloc_of_none heq, by simp only [myrealloc, heq, if_true]⟩
  · have hsum : (b.membase + o * b.memblksize) % 2 ^ 32 = b.membase + o * b.memblksize := by
      have hmul := Nat.mul_lt_mul_of_pos_right hlt b.blksize_pos
      have hbase := b.base_le
      exact Nat.mod_eq_of_lt (by omega)
    refine .inr ⟨o, hlt, hrun, hsome, mymalloc_of_offset hlt heq, ?_⟩
    simp only [myrealloc, heq, if_neg (offset_ne hlt), hsum]
    rfl

/-- The bytes of blocks below a block lie below it. -/
theorem block_lt {k len i : ℕ} (h : k + len ≤ o) (hi : i < len * b.memblksize) :
    k * b.memblksize + i < o * b.memblksize := by
  have hmul := Nat.mul_le_mul_right b.memblksize h
  rw [Nat.add_mul] at hmul
  omega

/-- Runs of blocks that have none in common lie one below the other. -/
theorem lt_or_lt_of_apart {s r : Span} (h : s.Apart r) (hs : 0 < s.len) (hr : 0 < r.len) :
    s.start + s.len ≤ r.start ∨ r.start + r.len ≤ s.start := by
  by_contra hnot
  exact h (max s.start r.start) ⟨by omega, by omega⟩ ⟨by omega, by omega⟩

/-- The bytes of runs of blocks that have none in common are different. -/
theorem bytes_ne_of_apart {s r : Span} {i k : ℕ} (h : s.Apart r)
    (hi : i < s.len * b.memblksize) (hk : k < r.len * b.memblksize) :
    b.membase + s.start * b.memblksize + i ≠ b.membase + r.start * b.memblksize + k := by
  have hs : 0 < s.len := Nat.pos_of_mul_pos_right (Nat.zero_lt_of_lt hi)
  have hr : 0 < r.len := Nat.pos_of_mul_pos_right (Nat.zero_lt_of_lt hk)
  rcases lt_or_lt_of_apart h hs hr with hlow | hhigh
  · have hlt := block_lt (b := b) hlow hi
    omega
  · have hlt := block_lt (b := b) hhigh hk
    omega

/-- A run of free blocks has none of an allocation in use. -/
theorem Represents.apart_of_freeRun (h : Represents ⟨m.dev, live⟩ L) (ha : a ∈ live) {n : ℕ}
    (hrun : FreeRun m.dev.memmap n o) : (span b a).Apart ⟨o, n⟩ := by
  intro j hj hj'
  exact h.taken ha hj (hrun.2 j hj'.1 hj'.2)

/-- A free keeps the bytes. -/
theorem pool_myMemFree {d : MallcoDev b} (hready : d.memrdy = true) (offset : ℕ) :
    (myMemFree offset d).2.pool = d.pool := by
  have hnot : ¬ d.memrdy = false := by simp [hready]
  rw [myMemFree, if_neg hnot]
  split_ifs <;> rfl

theorem pool_myfree {d : MallcoDev b} (hready : d.memrdy = true) : (myfree ptr d).pool = d.pool := by
  rw [myfree]
  split_ifs
  · rfl
  · exact pool_myMemFree hready _

theorem byte_free (hready : m.dev.memrdy = true) : (m.free ptr).byte c = m.byte c := by
  simp only [Memory.byte, Memory.free, pool_myfree hready]

/-- The bytes after a block that stays within its blocks has moved to a free run. -/
theorem byte_moved (h : Represents ⟨m.dev, live⟩ L) (ha : a ∈ live)
    (hrun : FreeRun m.dev.memmap (blocks b t) o) (ht : t ≤ (span b a).len * b.memblksize) (c : ℕ) :
    ((mymemcpy (b.membase + o * b.memblksize) a.ptr t (m.take o (blocks b t))).free a.ptr).byte c =
      if b.membase + o * b.memblksize ≤ c ∧ c < b.membase + o * b.memblksize + t then
        m.byte (a.ptr + (c - (b.membase + o * b.memblksize)))
      else m.byte c := by
  have hready : (mymemcpy (b.membase + o * b.memblksize) a.ptr t
      (m.take o (blocks b t))).dev.memrdy = true := table_mymemcpy.2.trans (h.ready ha)
  have hptr := h.ptr a ha
  have hbase := b.base_le
  have hold := Nat.mul_le_mul_right b.memblksize (L.within _ (h.mem_spans ha))
  have hnew := Nat.mul_le_mul_right b.memblksize hrun.1
  rw [Nat.add_mul] at hold hnew
  have hsize : t ≤ blocks b t * b.memblksize := le_blocks_mul t
  have hapart : a.ptr + t ≤ b.membase + o * b.memblksize ∨
      b.membase + o * b.memblksize + t ≤ a.ptr := by
    rcases Nat.eq_zero_or_pos t with rfl | hpos
    · omega
    · rcases lt_or_lt_of_apart (h.apart_of_freeRun ha hrun) (L.nonempty _ (h.mem_spans ha))
        (blocks_pos hpos) with hlow | hhigh
      · have hmul : ((span b a).start + (span b a).len) * b.memblksize ≤ o * b.memblksize :=
          Nat.mul_le_mul_right b.memblksize hlow
        rw [Nat.add_mul] at hmul
        omega
      · have hmul : (o + blocks b t) * b.memblksize ≤ (span b a).start * b.memblksize :=
          Nat.mul_le_mul_right b.memblksize hhigh
        rw [Nat.add_mul] at hmul
        omega
  rw [byte_free hready, byte_mymemcpy (by omega) (by omega) hapart]
  rfl

/-- The table after a block has moved to a free run. -/
theorem peek_moved (h : Represents ⟨m.dev, live⟩ L) (ha : a ∈ live) {n : ℕ}
    (hrun : FreeRun m.dev.memmap n o) (j : ℕ) :
    ((mymemcpy (b.membase + o * b.memblksize) a.ptr t (m.take o n)).free a.ptr).dev.memmap.peek
        j =
      if (span b a).Covers j then 0
      else if o ≤ j ∧ j < o + n then n else m.dev.memmap.peek j := by
  have htable : (mymemcpy (b.membase + o * b.memblksize) a.ptr t (m.take o n)).dev.memmap =
        (m.take o n).dev.memmap ∧
      (mymemcpy (b.membase + o * b.memblksize) a.ptr t (m.take o n)).dev.memrdy =
        (m.take o n).dev.memrdy := table_mymemcpy
  obtain ⟨hmap, hrdy⟩ := htable
  have hpos := L.nonempty _ (h.mem_spans ha)
  have hwithin := L.within _ (h.mem_spans ha)
  have hroom := hrun.1
  have hmarked (j : ℕ) : (m.take o n).dev.memmap.peek j =
      if o ≤ j ∧ j < o + n then n else m.dev.memmap.peek j := by
    simp only [Memory.take, peek_mark]
    exact if_congr (by omega) rfl rfl
  -- the first entry of the old block holds its length
  have hfirst : (m.take o n).dev.memmap.peek (span b a).start = (span b a).len := by
    have hcovers := Span.covers_start hpos
    have houtside : ¬ (o ≤ (span b a).start ∧ (span b a).start < o + n) :=
      h.apart_of_freeRun ha hrun _ hcovers
    rw [hmarked, if_neg houtside, h.memmap, Layout.label_eq_len (h.mem_spans ha) hcovers]
  have hfree := myfree_eq (d := (mymemcpy (b.membase + o * b.memblksize) a.ptr t
    (m.take o n)).dev) (hrdy.trans (h.ready ha)) (o := (span b a).start) (by omega)
  rw [← h.ptr a ha, hmap, hfirst] at hfree
  rw [Memory.free, hfree, peek_clear, hmarked]
  rfl

end Outcome

/-! ## Contents -/

/-- What a reallocation of `a` to `t` bytes at `new` should leave behind. -/
structure Moved (m m' : Memory b) (live : List Live) (a : Live) (t new : ℕ) : Prop where
  /-- The new block was free. -/
  block : ∃ o, new = b.membase + o * b.memblksize ∧ FreeRun m.dev.memmap (blocks b t) o ∧
    ∀ j, o ≤ j → j < o + blocks b t → m'.dev.memmap.peek j = blocks b t
  contents : ∀ i < min a.size t, m'.byte (new + i) = m.byte (a.ptr + i)
  /-- What was read belongs to the old block. -/
  reads : ∃ as, m'.reads = m.reads ++ as ∧
    ∀ r ∈ as, a.ptr ≤ r ∧ r < a.ptr + (span b a).len * b.memblksize
  freed : ∀ j, (span b a).Covers j → m'.dev.memmap.peek j = 0
  others : ∀ c ∈ live, c ≠ a →
    (∀ j, (span b c).Covers j → m'.dev.memmap.peek j = m.dev.memmap.peek j) ∧
      ∀ i < (span b c).len * b.memblksize, m'.byte (c.ptr + i) = m.byte (c.ptr + i)

/-- A reallocation moves the block, or fails with its allocation and changes nothing. -/
def Reallocates (m : Memory b) (live : List Live) (a : Live) (t : ℕ) : Prop :=
  let (new, m') := myrealloc a.ptr t m
  if (mymalloc t m.dev).1 = 0 then new = 0 ∧ m' = m else Moved m m' live a t new

section Reallocates

variable {m : Memory b} {live : List Live} {L : Layout b.memtblsize} {a : Live} {t : ℕ}

/-- A block that stays within its blocks is moved. -/
theorem Represents.moved (h : Represents ⟨m.dev, live⟩ L) (ha : a ∈ live) {o : ℕ}
    (hrun : FreeRun m.dev.memmap (blocks b t) o)
    (ht : t ≤ (span b a).len * b.memblksize) :
    Moved m ((mymemcpy (b.membase + o * b.memblksize) a.ptr t
      (m.take o (blocks b t))).free a.ptr) live a t (b.membase + o * b.memblksize) where
  block := by
    refine ⟨o, rfl, hrun, fun j hlo hhi => ?_⟩
    have hold : ¬ (span b a).Covers j := fun hj => h.apart_of_freeRun ha hrun j hj ⟨hlo, hhi⟩
    rw [peek_moved h ha hrun, if_neg hold, if_pos ⟨hlo, hhi⟩]
  contents i hi := by
    rw [byte_moved h ha hrun ht, if_pos ⟨by omega, by omega⟩, Nat.add_sub_cancel_left]
  reads := by
    refine ⟨_, reads_mymemcpy, fun r hr => ?_⟩
    obtain ⟨i, hi, rfl⟩ := List.mem_map.mp hr
    have hlt := List.mem_range.mp hi
    have hptr := h.ptr a ha
    have hbase := b.base_le
    have hold := Nat.mul_le_mul_right b.memblksize (L.within _ (h.mem_spans ha))
    rw [Nat.add_mul] at hold
    rw [Nat.mod_eq_of_lt (by omega)]
    omega
  freed j hj := by rw [peek_moved h ha hrun, if_pos hj]
  others c hc hne := by
    have hnew := h.apart_of_freeRun hc hrun
    constructor
    · intro j hj
      have houtside : ¬ (o ≤ j ∧ j < o + blocks b t) := hnew j hj
      rw [peek_moved h ha hrun, if_neg (h.apart ha hc hne j hj), if_neg houtside]
    · intro i hi
      rw [byte_moved h ha hrun ht, if_neg]
      rintro ⟨hlo, hhi⟩
      -- the address would be one of the new block
      obtain ⟨k, hk⟩ := Nat.exists_eq_add_of_le hlo
      have hsize : t ≤ blocks b t * b.memblksize := le_blocks_mul t
      have hdifferent := bytes_ne_of_apart (k := k) hnew hi (show k < blocks b t * _ by omega)
      rw [h.ptr c hc] at hk
      exact hdifferent hk

/-- A copy that goes on past the old block reads what lies behind it. -/
theorem Represents.not_moved (h : Represents ⟨m.dev, live⟩ L) (ha : a ∈ live) {n o : ℕ}
    {new : ℕ} (ht : (span b a).len * b.memblksize < t) :
    ¬ Moved m ((mymemcpy (b.membase + o * b.memblksize) a.ptr t (m.take o n)).free a.ptr) live a t
      new := by
  intro hmoved
  obtain ⟨as, heq, hall⟩ := hmoved.reads
  have hreads : ((mymemcpy (b.membase + o * b.memblksize) a.ptr t (m.take o n)).free a.ptr).reads =
      m.reads ++ (List.range t).map fun i => (a.ptr + i) % 2 ^ 32 := reads_mymemcpy
  have hsame : (List.range t).map (fun i => (a.ptr + i) % 2 ^ 32) = as :=
    List.append_cancel_left (hreads.symm.trans heq)
  -- the first byte behind the old block, or the first byte of memory if it ends there
  have hbehind := hall ((a.ptr + (span b a).len * b.memblksize) % 2 ^ 32) (by
    rw [← hsame]
    exact List.mem_map_of_mem (List.mem_range.mpr ht))
  have hptr := h.ptr a ha
  have hbase := b.base_le
  have hpos := b.base_pos
  have hold := Nat.mul_le_mul_right b.memblksize (L.within _ (h.mem_spans ha))
  rw [Nat.add_mul] at hold
  omega

theorem Represents.moves_iff (h : Represents ⟨m.dev, live⟩ L) (ha : a ∈ live) (ht : 0 < t) :
    Reallocates m live a t ↔ Excluded t m.dev ∨ t ≤ blocks b a.size * b.memblksize := by
  have hlen : (span b a).len = blocks b a.size := rfl
  have hready := h.ready ha
  rcases myrealloc_outcome a.ptr t hready with
    ⟨hnone, hmalloc, heq⟩ | ⟨o, -, hrun, hsome, hmalloc, heq⟩
  · refine iff_of_true ?_ (.inl (hnone.resolve_left ht.ne'))
    simp only [Reallocates, heq, hmalloc, if_true, and_self]
  · simp only [Reallocates, heq, hmalloc, if_neg (address_ne_zero o), hsome, false_or]
    constructor
    · intro hmoved
      by_contra hgt
      exact h.not_moved ha (Nat.lt_of_not_le hgt) hmoved
    · intro hle
      -- as many blocks as the old one has fit into the counter
      have hfits : t ≤ 65535 * b.memblksize := by
        have hwithin := L.within _ (h.mem_spans ha)
        have hN := b.tblsize_lt
        exact hle.trans (Nat.mul_le_mul_right _ (by omega))
      rw [nmembOf_eq hfits] at hrun ⊢
      exact h.moved ha hrun hle

end Reallocates

/-! ## Runs with reallocations -/

/-- A program that uses a memory area: the memory and the pointers in use. -/
structure Heap (b : Bank) where
  mem : Memory b
  live : List Live

inductive HeapOp
  | malloc (size : ℕ)
  | free (ptr : ℕ)
  | realloc (ptr size : ℕ)
  | store (address : ℕ) (byte : UInt8)

/-- A size the block counter can hold, or a request that fails. -/
def Fitting (d : MallcoDev b) (size : ℕ) : Prop :=
  size ≤ 65535 * b.memblksize ∨ (mymalloc size d).1 = 0

/-- The null pointer or a pointer in use. -/
def Known (live : List Live) (ptr : ℕ) : Prop := ptr = 0 ∨ ∃ a ∈ live, a.ptr = ptr

instance (d : MallcoDev b) (size : ℕ) : Decidable (Fitting d size) :=
  inferInstanceAs (Decidable (_ ∨ _))

instance (live : List Live) (ptr : ℕ) : Decidable (Known live ptr) :=
  inferInstanceAs (Decidable (_ ∨ _))

/-- What a program may do: any stores, and calls with known pointers. -/
def HeapLegal (h : Heap b) : HeapOp → Prop
  | .malloc size => Fitting h.mem.dev size
  | .free ptr => Known h.live ptr
  | .realloc ptr size => Known h.live ptr ∧ Fitting h.mem.dev size
  | .store _ _ => True

instance (h : Heap b) (op : HeapOp) : Decidable (HeapLegal h op) := by
  cases op <;> unfold HeapLegal <;> infer_instance

/-- The pointers in use when a request has been answered. -/
def withNew (live : List Live) (ptr size : ℕ) : List Live :=
  if ptr = 0 then live else ⟨ptr, size⟩ :: live

def Heap.apply (h : Heap b) : HeapOp → Heap b
  | .malloc size =>
    let (ptr, dev) := mymalloc size h.mem.dev
    ⟨{ h.mem with dev }, withNew h.live ptr size⟩
  | .free ptr => ⟨h.mem.free ptr, h.live.filter fun a => a.ptr ≠ ptr⟩
  | .realloc ptr size =>
    let (new, mem) := myrealloc ptr size h.mem
    ⟨mem, if new = 0 then h.live else (withNew h.live new size).filter fun a => a.ptr ≠ ptr⟩
  | .store address byte => ⟨h.mem.store address byte, h.live⟩

/-- The programs that use a memory area, from before its first use on. -/
def heaps (b : Bank) : Machine (Heap b) HeapOp where
  init := ⟨⟨boot b, fun _ => 0, [], []⟩, []⟩
  step h op := if HeapLegal h op then some (h.apply op) else none

section Runs

variable {h : Heap b} {d d' : MallcoDev b} {live : List Live} {L : Layout b.memtblsize}
  {ptr size : ℕ}

/-- Only the table counts. -/
theorem Represents.congr (hL : Represents ⟨d, live⟩ L) (hmap : d'.memmap = d.memmap)
    (hready : d'.memrdy = d.memrdy) : Represents ⟨d', live⟩ L :=
  ⟨hL.spans, fun j => hmap ▸ hL.memmap j, hL.ptr, fun hidle => hL.idle (hready.symm.trans hidle)⟩

theorem Represents.mymalloc (hL : Represents ⟨d, live⟩ L) (hfitting : Fitting d size) :
    ∃ L', Represents ⟨(mymalloc size d).2, withNew live (mymalloc size d).1 size⟩ L' := by
  rcases hfitting with hfits | hnull
  · have hlegal : Legal ⟨d, live⟩ (.malloc size) := hfits
    exact hL.step hlegal
  · -- a refusal changes nothing, but for the initialisation before the first use
    have hrefused (d : MallcoDev b) (hready : d.memrdy = true)
        (hnull : (Malloc.mymalloc size d).1 = 0) : Malloc.mymalloc size d = (0, d) := by
      rcases mymalloc_outcome size hready with ⟨-, heq⟩ | ⟨o, -, -, -, heq⟩
      · exact heq
      · rw [heq] at hnull
        exact absurd hnull (address_ne_zero o)
    cases hready : d.memrdy with
    | true =>
      rw [hrefused d hready hnull]
      exact ⟨L, hL⟩
    | false =>
      rw [mymalloc_of_not_ready size hready] at hnull ⊢
      rw [hrefused _ rfl hnull]
      exact ⟨L, hL.init hready⟩

theorem Represents.myfree (hL : Represents ⟨d, live⟩ L) (hknown : Known live ptr) :
    ∃ L', Represents ⟨myfree ptr d, live.filter fun a => a.ptr ≠ ptr⟩ L' := by
  have hlegal : Legal ⟨d, live⟩ (.free ptr) := hknown
  exact hL.step hlegal

theorem Known.withNew (hknown : Known live ptr) (new size : ℕ) :
    Known (withNew live new size) ptr := by
  rw [Malloc.withNew]
  split_ifs
  · exact hknown
  · exact hknown.imp_right fun ⟨a, ha, hptr⟩ => ⟨a, List.mem_cons_of_mem _ ha, hptr⟩

theorem Represents.myrealloc {m : Memory b} (hL : Represents ⟨m.dev, live⟩ L)
    (hready : m.dev.memrdy = true) (hknown : Known live ptr) (hfitting : Fitting m.dev size) :
    ∃ L', Represents ⟨((Heap.mk m live).apply (.realloc ptr size)).mem.dev,
      ((Heap.mk m live).apply (.realloc ptr size)).live⟩ L' := by
  obtain ⟨L', hL'⟩ := hL.mymalloc hfitting
  rcases myrealloc_outcome ptr size hready with ⟨-, -, heq⟩ | ⟨o, -, -, -, hmalloc, heq⟩
  · exact ⟨L, by simpa only [Heap.apply, heq, if_true] using hL⟩
  · rw [hmalloc] at hL'
    obtain ⟨hmap, hrdy⟩ : (mymemcpy (b.membase + o * b.memblksize) ptr size
          (m.take o (nmembOf b size))).dev.memmap = (m.take o (nmembOf b size)).dev.memmap ∧
        (mymemcpy (b.membase + o * b.memblksize) ptr size
          (m.take o (nmembOf b size))).dev.memrdy = (m.take o (nmembOf b size)).dev.memrdy :=
      table_mymemcpy
    have hcopied := (hL'.congr hmap hrdy).myfree (hknown.withNew _ size)
    simp only [Heap.apply, heq, if_neg (address_ne_zero o)]
    exact hcopied

theorem Represents.heap_step (hL : Represents ⟨h.mem.dev, h.live⟩ L) {op : HeapOp}
    (hlegal : HeapLegal h op) :
    ∃ L', Represents ⟨(h.apply op).mem.dev, (h.apply op).live⟩ L' := by
  cases op with
  | malloc size => exact hL.mymalloc hlegal
  | free ptr => exact hL.myfree hlegal
  | realloc ptr size =>
    cases hready : h.mem.dev.memrdy with
    | true => exact hL.myrealloc hready hlegal.1 hlegal.2
    | false =>
      -- the area is initialised first
      have hsame : Malloc.myrealloc ptr size h.mem =
          Malloc.myrealloc ptr size { h.mem with dev := myMemInit h.mem.dev } := by
        simp only [Malloc.myrealloc, myMemMalloc_of_not_ready hready]
      have hfitting : Fitting (myMemInit h.mem.dev) size := by
        simpa only [Fitting, mymalloc_of_not_ready size hready] using hlegal.2
      have hinit := (hL.init hready).myrealloc (m := { h.mem with dev := myMemInit h.mem.dev })
        rfl hlegal.1 hfitting
      simpa only [Heap.apply, hsame] using hinit
  | store address byte =>
    exact ⟨L, hL.congr Memory.memmap_store Memory.memrdy_store⟩

theorem represents_of_heaps (hreach : (heaps b).Reachable h) :
    ∃ L, Represents ⟨h.mem.dev, h.live⟩ L := by
  refine hreach.invariant (P := fun h => ∃ L, Represents ⟨h.mem.dev, h.live⟩ L)
    ⟨_, represents_boot⟩ ?_
  rintro h op h' ⟨L, hL⟩ hstep
  simp only [heaps] at hstep
  split_ifs at hstep with hlegal
  obtain rfl := Option.some.inj hstep
  exact hL.heap_step hlegal

end Runs

/-- **Reallocation.** In every state a program reaches, a reallocation does what it should exactly
if its allocation fails or the new size fits into the blocks the old block has. -/
theorem reallocates_iff {h : Heap b} (hreach : (heaps b).Reachable h) {a : Live} (ha : a ∈ h.live)
    {t : ℕ} (ht : 0 < t) :
    Reallocates h.mem h.live a t ↔
      Excluded t h.mem.dev ∨ t ≤ blocks b a.size * b.memblksize := by
  obtain ⟨L, hL⟩ := represents_of_heaps hreach
  exact hL.moves_iff ha ht

/-- The heap after a request for one byte. -/
def oneByte (b : Bank) : Heap b := (heaps b).init.apply (.malloc 1)

theorem oneByte_reachable (b : Bank) : (heaps b).Reachable (oneByte b) := by
  refine ⟨[.malloc 1], Machine.exec_of_run ?_⟩
  have hblk := b.blksize_pos
  have hlegal : HeapLegal (heaps b).init (.malloc 1) := .inl (by omega)
  have hstep : (heaps b).step (heaps b).init (.malloc 1) = some (oneByte b) := if_pos hlegal
  rw [Machine.run_cons, hstep]
  rfl

/-- A block of one byte in the internal pool grows to the 32 bytes it has. -/
theorem reallocates_within_block :
    Reallocates (oneByte Net.sram).mem (oneByte Net.sram).live
      ⟨0x20000000 + 1055 * 32, 1⟩ 32 :=
  (reallocates_iff (oneByte_reachable Net.sram) (List.mem_singleton.mpr rfl) (by decide)).mpr
    (.inr (by decide))

/-- Growing it by one more byte reads the byte behind the pool. -/
theorem not_reallocates_past_pool :
    (heaps Net.sram).Reachable (oneByte Net.sram) ∧
      ¬ Reallocates (oneByte Net.sram).mem (oneByte Net.sram).live
        ⟨0x20000000 + 1055 * 32, 1⟩ 33 := by
  refine ⟨oneByte_reachable Net.sram, fun hmoved => ?_⟩
  obtain ⟨L, hL⟩ := represents_of_heaps (oneByte_reachable Net.sram)
  have hmem : ⟨0x20000000 + 1055 * 32, 1⟩ ∈ (oneByte Net.sram).live := List.mem_singleton.mpr rfl
  rcases (hL.moves_iff hmem (by decide)).mp hmoved with hnone | hle
  · -- there is room for the two blocks of 33 bytes
    have hblocks : blocks Net.sram 33 % 65536 = 2 := rfl
    rw [Excluded, hblocks, if_neg (by decide)] at hnone
    refine hnone 0 ⟨by decide, fun j _ hj => ?_⟩
    have hcases : j = 0 ∨ j = 1 := by omega
    rcases hcases with rfl | rfl <;> rfl
  · exact absurd hle (by decide)

end FanGateway.Malloc
