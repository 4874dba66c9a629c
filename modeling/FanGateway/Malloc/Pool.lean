import FanGateway.Lib.Buffer
import Mathlib.Algebra.GroupWithZero.Nat
import Mathlib.Order.Bounds.Basic

/-!
# The memory pool

An allocator over a table with one entry for each block of a pool. An allocation
is found by a scan from the last block down to the first that counts free blocks
in a row; its length is then written into every entry it covers. Freeing reads
the length back from the first entry and clears as many.

Counters and entries have sixteen bits, sizes, offsets and pointers thirty-two.
-/

namespace FanGateway.Malloc

open Lib

/-- The constants of one memory area: the entries of its table, the bytes of a
block, and the address of its pool, which lies in memory and not at address 0. -/
structure Bank where
  memtblsize : ℕ
  memblksize : ℕ
  membase : ℕ
  tblsize_pos : 0 < memtblsize
  tblsize_lt : memtblsize < 65536
  blksize_pos : 0 < memblksize
  memsize_lt : memtblsize * memblksize < 2 ^ 32 - 1
  base_pos : 0 < membase
  base_le : membase + memtblsize * memblksize ≤ 2 ^ 32

/-- The bytes of the pool. -/
def Bank.memsize (b : Bank) : ℕ := b.memtblsize * b.memblksize

/-- The external memory area. -/
def sramex : Bank where
  memtblsize := 4
  memblksize := 32
  membase := 0x68000000
  tblsize_pos := by decide
  tblsize_lt := by decide
  blksize_pos := by decide
  memsize_lt := by decide
  base_pos := by decide
  base_le := by decide

/-- The state of one memory area. -/
structure MallcoDev (b : Bank) where
  memmap : Buffer ℕ b.memtblsize
  pool : Buffer UInt8 b.memsize
  memrdy : Bool

variable {b : Bank}

/-- The state before the first call. -/
def boot (b : Bank) : MallcoDev b := ⟨fun _ => 0, fun _ => 0, false⟩

/-! ## The functions of `malloc.c` -/

/-- Clear the table and the pool, whatever they hold. -/
def myMemInit (_ : MallcoDev b) : MallcoDev b := ⟨fun _ => 0, fun _ => 0, true⟩

/-- The percentage of blocks in use. -/
def myMemPerused (d : MallcoDev b) : ℕ :=
  let used := forRange 0 b.memtblsize
    (fun i used => if d.memmap.peek i ≠ 0 then (used + 1) % 2 ^ 32 else used) 0
  used * 100 % 2 ^ 32 / b.memtblsize % 256

/-- The number of blocks of a request, as the sixteen-bit counter gets it. -/
def nmembOf (b : Bank) (size : ℕ) : ℕ :=
  let nmemb := size / b.memblksize % 65536
  if size % b.memblksize ≠ 0 then (nmemb + 1) % 65536 else nmemb

/-- The scan over the entries below `offset`, with `cmemb` free blocks in a row so
far. -/
def search {n : ℕ} (memmap : Buffer ℕ n) (nmemb : ℕ) : ℕ → ℕ → Option ℕ
  | 0, _ => none
  | offset + 1, cmemb =>
    let cmemb := if memmap.peek offset = 0 then (cmemb + 1) % 65536 else 0
    if cmemb = nmemb then some offset else search memmap nmemb offset cmemb

/-- Write the block count into the entries of an allocation. -/
def mark {n : ℕ} (memmap : Buffer ℕ n) (offset nmemb : ℕ) : Buffer ℕ n :=
  forRange 0 nmemb (fun i memmap => memmap.poke (i + offset) nmemb) memmap

/-- Clear a number of entries. -/
def clear {n : ℕ} (memmap : Buffer ℕ n) (index nmemb : ℕ) : Buffer ℕ n :=
  forRange 0 nmemb (fun i memmap => memmap.poke (i + index) 0) memmap

/-- Allocate: the offset of the allocation in the pool, or `0xFFFFFFFF`. -/
def myMemMalloc (size : ℕ) (d : MallcoDev b) : ℕ × MallcoDev b :=
  -- the first call initialises the area
  let d := if d.memrdy then d else myMemInit d
  if size = 0 then (0xFFFFFFFF, d)
  else
    let nmemb := nmembOf b size
    match search d.memmap nmemb b.memtblsize 0 with
    | some offset =>
      (offset * b.memblksize % 2 ^ 32, { d with memmap := mark d.memmap offset nmemb })
    | none => (0xFFFFFFFF, d)

/-- Free by offset: 0 for success, 1 if the area was not ready, 2 outside the pool. -/
def myMemFree (offset : ℕ) (d : MallcoDev b) : ℕ × MallcoDev b :=
  if d.memrdy = false then (1, myMemInit d)
  else if offset < b.memsize then
    let index := offset / b.memblksize
    -- the block count is that of the first entry, whatever was passed
    let nmemb := d.memmap.peek index
    (0, { d with memmap := clear d.memmap index nmemb })
  else (2, d)

def myfree (ptr : ℕ) (d : MallcoDev b) : MallcoDev b :=
  if ptr = 0 then d
  else (myMemFree ((ptr + 2 ^ 32 - b.membase) % 2 ^ 32) d).2

/-- Allocate: the address of the allocation, or 0. -/
def mymalloc (size : ℕ) (d : MallcoDev b) : ℕ × MallcoDev b :=
  let (offset, d) := myMemMalloc size d
  if offset = 0xFFFFFFFF then (0, d) else ((b.membase + offset) % 2 ^ 32, d)

/-! ## The table -/

/-- The entries from `o` on are zero, `n` of them. -/
def FreeRun {N : ℕ} (memmap : Buffer ℕ N) (n o : ℕ) : Prop :=
  o + n ≤ N ∧ ∀ j, o ≤ j → j < o + n → memmap.peek j = 0

section Table

variable {N n o j : ℕ} {memmap : Buffer ℕ N}

theorem peek_mark :
    (mark memmap o n).peek j = if o ≤ j ∧ j < o + n ∧ j < N then n else memmap.peek j := by
  rw [mark, Buffer.peek_forRange_poke (g := fun _ => n)]
  exact if_congr (by omega) rfl rfl

theorem peek_clear :
    (clear memmap o n).peek j = if o ≤ j ∧ j < o + n then 0 else memmap.peek j := by
  rw [clear, Buffer.peek_forRange_poke (g := fun _ => 0)]
  by_cases hj : j < N
  · exact if_congr (by omega) rfl rfl
  · rw [if_neg (by omega), Buffer.peek_of_le (by omega)]
    exact (ite_self _).symm

/-- Clearing what was marked on free entries restores the table. -/
theorem clear_mark (h : FreeRun memmap n o) : clear (mark memmap o n) o n = memmap := by
  apply Buffer.ext_peek
  intro j hj
  rw [peek_clear]
  split_ifs with hin
  · exact (h.2 j hin.1 hin.2).symm
  · rw [peek_mark, if_neg fun h' => hin ⟨h'.1, h'.2.1⟩]

/-- A scan finds an entry of the table. -/
theorem search_lt {c i : ℕ} (h : search memmap n o c = some i) : i < o := by
  induction o generalizing c with
  | zero => exact absurd h (by simp [search])
  | succ o ih =>
    rw [search] at h
    -- it does not matter how long the row is
    generalize (if memmap.peek o = 0 then (c + 1) % 65536 else 0) = c' at h
    split_ifs at h
    · obtain rfl := Option.some.inj h
      exact Nat.lt_succ_self o
    · exact (ih h).trans (Nat.lt_succ_self o)

/-- What a scan has found out about runs of `n` free entries. -/
def Found (memmap : Buffer ℕ N) (n : ℕ) : Option ℕ → Prop
  | some o => IsGreatest {o | FreeRun memmap n o} o
  | none => ∀ o, ¬ FreeRun memmap n o

/-- The scan continued with `c` free entries in a row, no free run above and the
entry above those `c` taken or past the end. -/
private theorem search_found_of_below (hsmall : n < 65536) (c : ℕ) (hcount : c < n)
    (hfree : ∀ j, o ≤ j → j < o + c → memmap.peek j = 0)
    (hend : o + c = N ∨ memmap.peek (o + c) ≠ 0)
    (habove : ∀ o', o ≤ o' → ¬ FreeRun memmap n o') :
    Found memmap n (search memmap n o c) := by
  -- induction on the entries left to scan; `c` counts the free ones just above
  induction o generalizing c with
  | zero => exact fun o' => habove o' (Nat.zero_le _)
  | succ o ih =>
    rw [search]
    by_cases hzero : memmap.peek o = 0
    · have hnext : (c + 1) % 65536 = c + 1 := Nat.mod_eq_of_lt (by omega)
      have hrow (j : ℕ) (hlo : o ≤ j) (hhi : j < o + (c + 1)) : memmap.peek j = 0 := by
        rcases Nat.eq_or_lt_of_le hlo with rfl | hlt
        · exact hzero
        · exact hfree j hlt (by omega)
      have hend' : o + (c + 1) = N ∨ memmap.peek (o + (c + 1)) ≠ 0 := by
        rwa [Nat.add_right_comm, Nat.add_assoc] at hend
      have hle : o + (c + 1) ≤ N := by
        rcases hend' with heq | hne
        · exact heq.le
        · by_contra hgt
          exact hne (Buffer.peek_of_le (by omega))
      simp only [hzero, if_true, hnext]
      -- the row is long enough, or the scan goes on with a longer row
      by_cases hfull : c + 1 = n
      · rw [if_pos hfull]
        refine ⟨⟨hfull ▸ hle, fun j hlo hhi => hrow j hlo (by omega)⟩, fun o' ho' => ?_⟩
        by_contra hgt
        exact habove o' (by omega) ho'
      · rw [if_neg hfull]
        apply ih (c + 1) (by omega) hrow hend'
        intro o' ho' hrun
        rcases Nat.eq_or_lt_of_le ho' with rfl | hlt
        · rcases hend' with heq | hne
          · have hroom := hrun.1
            omega
          · exact hne (hrun.2 _ (by omega) (by omega))
        · exact habove o' hlt hrun
    · -- a taken entry: the row starts anew below it
      have hother : ¬ 0 = n := by omega
      simp only [hzero, if_false, if_neg hother]
      refine ih 0 (by omega) (fun j hlo hhi => absurd hhi (by omega)) (.inr hzero) ?_
      intro o' ho' hrun
      rcases Nat.eq_or_lt_of_le ho' with rfl | hlt
      · exact hzero (hrun.2 _ le_rfl (by omega))
      · exact habove o' hlt hrun

/-- The scan finds the last run of `n` free entries. -/
theorem search_found (hpos : 0 < n) (hsmall : n < 65536) :
    Found memmap n (search memmap n N 0) := by
  refine search_found_of_below hsmall 0 hpos (fun j hlo hhi => absurd hhi (by omega)) (.inl rfl) ?_
  intro o hle hrun
  have hroom := hrun.1
  omega

end Table

/-! ## Specifications -/

/-- The blocks a request needs. -/
def blocks (b : Bank) (size : ℕ) : ℕ := (size + b.memblksize - 1) / b.memblksize

theorem blocks_pos {size : ℕ} (h : 0 < size) : 0 < blocks b size := by
  have hblk := b.blksize_pos
  exact Nat.div_pos (by omega) hblk

/-- The blocks of a request hold as many bytes as requested. -/
theorem le_blocks_mul (size : ℕ) : size ≤ blocks b size * b.memblksize := by
  have hblk := b.blksize_pos
  have hlast := Nat.lt_div_mul_add (a := size + b.memblksize - 1) hblk
  rw [blocks]
  omega

theorem blocks_le {size : ℕ} (h : size ≤ 65535 * b.memblksize) : blocks b size ≤ 65535 := by
  have hblk := b.blksize_pos
  rw [blocks, Nat.div_le_iff_le_mul_add_pred hblk]
  omega

/-- The offset of a block fits into thirty-two bits. -/
theorem offset_lt {o : ℕ} (h : o < b.memtblsize) : o * b.memblksize < 2 ^ 32 := by
  have hmul := Nat.mul_le_mul_right b.memblksize h.le
  have hsize := b.memsize_lt
  omega

/-- The counter keeps the last sixteen bits of the block count. -/
theorem nmembOf_eq_mod (size : ℕ) : nmembOf b size = blocks b size % 65536 := by
  have hblk := b.blksize_pos
  -- the quotient, and one more if there is a rest
  have hceil : blocks b size =
      size / b.memblksize + if size % b.memblksize ≠ 0 then 1 else 0 := by
    rw [blocks]
    have hdecomp := Nat.div_add_mod' size b.memblksize
    have hmod := Nat.mod_lt size hblk
    refine Nat.div_eq_of_lt_le ?_ ?_ <;> split_ifs <;> simp only [Nat.add_mul] <;> omega
  rw [nmembOf]
  split_ifs at hceil ⊢ <;> omega

/-- The counter holds the block count of every request it has room for. -/
theorem nmembOf_eq {size : ℕ} (h : size ≤ 65535 * b.memblksize) :
    nmembOf b size = blocks b size := by
  rw [nmembOf_eq_mod, Nat.mod_eq_of_lt (Nat.lt_succ_of_le (blocks_le h))]

theorem nmembOf_lt (size : ℕ) : nmembOf b size < 65536 := by
  rw [nmembOf_eq_mod]
  exact Nat.mod_lt _ (by omega)

theorem myMemMalloc_of_not_ready {d : MallcoDev b} {size : ℕ} (h : d.memrdy = false) :
    myMemMalloc size d = myMemMalloc size (myMemInit d) := by
  simp [myMemMalloc, h, myMemInit]

theorem mymalloc_of_not_ready {d : MallcoDev b} (size : ℕ) (h : d.memrdy = false) :
    mymalloc size d = mymalloc size (myMemInit d) := by
  simp only [mymalloc, myMemMalloc_of_not_ready h]

/-- What an allocation does, by the block count the counter gets: it fails and changes nothing, or
it takes the last run of that many free blocks. -/
theorem myMemMalloc_cases_nmembOf {d : MallcoDev b} {size : ℕ} (hready : d.memrdy = true)
    (hpos : 0 < size) (hn : 0 < nmembOf b size) :
    ((∀ o, ¬ FreeRun d.memmap (nmembOf b size) o) ∧ myMemMalloc size d = (0xFFFFFFFF, d)) ∨
      ∃ o, IsGreatest {o | FreeRun d.memmap (nmembOf b size) o} o ∧
        myMemMalloc size d =
          (o * b.memblksize, { d with memmap := mark d.memmap o (nmembOf b size) }) := by
  have hfound : Found d.memmap (nmembOf b size)
      (search d.memmap (nmembOf b size) b.memtblsize 0) := search_found hn (nmembOf_lt size)
  simp only [myMemMalloc, hready, if_true, if_neg hpos.ne']
  cases hsearch : search d.memmap (nmembOf b size) b.memtblsize 0 with
  | none =>
    rw [hsearch] at hfound
    exact .inl ⟨hfound, rfl⟩
  | some o =>
    rw [hsearch] at hfound
    have hlt : o < b.memtblsize := by
      have hroom := hfound.1.1
      omega
    exact .inr ⟨o, hfound, by simp only [Nat.mod_eq_of_lt (offset_lt hlt)]⟩

/-- What an allocation does whose block count the counter holds. -/
theorem myMemMalloc_cases {d : MallcoDev b} {size : ℕ} (hready : d.memrdy = true)
    (hfits : size ≤ 65535 * b.memblksize) :
    ((size = 0 ∨ ∀ o, ¬ FreeRun d.memmap (blocks b size) o) ∧
        myMemMalloc size d = (0xFFFFFFFF, d)) ∨
      ∃ o, 0 < size ∧ IsGreatest {o | FreeRun d.memmap (blocks b size) o} o ∧
        myMemMalloc size d =
          (o * b.memblksize, { d with memmap := mark d.memmap o (blocks b size) }) := by
  rcases Nat.eq_zero_or_pos size with rfl | hpos
  · exact .inl ⟨.inl rfl, by simp [myMemMalloc, hready]⟩
  · have hn := blocks_pos (b := b) hpos
    have hcases := myMemMalloc_cases_nmembOf hready hpos (by rwa [nmembOf_eq hfits])
    rw [nmembOf_eq hfits] at hcases
    rcases hcases with ⟨hnone, heq⟩ | ⟨o, hgreatest, heq⟩
    · exact .inl ⟨.inr hnone, heq⟩
    · exact .inr ⟨o, hpos, hgreatest, heq⟩

/-- The offset of a block is not the one that stands for a failed allocation. -/
theorem offset_ne {o : ℕ} (h : o < b.memtblsize) : o * b.memblksize ≠ 0xFFFFFFFF := by
  have hmul := Nat.mul_le_mul_right b.memblksize h.le
  have hsize := b.memsize_lt
  omega

theorem mymalloc_of_none {d d' : MallcoDev b} {size : ℕ}
    (h : myMemMalloc size d = (0xFFFFFFFF, d')) : mymalloc size d = (0, d') := by
  simp [mymalloc, h]

/-- The pointer to a block is its address, which is not 0. -/
theorem mymalloc_of_offset {d d' : MallcoDev b} {size o : ℕ} (hlt : o < b.memtblsize)
    (h : myMemMalloc size d = (o * b.memblksize, d')) :
    mymalloc size d = (b.membase + o * b.memblksize, d') := by
  have hblk := b.blksize_pos
  have hmul : o * b.memblksize < b.memtblsize * b.memblksize := Nat.mul_lt_mul_of_pos_right hlt hblk
  have hbase := b.base_le
  simp only [mymalloc, h]
  rw [if_neg (offset_ne hlt), Nat.mod_eq_of_lt (by omega)]

/-- The address of a block is not the null pointer. -/
theorem address_ne_zero (o : ℕ) : b.membase + o * b.memblksize ≠ 0 := by
  have hbase := b.base_pos
  omega

/-- The same for the pointer an allocation returns. -/
theorem mymalloc_cases {d : MallcoDev b} {size : ℕ} (hready : d.memrdy = true)
    (hfits : size ≤ 65535 * b.memblksize) :
    ((size = 0 ∨ ∀ o, ¬ FreeRun d.memmap (blocks b size) o) ∧ mymalloc size d = (0, d)) ∨
      ∃ o, 0 < size ∧ IsGreatest {o | FreeRun d.memmap (blocks b size) o} o ∧
        mymalloc size d = (b.membase + o * b.memblksize,
          { d with memmap := mark d.memmap o (blocks b size) }) := by
  rcases myMemMalloc_cases hready hfits with ⟨hnone, heq⟩ | ⟨o, hpos, hgreatest, heq⟩
  · exact .inl ⟨hnone, mymalloc_of_none heq⟩
  · have hn := blocks_pos (b := b) hpos
    have hroom := hgreatest.1.1
    exact .inr ⟨o, hpos, hgreatest, mymalloc_of_offset (by omega) heq⟩

/-- Freeing the allocation that starts at a block clears as many entries as the first one
says. -/
theorem myMemFree_eq {d : MallcoDev b} {o : ℕ} (hready : d.memrdy = true)
    (hlt : o < b.memtblsize) :
    myMemFree (o * b.memblksize) d =
      (0, { d with memmap := clear d.memmap o (d.memmap.peek o) }) := by
  have hblk := b.blksize_pos
  have hmul : o * b.memblksize < b.memsize := Nat.mul_lt_mul_of_pos_right hlt hblk
  rw [myMemFree, hready, if_neg (by simp), if_pos hmul, Nat.mul_div_cancel _ hblk]

/-- The same by pointer. -/
theorem myfree_eq {d : MallcoDev b} {o : ℕ} (hready : d.memrdy = true)
    (hlt : o < b.memtblsize) :
    myfree (b.membase + o * b.memblksize) d =
      { d with memmap := clear d.memmap o (d.memmap.peek o) } := by
  have hbase := b.base_pos
  have hoffset : (b.membase + o * b.memblksize + 2 ^ 32 - b.membase) % 2 ^ 32 =
      o * b.memblksize := by
    rw [Nat.add_assoc, Nat.add_sub_cancel_left, Nat.add_mod_right,
      Nat.mod_eq_of_lt (offset_lt hlt)]
  rw [myfree, if_neg (by omega), hoffset, myMemFree_eq hready hlt]

end FanGateway.Malloc
