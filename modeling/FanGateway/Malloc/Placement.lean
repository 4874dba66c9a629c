import FanGateway.Malloc.Session
import FanGateway.Net.CommInit

/-!
# Where the allocator places a request

For a block count that fits the counter the search is complete: it fails only if
no run of that many free blocks exists, and otherwise takes the highest one,
whatever the table holds.

The counter keeps sixteen bits of the block count. A request larger than the
pool, whose count is longer, is treated as one of the count that is left. If
nothing is left, every taken entry ends the search at once, and the request is
answered with the highest block in use.
-/

namespace FanGateway.Malloc

open Lib

variable {b : Bank} {d : MallcoDev b} {size : ℕ}

/-! ## Requests the counter can hold -/

/-- **Placement.** An allocation fails, and changes nothing, exactly if no run of free blocks is
long enough; otherwise it takes the highest such run and labels it with its length. -/
theorem myMemMalloc_places (hready : d.memrdy = true) (hpos : 1 ≤ blocks b size)
    (hle : blocks b size ≤ 65535) :
    ((myMemMalloc size d).1 = 0xFFFFFFFF ↔ ∀ o, ¬ FreeRun d.memmap (blocks b size) o) ∧
      ((∀ o, ¬ FreeRun d.memmap (blocks b size) o) → (myMemMalloc size d).2 = d) ∧
      ∀ o, IsGreatest {o | FreeRun d.memmap (blocks b size) o} o →
        (myMemMalloc size d).1 = o * b.memblksize ∧
          (myMemMalloc size d).2.pool = d.pool ∧
          ∀ j, (myMemMalloc size d).2.memmap.peek j =
            if o ≤ j ∧ j < o + blocks b size then blocks b size else d.memmap.peek j := by
  have hfits : size ≤ 65535 * b.memblksize :=
    (le_blocks_mul size).trans (Nat.mul_le_mul_right _ hle)
  have hsize : size ≠ 0 := by
    rintro rfl
    have hblk := b.blksize_pos
    rw [blocks, Nat.zero_add, Nat.div_eq_of_lt (by omega)] at hpos
    omega
  rcases myMemMalloc_cases hready hfits with ⟨hnone, heq⟩ | ⟨o, -, hgreatest, heq⟩
  · have hnone : ∀ o, ¬ FreeRun d.memmap (blocks b size) o := hnone.resolve_left hsize
    refine ⟨by simp [heq, hnone], fun _ => by rw [heq], fun o ho => absurd ho.1 (hnone o)⟩
  · have hrun : FreeRun d.memmap (blocks b size) o := hgreatest.1
    have hroom := hrun.1
    refine ⟨iff_of_false ?_ fun h => h o hrun, fun h => absurd hrun (h o), fun o' ho' => ?_⟩
    · rw [heq]
      exact offset_ne (by omega)
    · obtain rfl := hgreatest.unique ho'
      refine ⟨by rw [heq], by rw [heq], fun j => ?_⟩
      simp only [heq, peek_mark]
      exact if_congr (by omega) rfl rfl

/-- The external area when the last of its four blocks is in use. -/
def lastTaken : MallcoDev sramex := ⟨fun i => if i.val = 3 then 1 else 0, fun _ => 0, true⟩

/-- Two blocks are then the second and the third. -/
theorem myMemMalloc_places_lastTaken : (myMemMalloc 40 lastTaken).1 = 32 := by
  have hplaces := @myMemMalloc_places sramex lastTaken 40 rfl (by decide) (by decide)
  have hgreatest : Found lastTaken.memmap 2 (some 1) := search_found (by decide) (by decide)
  exact (hplaces.2.2 1 hgreatest).1

/-! ## Oversized requests -/

/-- Calls with any sizes and pointers, from before the first use on. -/
def calls (b : Bank) : Machine (MallcoDev b) Op where
  init := boot b
  step d
    | .malloc size => some (mymalloc size d).2
    | .free ptr => some (myfree ptr d)

/-- An area that is not ready has not been used. -/
def Unused (d : MallcoDev b) : Prop := d.memrdy = false → ∀ j, d.memmap.peek j = 0

/-- An allocation leaves the area ready. -/
theorem memrdy_mymalloc : (mymalloc size d).2.memrdy = true := by
  have hoffset : (myMemMalloc size d).2.memrdy = true := by
    have hinit : (if d.memrdy then d else myMemInit d).memrdy = true := by
      split_ifs with hready
      · exact hready
      · rfl
    simp only [myMemMalloc]
    generalize (if d.memrdy then d else myMemInit d) = d' at hinit ⊢
    split_ifs
    · exact hinit
    · cases search d'.memmap (nmembOf b size) b.memtblsize 0 <;> exact hinit
  simp only [mymalloc]
  split_ifs <;> exact hoffset

/-- A free leaves the area unready only if it does nothing. -/
theorem myMemFree_of_not_ready {offset : ℕ} (h : (myMemFree offset d).2.memrdy = false) :
    (myMemFree offset d).2 = d := by
  rw [myMemFree] at h ⊢
  split_ifs at h ⊢ with hidle
  · exact absurd h (Bool.true_eq_false ▸ not_false)
  · exact absurd h hidle
  · rfl

theorem myfree_of_not_ready {ptr : ℕ} (h : (myfree ptr d).memrdy = false) :
    myfree ptr d = d := by
  rw [myfree] at h ⊢
  split_ifs at h ⊢
  · rfl
  · exact myMemFree_of_not_ready h

theorem unused_of_reachable (h : (calls b).Reachable d) : Unused d := by
  refine h.invariant (P := Unused) (fun _ _ => by simp [calls, boot, Buffer.peek]) ?_
  intro d op d' hunused hstep
  cases op with
  | malloc size =>
    obtain rfl := Option.some.inj hstep
    intro hnot
    rw [memrdy_mymalloc] at hnot
    exact absurd hnot (by decide)
  | free ptr =>
    obtain rfl := Option.some.inj hstep
    intro hnot
    have hsame := myfree_of_not_ready hnot
    rw [hsame] at hnot ⊢
    exact hunused hnot

/-! ## Allocation and free -/

/-- There is a free run for a request. -/
def HasRoom (size : ℕ) (d : MallcoDev b) : Prop := ∃ o, FreeRun d.memmap (blocks b size) o

/-- The first call finds the table as it leaves it. -/
theorem Unused.memmap_init (h : Unused d) (hready : d.memrdy = false) :
    (myMemInit d).memmap = d.memmap := by
  apply Buffer.ext_peek
  intro j _
  rw [h hready j]
  simp [myMemInit, Buffer.peek]

theorem mymalloc_spec_of_ready (hready : d.memrdy = true) (hfits : size ≤ 65535 * b.memblksize) :
    ((mymalloc size d).1 ≠ 0 ↔ 0 < size ∧ HasRoom size d) ∧
      ((mymalloc size d).1 ≠ 0 → (mymalloc size d).1 + size ≤ 2 ^ 32) := by
  rcases mymalloc_cases hready hfits with ⟨hnone, heq⟩ | ⟨o, hpos, hgreatest, heq⟩
  · rw [heq]
    refine ⟨iff_of_false (fun hne => hne rfl) ?_, fun hne => absurd rfl hne⟩
    rintro ⟨hpos, o, hrun⟩
    exact hnone.resolve_left hpos.ne' o hrun
  · have hrun : FreeRun d.memmap (blocks b size) o := hgreatest.1
    have hmul := Nat.mul_le_mul_right b.memblksize hrun.1
    have hsize := le_blocks_mul (b := b) size
    have hbase := b.base_le
    rw [Nat.add_mul] at hmul
    rw [heq]
    refine ⟨iff_of_true (address_ne_zero o) ⟨hpos, o, hrun⟩, fun _ => ?_⟩
    dsimp only
    omega

/-- An allocation succeeds if there is room, and the block lies in memory. -/
theorem Unused.mymalloc_spec (h : Unused d) (hfits : size ≤ 65535 * b.memblksize) :
    ((mymalloc size d).1 ≠ 0 ↔ 0 < size ∧ HasRoom size d) ∧
      ((mymalloc size d).1 ≠ 0 → (mymalloc size d).1 + size ≤ 2 ^ 32) := by
  cases hready : d.memrdy with
  | true => exact mymalloc_spec_of_ready hready hfits
  | false =>
    have hspec := mymalloc_spec_of_ready (d := myMemInit d) rfl hfits
    simpa only [mymalloc_of_not_ready size hready, HasRoom, h.memmap_init hready] using hspec

/-- What a free does to the table does not depend on the bytes of the pool. -/
theorem memmap_myfree_congr {d' : MallcoDev b} (hmap : d'.memmap = d.memmap)
    (hrdy : d'.memrdy = d.memrdy) (ptr : ℕ) : (myfree ptr d').memmap = (myfree ptr d).memmap := by
  simp only [myfree, myMemFree, hmap, hrdy, myMemInit]
  split_ifs
  · exact hmap
  · rfl
  · rfl
  · exact hmap

/-- A free undoes the allocation before it, whatever has been stored since. -/
theorem Unused.memmap_free (h : Unused d) (hfits : size ≤ 65535 * b.memblksize) {d' : MallcoDev b}
    (hmap : d'.memmap = (mymalloc size d).2.memmap) (hrdy : d'.memrdy = true) :
    (myfree (mymalloc size d).1 d').memmap = d.memmap := by
  rw [memmap_myfree_congr hmap (hrdy.trans memrdy_mymalloc.symm)]
  cases hready : d.memrdy with
  | true => rw [myfree_mymalloc hready hfits]
  | false => rw [mymalloc_of_not_ready size hready, myfree_mymalloc rfl hfits, h.memmap_init hready]

/-- A failed allocation leaves the table alone. -/
theorem Unused.memmap_of_null (h : Unused d) (hfits : size ≤ 65535 * b.memblksize)
    (hnull : (mymalloc size d).1 = 0) : (mymalloc size d).2.memmap = d.memmap := by
  have hfree := h.memmap_free hfits rfl memrdy_mymalloc
  rwa [hnull, myfree, if_pos rfl] at hfree

/-- A request is refused: no pointer, and the table is as before. -/
def Refuses (size : ℕ) (d : MallcoDev b) : Prop :=
  (mymalloc size d).1 = 0 ∧ ∀ j, (mymalloc size d).2.memmap.peek j = d.memmap.peek j

/-- With `n` the last sixteen bits of the block count: the table has no run of `n` free blocks,
and if `n` is 0, no block is in use. -/
def Excluded (size : ℕ) (d : MallcoDev b) : Prop :=
  if blocks b size % 65536 = 0 then ∀ j, d.memmap.peek j = 0
  else ∀ o, ¬ FreeRun d.memmap (blocks b size % 65536) o

/-- Without a block count the search ends at the first taken entry. -/
theorem search_zero {n o c : ℕ} (memmap : Buffer ℕ n) (h : o + c < 65536) :
    (search memmap 0 o c = none ∧ ∀ j < o, memmap.peek j = 0) ∨
      ∃ i < o, search memmap 0 o c = some i ∧ memmap.peek i ≠ 0 := by
  -- induction on the entries left to scan; the row above is too short to overflow the counter
  induction o generalizing c with
  | zero => exact .inl ⟨rfl, fun j hj => absurd hj (Nat.not_lt_zero j)⟩
  | succ o ih =>
    rw [search]
    by_cases hzero : memmap.peek o = 0
    · have hnext : (c + 1) % 65536 = c + 1 := Nat.mod_eq_of_lt (by omega)
      simp only [hzero, if_true, hnext, if_neg (Nat.succ_ne_zero c)]
      rcases ih (c := c + 1) (by omega) with ⟨hnone, hall⟩ | ⟨i, hi, hsome, htaken⟩
      · refine .inl ⟨hnone, fun j hj => ?_⟩
        rcases Nat.lt_succ_iff_lt_or_eq.mp hj with hlt | rfl
        · exact hall j hlt
        · exact hzero
      · exact .inr ⟨i, by omega, hsome, htaken⟩
    · simp only [hzero, if_false, if_true]
      exact .inr ⟨o, by omega, rfl, hzero⟩

/-- A request whose block count is lost fails on a table without entries, and otherwise gets a
block in use. -/
theorem myMemMalloc_cases_zero (hready : d.memrdy = true) (hpos : 0 < size)
    (hn : nmembOf b size = 0) :
    ((∀ j, d.memmap.peek j = 0) ∧ myMemMalloc size d = (0xFFFFFFFF, d)) ∨
      ∃ o < b.memtblsize, d.memmap.peek o ≠ 0 ∧ myMemMalloc size d = (o * b.memblksize, d) := by
  have hN := b.tblsize_lt
  have hmark (o : ℕ) : mark d.memmap o 0 = d.memmap := rfl
  rcases search_zero d.memmap (o := b.memtblsize) (c := 0) (by omega) with
    ⟨hnone, hall⟩ | ⟨o, hlt, hsome, htaken⟩
  · refine .inl ⟨fun j => ?_, ?_⟩
    · rcases Nat.lt_or_ge j b.memtblsize with hj | hj
      · exact hall j hj
      · exact Buffer.peek_of_le hj
    · simp only [myMemMalloc, hready, if_true, if_neg hpos.ne', hn, hnone]
  · refine .inr ⟨o, hlt, htaken, ?_⟩
    simp only [myMemMalloc, if_pos hready, if_neg hpos.ne', hn, hsome, hmark,
      Nat.mod_eq_of_lt (offset_lt hlt)]

/-- What an allocation of any size does. -/
theorem myMemMalloc_outcome (size : ℕ) (hready : d.memrdy = true) :
    ((size = 0 ∨ Excluded size d) ∧ myMemMalloc size d = (0xFFFFFFFF, d)) ∨
      ∃ o < b.memtblsize, FreeRun d.memmap (nmembOf b size) o ∧ ¬ Excluded size d ∧
        myMemMalloc size d =
          (o * b.memblksize, { d with memmap := mark d.memmap o (nmembOf b size) }) := by
  rcases Nat.eq_zero_or_pos size with rfl | hpos
  · exact .inl ⟨.inl rfl, by simp [myMemMalloc, hready]⟩
  · rw [Excluded, ← nmembOf_eq_mod]
    split_ifs with hn
    · rcases myMemMalloc_cases_zero hready hpos hn with ⟨hall, heq⟩ | ⟨o, hlt, htaken, heq⟩
      · exact .inl ⟨.inr hall, heq⟩
      · have hrun : FreeRun d.memmap 0 o := ⟨hlt.le, fun j hlo hhi => absurd hhi (by omega)⟩
        exact .inr ⟨o, hlt, hn ▸ hrun, fun hall => htaken (hall o), by rw [heq, hn]; rfl⟩
    · rcases myMemMalloc_cases_nmembOf hready hpos (Nat.pos_of_ne_zero hn) with
        ⟨hnone, heq⟩ | ⟨o, hgreatest, heq⟩
      · exact .inl ⟨.inr hnone, heq⟩
      · have hrun : FreeRun d.memmap (nmembOf b size) o := hgreatest.1
        have hroom := hrun.1
        exact .inr ⟨o, by omega, hrun, fun hnone => hnone o hrun, heq⟩

theorem mymalloc_outcome (size : ℕ) (hready : d.memrdy = true) :
    ((size = 0 ∨ Excluded size d) ∧ mymalloc size d = (0, d)) ∨
      ∃ o < b.memtblsize, FreeRun d.memmap (nmembOf b size) o ∧ ¬ Excluded size d ∧
        mymalloc size d = (b.membase + o * b.memblksize,
          { d with memmap := mark d.memmap o (nmembOf b size) }) := by
  rcases myMemMalloc_outcome size hready with ⟨hnone, heq⟩ | ⟨o, hlt, hrun, hsome, heq⟩
  · exact .inl ⟨hnone, mymalloc_of_none heq⟩
  · exact .inr ⟨o, hlt, hrun, hsome, mymalloc_of_offset hlt heq⟩

theorem refuses_iff_of_ready (hready : d.memrdy = true) (hpos : 0 < size) :
    Refuses size d ↔ Excluded size d := by
  rcases mymalloc_outcome size hready with ⟨hnone, heq⟩ | ⟨o, -, -, hsome, heq⟩
  · exact iff_of_true ⟨by rw [heq], fun j => by rw [heq]⟩ (hnone.resolve_left hpos.ne')
  · refine iff_of_false (fun h => ?_) hsome
    exact address_ne_zero o ((congrArg Prod.fst heq).symm.trans h.1)

/-- **Oversized requests.** In every state that calls lead to, a request larger than the pool is
refused exactly if what the counter keeps of its block count does not fit either. -/
theorem refuses_iff (h : (calls b).Reachable d) (hsize : b.memsize < size) :
    Refuses size d ↔ Excluded size d := by
  have hpos : 0 < size := by omega
  cases hready : d.memrdy with
  | true => exact refuses_iff_of_ready hready hpos
  | false =>
    -- the first call finds an empty table and initialises it again
    have hinit := refuses_iff_of_ready (d := myMemInit d) rfl hpos
    have hzero := (unused_of_reachable h).memmap_init hready
    simpa only [Refuses, Excluded, mymalloc_of_not_ready size hready, hzero] using hinit

/-- One byte more than the internal pool has. -/
theorem refuses_one_more : Refuses (33 * 1024 + 1) (boot Net.sram) := by
  refine (refuses_iff (b := Net.sram) ⟨[], .nil⟩ (by decide)).mpr ?_
  have hblocks : blocks Net.sram (33 * 1024 + 1) % 65536 = 1057 := rfl
  rw [Excluded, hblocks, if_neg (by decide)]
  rintro o ⟨hroom, -⟩
  have hsize : Net.sram.memtblsize = 1056 := rfl
  omega

/-- The internal pool gives 32 bytes to a request of two megabytes and one byte; to the next one,
of two megabytes, it gives the same 32 bytes. -/
theorem not_refuses_two_megabytes :
    (calls Net.sram).Reachable (boot Net.sram) ∧ ¬ Refuses (2 ^ 21 + 1) (boot Net.sram) ∧
      (mymalloc (2 ^ 21 + 1) (boot Net.sram)).2.memmap.peek 1055 = 1 ∧
      (mymalloc (2 ^ 21) (mymalloc (2 ^ 21 + 1) (boot Net.sram)).2).1 =
        (mymalloc (2 ^ 21 + 1) (boot Net.sram)).1 := by
  refine ⟨⟨[], .nil⟩, fun h => ?_, by decide, by decide⟩
  exact absurd h.1 (by decide)

end FanGateway.Malloc
