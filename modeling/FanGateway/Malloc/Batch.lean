import FanGateway.Malloc.Session

/-!
# Several allocations at once

A caller that needs several areas asks for one after the other and looks at the
pointers at the end. It gets all of them exactly when the table has room for the
areas in that order. Freeing whatever pointers it got, the null pointers among
them, leaves the table as it was before the first allocation.
-/

namespace FanGateway.Malloc

open Lib

variable {b : Bank}

/-- Allocate for each of a list of sizes, failed allocations included. -/
def mallocAll : List ℕ → MallcoDev b → List ℕ × MallcoDev b
  | [], d => ([], d)
  | size :: sizes, d =>
    let (ptr, d) := mymalloc size d
    let (ptrs, d) := mallocAll sizes d
    (ptr :: ptrs, d)

/-- Free each of a list of pointers. -/
def freeAll (ptrs : List ℕ) (d : MallcoDev b) : MallcoDev b :=
  ptrs.foldl (fun d ptr => myfree ptr d) d

/-- The table has room for areas of the given sizes: there is a last run of free blocks that is
long enough for the first, and with that one taken there is room for the others. -/
def Room (b : Bank) : List ℕ → Buffer ℕ b.memtblsize → Prop
  | [], _ => True
  | size :: sizes, memmap =>
    ∃ o, 0 < size ∧ IsGreatest {o | FreeRun memmap (blocks b size) o} o ∧
      Room b sizes (mark memmap o (blocks b size))

section Represents

variable {d : MallcoDev b} {live : List Live} {L : Layout b.memtblsize}

/-- The table is determined by the pointers in use. -/
theorem Represents.memmap_eq {d' : MallcoDev b} {L' : Layout b.memtblsize}
    (h : Represents ⟨d, live⟩ L) (h' : Represents ⟨d', live⟩ L') : d'.memmap = d.memmap := by
  apply Buffer.ext_peek
  intro j _
  rw [h.memmap j, h'.memmap j, Layout.label, Layout.label, h.spans, h'.spans]

/-- Pointers in use are different. -/
theorem Represents.nodup_ptr (h : Represents ⟨d, live⟩ L) : (live.map Live.ptr).Nodup := by
  have hapart : live.Pairwise fun a c => Span.Apart (span b a) (span b c) := by
    rw [← List.pairwise_map, ← h.spans]
    exact L.disjoint
  rw [List.Nodup, List.pairwise_map]
  apply hapart.imp_of_mem
  intro a c ha _ hac hptr
  -- equal pointers are to one first block
  have hstart : (span b a).start = (span b c).start := by simp only [span, hptr]
  have hfirst := Span.covers_start (L.nonempty _ (h.mem_spans ha))
  have hlen := L.nonempty _ (h.mem_spans ‹c ∈ live›)
  exact hac _ hfirst (hstart ▸ Span.covers_start hlen)

theorem Represents.ptr_ne_zero (h : Represents ⟨d, live⟩ L) {a : Live} (ha : a ∈ live) :
    a.ptr ≠ 0 := by
  have hbase := b.base_pos
  rw [h.ptr a ha]
  omega

/-- An allocation that initialises the area is one in the area initialised. -/
theorem Represents.exists_ready (h : Represents ⟨d, live⟩ L) :
    ∃ d₀ : MallcoDev b, d₀.memrdy = true ∧ d₀.memmap = d.memmap ∧ Represents ⟨d₀, live⟩ L ∧
      ∀ size, mymalloc size d = mymalloc size d₀ := by
  cases hready : d.memrdy with
  | true => exact ⟨d, hready, rfl, h, fun _ => rfl⟩
  | false =>
    have hinit := h.init hready
    refine ⟨myMemInit d, rfl, h.memmap_eq hinit, hinit, fun size => ?_⟩
    exact mymalloc_of_not_ready size hready

/-- One allocation: it fails and leaves the table alone, or it adds its pointer. -/
theorem Represents.mymalloc_cases (h : Represents ⟨d, live⟩ L) {size : ℕ}
    (hfits : size ≤ 65535 * b.memblksize) :
    ((mymalloc size d).1 = 0 ∧ (mymalloc size d).2.memmap = d.memmap ∧
        Represents ⟨(mymalloc size d).2, live⟩ L ∧
        ¬ ∃ o, 0 < size ∧ IsGreatest {o | FreeRun d.memmap (blocks b size) o} o) ∨
      ∃ o L', 0 < size ∧ IsGreatest {o | FreeRun d.memmap (blocks b size) o} o ∧
        (mymalloc size d).1 ≠ 0 ∧
        (mymalloc size d).2.memmap = mark d.memmap o (blocks b size) ∧
        Represents ⟨(mymalloc size d).2, ⟨(mymalloc size d).1, size⟩ :: live⟩ L' := by
  obtain ⟨d₀, hready, hmemmap, h₀, hsame⟩ := h.exists_ready
  rw [hsame, ← hmemmap]
  obtain ⟨L', hL'⟩ := h₀.malloc hready hfits
  rcases Malloc.mymalloc_cases hready hfits with ⟨hnone, heq⟩ | ⟨o, hpos, hgreatest, heq⟩
  · refine .inl ⟨by rw [heq], by rw [heq], by rw [heq]; exact h₀, ?_⟩
    rintro ⟨o, hpos, hgreatest⟩
    rcases hnone with rfl | hnone
    · exact absurd hpos (lt_irrefl 0)
    · exact hnone o hgreatest.1
  · have hne : (mymalloc size d₀).1 ≠ 0 := by
      have hbase := b.base_pos
      rw [heq]
      simp only
      omega
    refine .inr ⟨o, L', hpos, hgreatest, hne, by rw [heq], ?_⟩
    simpa only [Session.apply, if_neg hne] using hL'

/-- What several allocations leave behind: the pointers that were got are in use besides those
before. -/
theorem Represents.mallocAll {sizes : List ℕ} (h : Represents ⟨d, live⟩ L)
    (hfits : ∀ size ∈ sizes, size ≤ 65535 * b.memblksize) :
    ∃ got L', Represents ⟨(mallocAll sizes d).2, got ++ live⟩ L' ∧
      got.map Live.ptr = ((mallocAll sizes d).1.filter (· ≠ 0)).reverse ∧
      ((∀ ptr ∈ (mallocAll sizes d).1, ptr ≠ 0) ↔ Room b sizes d.memmap) := by
  -- induction on the sizes; an allocation that fails leaves everything to the others
  induction sizes generalizing d live L with
  | nil => exact ⟨[], L, h, rfl, iff_of_true (by simp [Malloc.mallocAll]) trivial⟩
  | cons size sizes ih =>
    have hrest : ∀ size ∈ sizes, size ≤ 65535 * b.memblksize :=
      fun size hsize => hfits size (List.mem_cons_of_mem _ hsize)
    rcases h.mymalloc_cases (hfits size List.mem_cons_self) with
      ⟨hnull, -, hkept, hnone⟩ | ⟨o, L₁, hpos, hgreatest, hne, hmark, hadded⟩
    · obtain ⟨got, L', hL', hptrs, -⟩ := ih hkept hrest
      refine ⟨got, L', hL', ?_, iff_of_false (fun hall => ?_) ?_⟩
      · rw [hptrs, Malloc.mallocAll]
        simp [hnull]
      · exact hall _ List.mem_cons_self hnull
      · rintro ⟨o, hpos, hgreatest, -⟩
        exact hnone ⟨o, hpos, hgreatest⟩
    · obtain ⟨got, L', hL', hptrs, hroom⟩ := ih hadded hrest
      refine ⟨got ++ [⟨(mymalloc size d).1, size⟩], L', ?_, ?_, ?_⟩
      · rw [List.append_assoc]
        exact hL'
      · rw [List.map_append, hptrs, Malloc.mallocAll]
        simp [hne]
      · rw [hmark] at hroom
        have hsame : (∃ o', 0 < size ∧ IsGreatest {o | FreeRun d.memmap (blocks b size) o} o' ∧
            Room b sizes (mark d.memmap o' (blocks b size))) ↔
            Room b sizes (mark d.memmap o (blocks b size)) := by
          constructor
          · rintro ⟨o', -, hgreatest', h'⟩
            rwa [hgreatest'.unique hgreatest] at h'
          · exact fun h' => ⟨o, hpos, hgreatest, h'⟩
        rw [Room, hsame, ← hroom, Malloc.mallocAll]
        simp only [List.mem_cons, forall_eq_or_imp, hne, ne_eq, not_false_eq_true, true_and]

/-- Freeing a list of pointers in use, null pointers among them, takes them out of use. -/
theorem Represents.freeAll {ptrs : List ℕ} (h : Represents ⟨d, live⟩ L)
    (hused : ∀ ptr ∈ ptrs, ptr = 0 ∨ ∃ a ∈ live, a.ptr = ptr)
    (hnodup : (ptrs.filter (· ≠ 0)).Nodup) :
    ∃ L', Represents ⟨freeAll ptrs d, live.filter fun a => a.ptr ∉ ptrs⟩ L' := by
  -- induction on the pointers; freeing one leaves the others in use
  induction ptrs generalizing d live L with
  | nil => exact ⟨L, by simpa [Malloc.freeAll] using h⟩
  | cons ptr ptrs ih =>
    have hsplit : live.filter (fun a => a.ptr ∉ ptr :: ptrs) =
        (live.filter fun a => a.ptr ≠ ptr).filter fun a => a.ptr ∉ ptrs := by
      rw [List.filter_filter]
      apply List.filter_congr
      intro a _
      simp [not_or, Bool.and_comm]
    rw [hsplit]
    rcases hused ptr List.mem_cons_self with rfl | ⟨a, ha, rfl⟩
    · have hkept : live.filter (fun a => a.ptr ≠ 0) = live := by
        apply List.filter_eq_self.mpr
        intro a ha
        simpa using h.ptr_ne_zero ha
      rw [hkept]
      refine ih (d := myfree 0 d) (by simpa [myfree] using h) ?_ (by simpa using hnodup)
      exact fun ptr hptr => hused ptr (List.mem_cons_of_mem _ hptr)
    · have hne := h.ptr_ne_zero ha
      have hfree : Represents ⟨myfree a.ptr d, live.filter fun c => c.ptr ≠ a.ptr⟩ _ := h.free ha
      rw [List.filter_cons_of_pos (by simpa using hne), List.nodup_cons] at hnodup
      apply ih hfree _ hnodup.2
      intro ptr hptr
      rcases hused ptr (List.mem_cons_of_mem _ hptr) with rfl | ⟨c, hc, rfl⟩
      · exact .inl rfl
      · refine .inr ⟨c, List.mem_filter.mpr ⟨hc, ?_⟩, rfl⟩
        have hc0 := h.ptr_ne_zero hc
        have hdifferent : c.ptr ≠ a.ptr := by
          intro heq
          exact hnodup.1 (List.mem_filter.mpr ⟨heq ▸ hptr, by simpa using hne⟩)
        simpa using hdifferent

/-- **Rollback.** Freeing whatever several allocations returned leaves the pointers in use that
were in use before. -/
theorem Represents.freeAll_mallocAll {sizes : List ℕ} (h : Represents ⟨d, live⟩ L)
    (hfits : ∀ size ∈ sizes, size ≤ 65535 * b.memblksize) :
    ∃ L', Represents ⟨Malloc.freeAll (Malloc.mallocAll sizes d).1
      (Malloc.mallocAll sizes d).2, live⟩ L' := by
  obtain ⟨got, L₁, hall, hptrs, -⟩ := h.mallocAll hfits
  obtain ⟨hgot, -, hother⟩ := List.nodup_append.mp (List.map_append ▸ hall.nodup_ptr)
  have hmem (ptr : ℕ) (hne : ptr ≠ 0) : ptr ∈ (Malloc.mallocAll sizes d).1 ↔
      ptr ∈ got.map Live.ptr := by
    rw [hptrs, List.mem_reverse, List.mem_filter]
    simp [hne]
  have hused : ∀ ptr ∈ (Malloc.mallocAll sizes d).1,
      ptr = 0 ∨ ∃ a ∈ got ++ live, a.ptr = ptr := by
    intro ptr hptr
    by_cases hzero : ptr = 0
    · exact .inl hzero
    · obtain ⟨a, ha, heq⟩ := List.mem_map.mp ((hmem ptr hzero).mp hptr)
      exact .inr ⟨a, List.mem_append_left _ ha, heq⟩
  rw [hptrs, List.nodup_reverse] at hgot
  have hfreed := hall.freeAll hused hgot
  -- what is left is what was in use before
  have hrest : (got ++ live).filter (fun a => a.ptr ∉ (Malloc.mallocAll sizes d).1) = live := by
    rw [List.filter_append, List.filter_eq_nil_iff.mpr, List.nil_append, List.filter_eq_self.mpr]
    · intro c hc
      have hc0 := h.ptr_ne_zero hc
      rw [decide_eq_true_eq, hmem _ hc0]
      exact fun hin => hother _ hin _ (List.mem_map_of_mem hc) rfl
    · intro a ha
      have ha0 := hall.ptr_ne_zero (List.mem_append_left _ ha)
      rw [decide_eq_true_eq, not_not, hmem _ ha0]
      exact List.mem_map_of_mem ha
  rwa [hrest] at hfreed

/-- Areas that were got show in the table. -/
theorem Represents.memmap_mallocAll_ne {sizes : List ℕ} (h : Represents ⟨d, live⟩ L)
    (hfits : ∀ size ∈ sizes, size ≤ 65535 * b.memblksize) (hne : sizes ≠ [])
    (hroom : Room b sizes d.memmap) : (Malloc.mallocAll sizes d).2.memmap ≠ d.memmap := by
  obtain ⟨got, L₁, hall, hptrs, hiff⟩ := h.mallocAll hfits
  obtain ⟨-, -, hother⟩ := List.nodup_append.mp (List.map_append ▸ hall.nodup_ptr)
  -- the first area is in use
  obtain ⟨a, ha⟩ : ∃ a, a ∈ got := by
    obtain ⟨size, rest, rfl⟩ := List.exists_cons_of_ne_nil hne
    have hfirst := hiff.mpr hroom (mymalloc size d).1 List.mem_cons_self
    have hin : (mymalloc size d).1 ∈ got.map Live.ptr := by
      rw [hptrs, List.mem_reverse, List.mem_filter]
      exact ⟨List.mem_cons_self, by simpa using hfirst⟩
    obtain ⟨a, ha, -⟩ := List.mem_map.mp hin
    exact ⟨a, ha⟩
  have hspan := hall.mem_spans (List.mem_append_left _ ha)
  have hpos := L₁.nonempty _ hspan
  have hfirst := Span.covers_start hpos
  intro hsame
  have htaken : L.label (span b a).start = (span b a).len := by
    rw [← h.memmap, ← hsame, hall.memmap, Layout.label_eq_len hspan hfirst]
  have hcovered : ¬ ∀ t ∈ L.spans, ¬ t.Covers (span b a).start := by
    rw [← Layout.label_eq_zero_iff, htaken]
    exact hpos.ne'
  apply hcovered
  intro t ht hcovers
  rw [h.spans] at ht
  obtain ⟨c, hc, rfl⟩ := List.mem_map.mp ht
  -- one run cannot belong to two pointers
  have hequal := Layout.eq_of_covers hspan (hall.mem_spans (List.mem_append_right _ hc)) hfirst
    hcovers
  have hptr : a.ptr = c.ptr := by
    rw [hall.ptr a (List.mem_append_left _ ha), hequal, ← h.ptr c hc]
  exact hother _ (List.mem_map_of_mem ha) _ (List.mem_map_of_mem hc) hptr

end Represents

/-! ## Room below the taken blocks -/

/-- If exactly the first `k` blocks are free, there is room for the areas that need no more. -/
theorem room_iff_of_prefix {sizes : List ℕ} {k : ℕ} {memmap : Buffer ℕ b.memtblsize}
    (hk : k ≤ b.memtblsize) (hfree : ∀ j < k, memmap.peek j = 0)
    (htaken : ∀ j, k ≤ j → j < b.memtblsize → memmap.peek j ≠ 0)
    (hpos : ∀ size ∈ sizes, 0 < size) :
    Room b sizes memmap ↔ (sizes.map (blocks b)).sum ≤ k := by
  -- induction on the sizes; each area takes the top of the free blocks
  induction sizes generalizing k memmap with
  | nil => exact iff_of_true trivial (Nat.zero_le k)
  | cons size sizes ih =>
    rw [List.map_cons, List.sum_cons]
    have hsize := hpos size List.mem_cons_self
    have hblocks := blocks_pos (b := b) hsize
    have hbelow {o : ℕ} (ho : FreeRun memmap (blocks b size) o) : o + blocks b size ≤ k := by
      by_contra habove
      have hroom := ho.1
      exact htaken (o + blocks b size - 1) (by omega) (by omega) (ho.2 _ (by omega) (by omega))
    have hrest (hfits : blocks b size ≤ k) :
        Room b sizes (mark memmap (k - blocks b size) (blocks b size)) ↔
          (sizes.map (blocks b)).sum ≤ k - blocks b size := by
      refine ih (by omega) (fun j hj => ?_) (fun j hj hlt => ?_)
        fun size hsize => hpos size (List.mem_cons_of_mem _ hsize)
      · rw [peek_mark, if_neg (by omega)]
        exact hfree j (by omega)
      · rw [peek_mark]
        split_ifs with hin
        · exact hblocks.ne'
        · exact htaken j (by omega) hlt
    have hgreatest (hfits : blocks b size ≤ k) :
        IsGreatest {o | FreeRun memmap (blocks b size) o} (k - blocks b size) :=
      ⟨⟨by omega, fun j _ hj => hfree j (by omega)⟩, fun o ho => Nat.le_sub_of_add_le (hbelow ho)⟩
    constructor
    · rintro ⟨o, -, ho, hroom⟩
      have hfits : blocks b size ≤ k := le_of_add_le_right (hbelow ho.1)
      rw [ho.unique (hgreatest hfits), hrest hfits] at hroom
      omega
    · intro hsum
      have hfits : blocks b size ≤ k := le_of_add_le_left hsum
      exact ⟨_, hsize, hgreatest hfits, (hrest hfits).mpr (by omega)⟩

end FanGateway.Malloc
