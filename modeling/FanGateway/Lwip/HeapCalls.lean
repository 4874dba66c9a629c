import FanGateway.Lwip.Blocks

/-!
# What the calls do to the blocks

Between calls the heap stands for a list of blocks that fill it, with no two free ones side by
side and `lfree` at the lowest. Each call leaves such a heap. What is kept in the memory of the
programs changes at the address of the call alone.
-/

namespace FanGateway.Lwip

open Function (update)
open Lib Lib.Block

theorem memSizeAligned_eq : memSizeAligned = 6144 := rfl

theorem sizeofStructMem_eq : sizeofStructMem = 8 := rfl

namespace MemHeap

variable {base : Ram} {h : MemHeap} {bs xs ys : List HeapBlock} {n : ℕ} {d : List UInt8}

/-- The blocks of a heap in bytes that have been `base` before. -/
structure Lists (base : Ram) (h : MemHeap) (bs : List HeapBlock) : Prop where
  linked : h.ram.Linked 0 0 bs
  extent : extent bs = memSizeAligned
  lfree : h.lfree = lowest 0 bs
  ramEnd : (h.ram.mem memSizeAligned).used ≠ 0
  outside : ∀ a, memSizeAligned + 8 ≤ a → h.ram a = base a

/-- The blocks of a heap between calls. -/
structure Represents (base : Ram) (h : MemHeap) (bs : List HeapBlock) : Prop
    extends Lists base h bs where
  merged : Merged bs

/-- A heap that stands for the same as some blocks, but for what is kept at one address. -/
def Becomes (base : Ram) (h : MemHeap) (kept : ℕ → Option (List UInt8)) : Prop :=
  ∃ bs, h.Represents base bs ∧ contents 8 bs = kept

theorem represents_memInit (ram : Ram) :
    (memInit ram).Represents ram [⟨memSizeAligned, none⟩] := by
  have hfirst : (memInit ram).ram.mem 0 = ⟨memSizeAligned, 0, 0⟩ := by
    rw [memInit]
    simp only
    rw [Ram.mem_setPrev_of_ne (by decide), Ram.mem_setNext_of_ne (by decide),
      Ram.mem_setUsed_of_ne (by decide), Ram.mem_setUsed, Ram.mem_setPrev (by decide),
      Ram.mem_setNext (by decide)]
  have hlast : (memInit ram).ram.mem memSizeAligned = ⟨memSizeAligned, memSizeAligned, 1⟩ := by
    rw [memInit]
    simp only
    rw [Ram.mem_setPrev (by decide), Ram.mem_setNext (by decide), Ram.mem_setUsed]
  refine ⟨⟨⟨⟨?_, ?_, ?_, fun d hd => ?_, ?_⟩, trivial⟩, rfl, rfl, ?_, fun a ha => ?_⟩,
    List.isChain_singleton _⟩
  · rw [hfirst, Nat.zero_add]
  · rw [hfirst]
  · simp [hfirst]
  · cases hd
  · exact ⟨by decide, by decide, fun d hd => by cases hd⟩
  · rw [hlast]
    decide
  · rw [memSizeAligned_eq] at ha
    rw [memInit]
    simp only [memSizeAligned_eq]
    rw [Ram.setPrev_of_ne (by omega), Ram.setNext_of_ne (by omega), Ram.setUsed_of_ne (by omega),
      Ram.setUsed_of_ne (by omega), Ram.setPrev_of_ne (by omega), Ram.setNext_of_ne (by omega)]

namespace Lists

theorem starts {b : HeapBlock} (hl : h.Lists base (xs ++ b :: ys)) :
    h.ram.Starts (Ram.lastOf 0 0 xs) (Block.extent xs) b := hl.linked.starts

theorem end_le {b : HeapBlock} (hl : h.Lists base (xs ++ b :: ys)) :
    Block.extent xs + b.size + Block.extent ys = memSizeAligned := by
  have hextent := hl.extent
  rw [extent_append, extent_cons] at hextent
  omega

theorem pos (hl : h.Lists base (xs ++ ys)) : ∀ c ∈ xs, 0 < c.size :=
  fun c hc => hl.linked.pos c (List.mem_append_left _ hc)

/-- The block behind one. -/
theorem next {b c : HeapBlock} (hl : h.Lists base (xs ++ b :: c :: ys)) :
    h.ram.Starts (Block.extent xs) (Block.extent xs + b.size) c := by
  have hl' : h.Lists base ((xs ++ [b]) ++ c :: ys) := by
    rwa [List.append_assoc, List.singleton_append]
  have hstarts := hl'.starts
  rwa [Ram.lastOf_append_singleton, extent_append, extent_cons, extent_nil, Nat.zero_add,
    Nat.add_zero] at hstarts

/-- What is behind a block is the end of the heap, or room for another block. -/
theorem eq_or_le {b : HeapBlock} (hl : h.Lists base (xs ++ b :: ys)) :
    Block.extent ys = 0 ∨ 20 ≤ Block.extent ys := by
  have hrest := (Ram.linked_append.mp hl.linked).2.2
  rcases hrest.extent_eq_or with rfl | hle
  · exact .inl rfl
  · exact .inr hle

theorem eq_nil {b : HeapBlock} (hl : h.Lists base (xs ++ b :: ys))
    (hlast : Block.extent xs + b.size = memSizeAligned) : ys = [] := by
  have hend := hl.end_le
  rcases (Ram.linked_append.mp hl.linked).2.2.extent_eq_or with hnil | hle
  · exact hnil
  · omega

/-- The room of a block is what its `struct mem` leaves. -/
theorem room {b : HeapBlock} (hl : h.Lists base (xs ++ b :: ys)) :
    h.ram.room (Block.extent xs) = b.size - 8 := by
  have hend := hl.end_le
  have hsize := hl.starts.fits.le_size
  rw [memSizeAligned_eq] at hend
  rw [Ram.room, hl.starts.next, sizeofStructMem_eq]
  omega

/-- The `struct mem` behind a block is unused if and only if a free block is there. -/
theorem behind_iff {b : HeapBlock} (hl : h.Lists base (xs ++ b :: ys)) :
    (h.ram.mem (Block.extent xs + b.size)).used = 0 ↔ ∃ m zs, ys = ⟨m, none⟩ :: zs := by
  match ys with
  | [] =>
    have hend := hl.end_le
    rw [extent_nil, Nat.add_zero] at hend
    rw [hend]
    exact iff_of_false hl.ramEnd (by simp)
  | ⟨m, x⟩ :: ys =>
    rw [hl.next.used]
    simp

/-- Behind a used `struct mem` comes no free block. -/
theorem head_taken {b : HeapBlock} (hl : h.Lists base (xs ++ b :: ys))
    (hused : (h.ram.mem (Block.extent xs + b.size)).used ≠ 0) :
    ∀ c ∈ ys.head?, c.data ≠ none := by
  intro c hc hfree
  obtain ⟨zs, rfl⟩ : ∃ zs, ys = c :: zs := List.head?_eq_some_iff.mp hc
  exact hused (hl.behind_iff.mpr ⟨c.size, zs, by rw [← hfree]⟩)

/-- Two free blocks are combined; `lfree` was not at the second. -/
theorem combine {m : ℕ} (hl : h.Lists base (xs ++ ⟨m, none⟩ :: ⟨n, none⟩ :: ys)) :
    Lists base ⟨h.ram.combine (Block.extent xs) (Block.extent xs + m),
      if h.lfree = Block.extent xs + m then Block.extent xs else h.lfree⟩
      (xs ++ ⟨m + n, none⟩ :: ys) := by
  have hl' : h.Lists base ((xs ++ [⟨m, none⟩]) ++ ⟨n, none⟩ :: ys) := by
    rwa [List.append_assoc, List.singleton_append]
  have hend := hl.end_le
  have hrest := hl'.eq_or_le
  have hm : 20 ≤ m := hl.starts.fits.le_size
  have hn : 20 ≤ n := hl.next.fits.le_size
  have hnext : (h.ram.mem (Block.extent xs + m)).next = Block.extent xs + m + n := hl.next.next
  have hlow : lowest 0 (xs ++ ⟨m, none⟩ :: ⟨n, none⟩ :: ys) ≤ 0 + Block.extent xs :=
    lowest_le rfl hl.pos
  simp only [extent_cons, memSizeAligned_eq] at hend
  refine ⟨hl.linked.combine (by omega), ?_, ?_, ?_, fun a ha => ?_⟩
  · rw [extent_append, extent_cons, memSizeAligned_eq]
    simp only
    omega
  · have hne : h.lfree ≠ Block.extent xs + m := by
      rw [hl.lfree]
      omega
    simp only
    rw [if_neg hne, hl.lfree]
    exact lowest_congr rfl rfl
  · simp only
    rw [Ram.used_combine (by rw [memSizeAligned_eq]; omega) (by omega)
      (by rw [memSizeAligned_eq]; omega)]
    exact hl.ramEnd
  · rw [memSizeAligned_eq] at ha
    simp only
    rw [Ram.combine_of_ne (by omega) (by omega)]
    exact hl.outside a (by rwa [memSizeAligned_eq])

end Lists

/-! ## Giving back -/

/-- The free block behind a free block is combined with it. -/
theorem lists_plugForward (hl : h.Lists base (xs ++ ⟨n, none⟩ :: ys)) (hys : Merged ys) :
    ∃ m zs, (plugForward (extent xs) h).Lists base (xs ++ ⟨m, none⟩ :: zs) ∧ Merged zs ∧
      (∀ c ∈ zs.head?, c.data ≠ none) ∧
      contents 8 (xs ++ ⟨m, none⟩ :: zs) = contents 8 (xs ++ ⟨n, none⟩ :: ys) := by
  have hend := hl.end_le
  have hsize : 20 ≤ n := hl.starts.fits.le_size
  have hnext : (h.ram.mem (extent xs)).next = extent xs + n := hl.starts.next
  rw [plugForward]
  simp only [hnext]
  by_cases hused : (h.ram.mem (extent xs + n)).used = 0
  · obtain ⟨m, zs, rfl⟩ := hl.behind_iff.mp hused
    have hm : 20 ≤ m := hl.next.fits.le_size
    rw [← List.nil_append (_ :: zs), merged_free rfl] at hys
    simp only [extent_cons] at hend
    rw [if_pos ⟨by omega, hused, by omega⟩]
    exact ⟨n + m, zs, hl.combine, hys.2.1, hys.2.2.2, (contents_merge (by omega)).symm⟩
  · rw [if_neg fun hcond => hused hcond.2.1]
    exact ⟨n, ys, hl, hys, hl.head_taken hused, rfl⟩

/-- A free block is combined with the free one before it. -/
theorem becomes_plugBackward (hl : h.Lists base (xs ++ ⟨n, none⟩ :: ys)) (hxs : Merged xs)
    (hys : Merged ys) (hhead : ∀ c ∈ ys.head?, c.data ≠ none) :
    (plugBackward (extent xs) h).Becomes base (contents 8 (xs ++ ⟨n, none⟩ :: ys)) := by
  have hprev : (h.ram.mem (extent xs)).prev = Ram.lastOf 0 0 xs := hl.starts.prev
  have hsize : 20 ≤ n := hl.starts.fits.le_size
  rw [plugBackward]
  simp only [hprev]
  -- what is before the block decides
  rcases List.eq_nil_or_concat xs with rfl | ⟨us, c, rfl⟩
  · rw [if_neg fun hcond => hcond.1 rfl]
    exact ⟨_, ⟨hl, (merged_free rfl).mpr ⟨hxs, hys, by simp, hhead⟩⟩, rfl⟩
  · rw [List.concat_eq_append] at *
    have hl' : h.Lists base (us ++ c :: ⟨n, none⟩ :: ys) := by
      rwa [List.append_assoc, List.singleton_append] at hl
    have hbefore := hl'.starts
    have hlast : Ram.lastOf 0 0 (us ++ [c]) = extent us := by
      rw [Ram.lastOf_append_singleton, Nat.zero_add]
    have hstart : extent (us ++ [c]) = extent us + c.size := by
      rw [extent_append, extent_cons, extent_nil, Nat.add_zero]
    rw [hlast, hstart]
    by_cases hfree : c.data = none
    · obtain ⟨m, x⟩ := c
      obtain rfl : x = none := hfree
      have hm : 20 ≤ m := hbefore.fits.le_size
      have hmerged := (merged_free rfl).mp hxs
      rw [if_pos ⟨by simp only; omega, hbefore.used.mpr rfl⟩]
      refine ⟨us ++ ⟨m + n, none⟩ :: ys, ⟨hl'.combine, ?_⟩, ?_⟩
      · exact (merged_free rfl).mpr ⟨hmerged.1, hys, hmerged.2.2.1, hhead⟩
      · rw [List.append_assoc, List.singleton_append, contents_merge (by omega)]
    · rw [if_neg fun hcond => hfree (hbefore.used.mp hcond.2)]
      refine ⟨_, ⟨hl, (merged_free rfl).mpr ⟨hxs, hys, fun e he => ?_, hhead⟩⟩, rfl⟩
      obtain rfl : c = e := by simpa using he
      exact hfree

/-- **Freeing.** The memory at the address is given back, and all else is kept. -/
theorem becomes_memFree (hr : h.Represents base (xs ++ ⟨n, some d⟩ :: ys)) :
    (memFree (some (extent xs + 8)) h).Becomes base
      (update (contents 8 (xs ++ ⟨n, some d⟩ :: ys)) (extent xs + 8) none) := by
  have hend := hr.end_le
  have hsize := hr.starts.fits.le_size
  have hrest := hr.eq_or_le
  have hmerged := (merged_taken (b := (⟨n, some d⟩ : HeapBlock)) (by simp)).mp hr.merged
  simp only [memSizeAligned_eq] at hend hsize
  rw [memFree]
  simp only [sizeofStructMem_eq, Nat.add_sub_cancel]
  rw [if_neg (by rw [memSizeAligned_eq]; omega)]
  have hl : Lists base ⟨h.ram.setUsed (extent xs) 0,
      if extent xs < h.lfree then extent xs else h.lfree⟩ (xs ++ ⟨n, none⟩ :: ys) := by
    refine ⟨hr.linked.give, ?_, ?_, ?_, fun a ha => ?_⟩
    · rw [← hr.extent, extent_append, extent_append, extent_cons, extent_cons]
    · have hgive : lowest 0 (xs ++ ⟨n, none⟩ :: ys) =
          if 0 + extent xs < lowest 0 (xs ++ ⟨n, some d⟩ :: ys) then 0 + extent xs
          else lowest 0 (xs ++ ⟨n, some d⟩ :: ys) :=
        lowest_give rfl (by simp) (Nat.zero_lt_of_lt hsize) hr.pos
      rw [hgive, Nat.zero_add, ← hr.lfree]
    · simp only
      rw [Ram.mem_setUsed_of_ne (by rw [memSizeAligned_eq]; omega)]
      exact hr.ramEnd
    · rw [memSizeAligned_eq] at ha
      simp only
      rw [Ram.setUsed_of_ne (by omega)]
      exact hr.outside a (by rwa [memSizeAligned_eq])
  obtain ⟨m, zs, hforward, hzs, hhead, hkept⟩ := lists_plugForward hl hmerged.2
  rw [plugHoles, Nat.add_comm (extent xs), update_contents hr.pos, ← hkept]
  exact becomes_plugBackward hforward hmerged.1 hzs hhead

/-! ## Taking -/

/-- Blocks of which the first is taken, in the size that is asked for if enough remains. -/
def taken (size n : ℕ) (d : List UInt8) (ys : List HeapBlock) : List HeapBlock :=
  if n - 8 ≥ size + 20 then ⟨size + 8, some d⟩ :: ⟨n - (size + 8), none⟩ :: ys
  else ⟨n, some d⟩ :: ys

section Taking

variable {size : ℕ}

theorem takeMem_eq (hl : h.Lists base (xs ++ ⟨n, none⟩ :: ys)) (hsize : size + 8 ≤ n) :
    takeMem size (extent xs) h.ram =
      if n - 8 ≥ size + 20 then
        (h.ram.insertMem (extent xs) (extent xs + (size + 8)) (extent xs + n)).setUsed (extent xs) 1
      else h.ram.setUsed (extent xs) 1 := by
  have hend := hl.end_le
  have hptr : (extent xs + 8 + size) % 2 ^ 16 = extent xs + (size + 8) := by
    simp only [memSizeAligned_eq] at hend
    omega
  rw [takeMem, hl.room, hl.starts.next, sizeofStructMem_eq, minSizeAligned, hptr, Nat.add_assoc]

/-- Taking leaves the bytes of the owner as they come, and those of all others. -/
theorem linked_takeMem (hl : h.Lists base (xs ++ ⟨n, none⟩ :: ys)) (hmin : 12 ≤ size)
    (hdvd : 4 ∣ size) (hsize : size + 8 ≤ n) (hd : d.length ≤ size)
    (hholds : (takeMem size (extent xs) h.ram).Holds (extent xs + 8) d) :
    (takeMem size (extent xs) h.ram).Linked 0 0 (xs ++ taken size n d ys) := by
  have hend := hl.end_le
  have hdvdn : 4 ∣ n := hl.starts.fits.dvd_size
  have hunmarked (r : Ram) (hmarked : (r.setUsed (extent xs) 1).Holds (extent xs + 8) d) :
      r.Holds (extent xs + 8) d :=
    hmarked.congr fun a hlow _ => (Ram.setUsed_of_ne (.inr hlow)).symm
  simp only [memSizeAligned_eq] at hend
  rw [takeMem_eq hl hsize] at *
  rw [taken]
  by_cases hdivide : n - 8 ≥ size + 20
  · rw [if_pos hdivide] at hholds ⊢
    rw [if_pos hdivide]
    have hblocks : h.ram.Linked 0 0 (xs ++ (⟨n, none⟩ :: [] ++ ys)) := hl.linked
    have hinsert := hblocks.insertMem (k := size + 8) (by rw [extent_nil]; omega) hl.eq_nil
      (by omega) (by omega) (by rw [extent_nil]; omega) (by simp) (by simp)
    rw [extent_nil, Nat.add_zero, Nat.add_zero] at hinsert
    exact hinsert.take (by omega) (hunmarked _ hholds)
  · rw [if_neg hdivide] at hholds ⊢
    rw [if_neg hdivide]
    exact hl.linked.take (by omega) (hunmarked _ hholds)

/-- The block that is taken has room for what was asked for. -/
theorem le_next_takeMem (hl : h.Lists base (xs ++ ⟨n, none⟩ :: ys)) (hmin : 12 ≤ size)
    (hdvd : 4 ∣ size) (hsize : size + 8 ≤ n) :
    extent xs + 8 + size ≤ ((takeMem size (extent xs) h.ram).mem (extent xs)).next := by
  have hlinked := linked_takeMem (d := []) hl hmin hdvd hsize (Nat.zero_le _) (by simp [Ram.Holds])
  rw [taken] at hlinked
  split_ifs at hlinked
  · rw [hlinked.starts.next]
    simp only
    omega
  · rw [hlinked.starts.next]
    simp only
    omega

theorem extent_taken (hsize : size + 8 ≤ n) : extent (taken size n d ys) = n + extent ys := by
  rw [taken]
  split_ifs
  · rw [extent_cons, extent_cons]
    simp only
    omega
  · rw [extent_cons]

theorem merged_taken_blocks (hr : Merged (xs ++ ⟨n, none⟩ :: ys)) :
    Merged (xs ++ taken size n d ys) := by
  obtain ⟨hxs, hys, -, hhead⟩ := (merged_free rfl).mp hr
  rw [taken]
  split_ifs
  · refine (merged_taken (by simp)).mpr ⟨hxs, ?_⟩
    rw [← List.nil_append (_ :: ys)]
    exact (merged_free rfl).mpr ⟨merged_nil, hys, by simp, hhead⟩
  · exact (merged_taken (by simp)).mpr ⟨hxs, hys⟩

theorem contents_taken (hl : h.Lists base (xs ++ ⟨n, none⟩ :: ys)) (hsize : size + 8 ≤ n) :
    contents 8 (xs ++ taken size n d ys) =
      update (contents 8 (xs ++ ⟨n, none⟩ :: ys)) (extent xs + 8) (some d) := by
  rw [taken, Nat.add_comm (extent xs)]
  split_ifs
  · rw [← update_contents (x := none) hl.pos, contents_merge (by omega),
      Nat.add_sub_cancel' hsize]
  · rw [update_contents hl.pos]

theorem used_takeMem (hl : h.Lists base (xs ++ ⟨n, none⟩ :: ys)) (hsize : size + 8 ≤ n) :
    ((takeMem size (extent xs) h.ram).mem memSizeAligned).used ≠ 0 := by
  have hend := hl.end_le
  have hmin := hl.starts.fits.le_size
  have hrest := hl.eq_or_le
  simp only [memSizeAligned_eq] at hend hmin
  rw [takeMem_eq hl hsize]
  split_ifs
  · rw [Ram.mem_setUsed_of_ne (by rw [memSizeAligned_eq]; omega),
      Ram.used_insertMem (by omega) (by omega) (by omega) (by rw [memSizeAligned_eq]; omega)]
    exact hl.ramEnd
  · rw [Ram.mem_setUsed_of_ne (by rw [memSizeAligned_eq]; omega)]
    exact hl.ramEnd

theorem takeMem_of_outside {a : ℕ} (hl : h.Lists base (xs ++ ⟨n, none⟩ :: ys))
    (hsize : size + 8 ≤ n) (ha : memSizeAligned + 8 ≤ a) :
    (takeMem size (extent xs) h.ram) a = h.ram a := by
  have hend := hl.end_le
  have hmin := hl.starts.fits.le_size
  simp only [memSizeAligned_eq] at hend hmin ha
  rw [takeMem_eq hl hsize]
  split_ifs
  · rw [Ram.setUsed_of_ne (by omega),
      Ram.insertMem_of_ne (by omega) (by omega) (by omega)]
  · rw [Ram.setUsed_of_ne (by omega)]

/-- The next free `struct mem` is that of the lowest free block. -/
theorem nextFree_eq {r : Ram} {prev p fuel : ℕ} {zs : List HeapBlock} (hl : r.Linked prev p zs)
    (hend : p + extent zs = memSizeAligned)
    (hfuel : zs.length < fuel) : nextFree r fuel p = some (lowest p zs) := by
  -- induction on the blocks, one turn of the loop for each
  induction zs generalizing prev p fuel with
  | nil =>
    obtain ⟨fuel, rfl⟩ := Nat.exists_eq_succ_of_ne_zero (Nat.ne_of_gt hfuel)
    rw [nextFree, if_neg fun hcond => hcond.2 hend, lowest]
  | cons b zs ih =>
    obtain ⟨fuel, rfl⟩ := Nat.exists_eq_succ_of_ne_zero (Nat.ne_of_gt (Nat.zero_lt_of_lt hfuel))
    have hsize := hl.1.fits.le_size
    rw [extent_cons] at hend
    rw [nextFree, lowest]
    by_cases hfree : b.data = none
    · rw [if_pos hfree, if_neg fun hcond => hcond.1 (hl.1.used.mpr hfree)]
    · rw [if_neg hfree, if_pos ⟨fun hused => hfree (hl.1.used.mp hused), by omega⟩, hl.1.next]
      exact ih hl.2 (by omega) (Nat.lt_of_succ_lt_succ hfuel)

theorem extent_append_taken (hl : h.Lists base (xs ++ ⟨n, none⟩ :: ys)) (hsize : size + 8 ≤ n) :
    extent (xs ++ taken size n d ys) = memSizeAligned := by
  rw [← hl.extent, extent_append, extent_append, extent_taken hsize, extent_cons]

/-- `lfree` is moved if its block was taken, and else is the lowest still. -/
theorem adjustLfree_eq (hl : h.Lists base (xs ++ ⟨n, none⟩ :: ys)) (hmin : 12 ≤ size)
    (hdvd : 4 ∣ size) (hsize : size + 8 ≤ n) :
    adjustLfree (extent xs) h.lfree (takeMem size (extent xs) h.ram) =
      some (lowest 0 (xs ++ taken size n d ys)) := by
  have hany : lowest 0 (xs ++ taken size n d ys) = lowest 0 (xs ++ taken size n [] ys) := by
    rw [taken, taken]
    split_ifs
    · exact lowest_congr_some
    · exact lowest_congr_some
  rw [hany, adjustLfree, hl.lfree]
  by_cases hfirst : extent xs = lowest 0 (xs ++ ⟨n, none⟩ :: ys)
  · have htaken : ∀ c ∈ xs, c.data ≠ none := by
      have hlow : lowest 0 (xs ++ ⟨n, none⟩ :: ys) = 0 + extent xs := by
        rw [Nat.zero_add, hfirst]
      exact (lowest_eq_iff rfl hl.pos).mp hlow
    have hlinked := (Ram.linked_append.mp (linked_takeMem (d := []) hl hmin hdvd hsize
      (Nat.zero_le _) (by simp [Ram.Holds]))).2
    have htotal := extent_append_taken (d := []) hl hsize
    have hlength := length_le_extent hlinked.pos
    rw [extent_append] at htotal
    rw [if_pos hfirst, ← hfirst, lowest_append_of_taken htaken]
    rw [Nat.zero_add] at hlinked ⊢
    exact nextFree_eq hlinked htotal (by omega)
  · have hfree : ∃ c ∈ xs, c.data = none := by
      by_contra hnot
      push Not at hnot
      rw [(lowest_eq_iff rfl hl.pos).mpr hnot, Nat.zero_add] at hfirst
      exact hfirst rfl
    rw [if_neg hfirst, lowest_append_of_free hfree, lowest_append_of_free hfree]

/-- Taking the block that was found. -/
theorem memMallocAt_eq (hr : h.Represents base (xs ++ ⟨n, none⟩ :: ys)) (hmin : 12 ≤ size)
    (hdvd : 4 ∣ size) (hsize : size + 8 ≤ n) :
    ∃ h', memMallocAt size (extent xs) h = some (h', some (extent xs + 8)) ∧
      h'.ram = takeMem size (extent xs) h.ram ∧
      ∀ d, d.length ≤ size → h'.ram.Holds (extent xs + 8) d →
        h'.Becomes base (update (contents 8 (xs ++ ⟨n, none⟩ :: ys)) (extent xs + 8) (some d)) := by
  have hl := hr.toLists
  have hlfree (d : List UInt8) := adjustLfree_eq (d := d) hl hmin hdvd hsize
  refine ⟨_, by rw [memMallocAt, hlfree [], Option.map_some, sizeofStructMem_eq], rfl,
    fun d hd hholds => ?_⟩
  refine ⟨xs ++ taken size n d ys, ⟨⟨linked_takeMem hl hmin hdvd hsize hd hholds,
    extent_append_taken hl hsize, ?_, used_takeMem hl hsize, fun a ha => ?_⟩,
    merged_taken_blocks hr.merged⟩, contents_taken hl hsize⟩
  · exact Option.some.inj ((hlfree []).symm.trans (hlfree d))
  · exact (takeMem_of_outside hl hsize ha).trans (hl.outside a ha)

/-- The loop finds the lowest free block that is large enough, or there is none. -/
theorem memMallocLoop_cases {prev p fuel : ℕ} {zs : List HeapBlock}
    (hl : h.ram.Linked prev p zs) (hend : p + extent zs = memSizeAligned)
    (hfuel : zs.length < fuel) :
    ((∀ c ∈ zs, c.data = none → c.size < size + 8) ∧
        memMallocLoop size h fuel p = some (h, none)) ∨
      ∃ us n ys, zs = us ++ ⟨n, none⟩ :: ys ∧ (∀ c ∈ us, c.data = none → c.size < size + 8) ∧
        size + 8 ≤ n ∧ memMallocLoop size h fuel p = memMallocAt size (p + extent us) h := by
  -- induction on the blocks, one turn of the loop for each
  induction zs generalizing prev p fuel with
  | nil =>
    obtain ⟨fuel, rfl⟩ := Nat.exists_eq_succ_of_ne_zero (Nat.ne_of_gt hfuel)
    rw [extent_nil] at hend
    rw [memMallocLoop, if_neg (by omega)]
    exact .inl ⟨by simp, rfl⟩
  | cons b zs ih =>
    obtain ⟨fuel, rfl⟩ := Nat.exists_eq_succ_of_ne_zero (Nat.ne_of_gt (Nat.zero_lt_of_lt hfuel))
    have hsize := hl.1.fits.le_size
    rw [extent_cons] at hend
    have hroom : h.ram.room p = b.size - 8 := by
      rw [memSizeAligned_eq] at hend
      rw [Ram.room, hl.1.next, sizeofStructMem_eq]
      omega
    rw [memMallocLoop, hroom]
    by_cases hguard : p < memSizeAligned - size
    · rw [if_pos hguard]
      by_cases hfits : (h.ram.mem p).used = 0 ∧ b.size - 8 ≥ size
      · obtain ⟨n, x⟩ := b
        obtain rfl : x = none := hl.1.used.mp hfits.1
        rw [if_pos hfits]
        exact .inr ⟨[], n, zs, rfl, by simp, by have := hfits.2; simp only at this hsize; omega,
          by rw [extent_nil, Nat.add_zero]⟩
      · have hsmall : b.data = none → b.size < size + 8 := by
          intro hfree
          have hnot : ¬ b.size - 8 ≥ size := fun hge => hfits ⟨hl.1.used.mpr hfree, hge⟩
          omega
        rw [if_neg hfits, hl.1.next]
        rcases ih hl.2 (by omega) (Nat.lt_of_succ_lt_succ hfuel) with
          ⟨hnone, heq⟩ | ⟨us, n, ys, rfl, hbefore, hn, heq⟩
        · exact .inl ⟨List.forall_mem_cons.mpr ⟨hsmall, hnone⟩, heq⟩
        · refine .inr ⟨b :: us, n, ys, rfl, List.forall_mem_cons.mpr ⟨hsmall, hbefore⟩, hn, ?_⟩
          rw [heq, extent_cons, Nat.add_assoc]
    · rw [if_neg hguard]
      refine .inl ⟨fun c hc _ => ?_, rfl⟩
      have hle := size_le_extent hc
      rw [extent_cons] at hle
      omega

/-- The room that a request needs. -/
theorem dataSize_spec (size : UInt16) : 12 ≤ dataSize size ∧ 4 ∣ dataSize size := by
  rw [dataSize, lwipMemAlignSize, minSizeAligned]
  omega

/-- The room is enough unless the alignment of the size wraps. -/
theorem le_dataSize_iff {size : UInt16} : size.toNat ≤ dataSize size ↔ size.toNat ≤ 65532 := by
  have hlt := size.toNat_lt
  rw [dataSize, lwipMemAlignSize, minSizeAligned]
  omega

/-- **Allocation.** Either no free block is large enough, or the lowest such is taken. -/
theorem memMalloc_cases (hr : h.Represents base bs) (request : UInt16) :
    ((request = 0 ∨ ∀ c ∈ bs, c.data = none → c.size < dataSize request + 8) ∧
        memMalloc request h = some (h, none)) ∨
      ∃ xs n ys h', request ≠ 0 ∧ bs = xs ++ ⟨n, none⟩ :: ys ∧
        (∀ c ∈ xs, c.data = none → c.size < dataSize request + 8) ∧ dataSize request + 8 ≤ n ∧
        memMalloc request h = some (h', some (extent xs + 8)) ∧
        h'.ram = takeMem (dataSize request) (extent xs) h.ram ∧
        ∀ d, d.length ≤ dataSize request → h'.ram.Holds (extent xs + 8) d →
          h'.Becomes base (update (contents 8 bs) (extent xs + 8) (some d)) := by
  obtain ⟨hmin, hdvd⟩ := dataSize_spec request
  rw [memMalloc]
  by_cases hzero : request = 0
  · rw [if_pos hzero]
    exact .inl ⟨.inl hzero, rfl⟩
  rw [if_neg hzero]
  by_cases hlarge : dataSize request > memSizeAligned
  · rw [if_pos hlarge]
    refine .inl ⟨.inr fun c hc _ => ?_, rfl⟩
    have hle := size_le_extent hc
    rw [hr.extent] at hle
    omega
  · rw [if_neg hlarge]
    -- the search starts behind the blocks that are taken
    obtain ⟨us, zs, rfl, htaken, hlow, -⟩ := exists_lowest 0 bs
    have hlinked := (Ram.linked_append.mp hr.linked).2
    have hlength := length_le_extent hlinked.pos
    have hextent := hr.extent
    have hus (c : HeapBlock) (hc : c ∈ us) : c.data = none → c.size < dataSize request + 8 :=
      fun hfree => absurd hfree (htaken c hc)
    rw [extent_append] at hextent
    rw [hr.lfree, hlow]
    rcases @memMallocLoop_cases h (dataSize request) _ _ (memSizeAligned + 1) _ hlinked
        (by omega) (by omega) with ⟨hnone, heq⟩ | ⟨vs, n, ys, rfl, hbefore, hn, heq⟩
    · refine .inl ⟨.inr fun c hc => ?_, heq⟩
      exact (List.mem_append.mp hc).elim (hus c) (hnone c)
    · rw [← List.append_assoc] at hr ⊢
      obtain ⟨h', hcall, hram, hbecomes⟩ := memMallocAt_eq hr hmin hdvd hn
      refine .inr ⟨us ++ vs, n, ys, h', hzero, rfl, fun c hc => ?_, hn, ?_, hram, hbecomes⟩
      · exact (List.mem_append.mp hc).elim (hus c) (hbefore c)
      · rw [heq, Nat.zero_add, ← extent_append, hcall]

end Taking

/-! ## Trimming -/

/-- What a program keeps in its memory changes without a call. -/
theorem represents_refill {ram : Ram} {d' : List UInt8}
    (hr : h.Represents base (xs ++ ⟨n, some d⟩ :: ys))
    (hsame : ∀ a, a < extent xs + 8 ∨ extent xs + n ≤ a → ram a = h.ram a)
    (hlen : d'.length + 8 ≤ n) (hholds : ram.Holds (extent xs + 8) d') :
    Represents base ⟨ram, h.lfree⟩ (xs ++ ⟨n, some d'⟩ :: ys) := by
  have hend := hr.end_le
  simp only at hend
  refine ⟨⟨hr.linked.refill hsame hlen hholds, ?_, ?_, ?_, fun a ha => ?_⟩, ?_⟩
  · rw [← hr.extent, extent_append, extent_append, extent_cons, extent_cons]
  · exact hr.lfree.trans lowest_congr_some
  · simp only
    rw [Ram.mem_congr fun a hlow _ => hsame a (by omega)]
    exact hr.ramEnd
  · exact (hsame a (by omega)).trans (hr.outside a ha)
  · have hmerged := (merged_taken (b := (⟨n, some d⟩ : HeapBlock)) (by simp)).mp hr.merged
    exact (merged_taken (by simp)).mpr hmerged

/-- A block is cut, and what it leaves is free, with the free block behind it if there is one. -/
theorem represents_cut {k : ℕ} (us : List HeapBlock) (lfree : ℕ)
    (hl : h.Lists base (xs ++ (⟨n, some d⟩ :: us ++ ys))) (hxs : Merged xs) (hys : Merged ys)
    (hhead : ∀ c ∈ ys.head?, c.data ≠ none) (hk : 20 ≤ k) (hdvd : 4 ∣ k)
    (hrest : k + 20 ≤ n + extent us) (hus : 4 ∣ extent us) (hd : d.length + 8 ≤ k)
    (hend : extent xs + n + extent us + extent ys = memSizeAligned)
    (hlow : lfree = lowest 0 (xs ++ ⟨k, some d⟩ :: ⟨n + extent us - k, none⟩ :: ys)) :
    Represents base
      ⟨h.ram.insertMem (extent xs) (extent xs + k) (extent xs + n + extent us), lfree⟩
      (xs ++ ⟨k, some d⟩ :: ⟨n + extent us - k, none⟩ :: ys) := by
  have hlinked := (Ram.linked_append.mp hl.linked).2
  rw [Ram.linked_append] at hlinked
  have hlast := hlinked.2.extent_eq_or
  have hnil : extent xs + n + extent us = memSizeAligned → ys = [] := by
    intro heq
    exact hlast.resolve_right (by omega)
  have hlast' : extent ys = 0 ∨ 20 ≤ extent ys := hlast.imp_left fun heq => by rw [heq, extent_nil]
  rw [memSizeAligned_eq] at hend
  have hinsert := Ram.Linked.insertMem hl.linked (by omega) hnil hk hdvd hrest hus
    (by simpa using hd)
  refine ⟨⟨hinsert, ?_, hlow, ?_, fun a ha => ?_⟩, ?_⟩
  · rw [extent_append, extent_cons, extent_cons, memSizeAligned_eq]
    simp only
    omega
  · simp only
    rw [Ram.used_insertMem (by omega) (by omega) (by omega) (by rw [memSizeAligned_eq]; omega)]
    exact hl.ramEnd
  · rw [memSizeAligned_eq] at ha
    simp only
    rw [Ram.insertMem_of_ne (by omega) (by omega) (by omega)]
    exact hl.outside a (by rwa [memSizeAligned_eq])
  · refine (merged_taken (by simp)).mpr ⟨hxs, ?_⟩
    rw [← List.nil_append (_ :: ys)]
    exact (merged_free rfl).mpr ⟨merged_nil, hys, by simp, hhead⟩

/-- The free block behind a block that is cut moves down. -/
theorem becomes_moveDown {k m : ℕ}
    (hr : h.Represents base (xs ++ ⟨n, some d⟩ :: ⟨m, none⟩ :: ys)) (hk : 20 ≤ k) (hdvd : 4 ∣ k)
    (hkn : k < n) (hd : d.length + 8 ≤ k) :
    Becomes base ⟨h.ram.insertMem (extent xs) (extent xs + k) (extent xs + n + m),
      if h.lfree = extent xs + n then extent xs + k else h.lfree⟩
      (contents 8 (xs ++ ⟨n, some d⟩ :: ⟨m, none⟩ :: ys)) := by
  have hend := hr.end_le
  have hm : HeapBlock.Fits ⟨m, none⟩ := hr.next.fits
  have hmsize : 20 ≤ m := hm.le_size
  obtain ⟨hxs, hys⟩ := (merged_taken (b := (⟨n, some d⟩ : HeapBlock)) (by simp)).mp hr.merged
  rw [← List.nil_append (_ :: ys), merged_free rfl] at hys
  simp only [extent_cons] at hend
  have hcut := represents_cut [⟨m, none⟩]
    (if h.lfree = extent xs + n then extent xs + k else h.lfree) hr.toLists hxs hys.2.1
    hys.2.2.2 hk hdvd (by simp only [extent_cons, extent_nil]; omega)
    (by simpa using hm.dvd_size) hd (by simp only [extent_cons, extent_nil]; omega) ?_
  · simp only [extent_cons, extent_nil, Nat.add_zero] at hcut
    refine ⟨_, hcut, ?_⟩
    have hdivide : contents 8 (xs ++ ⟨n, some d⟩ :: ⟨n + m - n, none⟩ :: ys) =
        contents 8 (xs ++ ⟨n + m, some d⟩ :: ys) := contents_divide (by omega)
    rw [Nat.add_sub_cancel_left] at hdivide
    rw [contents_divide (by omega), ← hdivide]
  · have hmove : lowest 0 (xs ++ ⟨k, some d⟩ ::
        ⟨n + extent [(⟨m, none⟩ : HeapBlock)] - k, none⟩ :: ys) =
        if lowest 0 (xs ++ ⟨n, some d⟩ :: ⟨m, none⟩ :: ys) = 0 + extent xs + n
        then 0 + extent xs + k else lowest 0 (xs ++ ⟨n, some d⟩ :: ⟨m, none⟩ :: ys) :=
      lowest_move hr.pos
    rw [hmove, Nat.zero_add, ← hr.lfree]

/-- What is cut off a block is free. -/
theorem becomes_split {k : ℕ} (hr : h.Represents base (xs ++ ⟨n, some d⟩ :: ys))
    (hhead : ∀ c ∈ ys.head?, c.data ≠ none) (hk : 20 ≤ k) (hdvd : 4 ∣ k) (hkn : k + 20 ≤ n)
    (hd : d.length + 8 ≤ k) :
    Becomes base ⟨h.ram.insertMem (extent xs) (extent xs + k) (extent xs + n),
      if extent xs + k < h.lfree then extent xs + k else h.lfree⟩
      (contents 8 (xs ++ ⟨n, some d⟩ :: ys)) := by
  have hend := hr.end_le
  obtain ⟨hxs, hys⟩ := (merged_taken (b := (⟨n, some d⟩ : HeapBlock)) (by simp)).mp hr.merged
  have hcut := represents_cut [] (if extent xs + k < h.lfree then extent xs + k else h.lfree)
    hr.toLists hxs hys hhead hk hdvd (by rw [extent_nil]; omega) (by simp) hd
      (by rw [extent_nil]; omega) ?_
  · rw [extent_nil, Nat.add_zero, Nat.add_zero] at hcut
    exact ⟨_, hcut, contents_divide (by omega)⟩
  · have hpos : ∀ c ∈ xs ++ [(⟨k, some d⟩ : HeapBlock)], 0 < c.size := by
      rw [List.forall_mem_append, List.forall_mem_singleton]
      exact ⟨hr.pos, Nat.zero_lt_of_lt hk⟩
    have hgive : lowest 0 ((xs ++ [⟨k, some d⟩]) ++ ⟨n - k, none⟩ :: ys) =
        if 0 + extent (xs ++ [⟨k, some d⟩]) <
          lowest 0 ((xs ++ [⟨k, some d⟩]) ++ ⟨n - k, some d⟩ :: ys)
        then 0 + extent (xs ++ [⟨k, some d⟩])
        else lowest 0 ((xs ++ [⟨k, some d⟩]) ++ ⟨n - k, some d⟩ :: ys) :=
      lowest_give rfl (by simp) (Nat.sub_pos_of_lt (by omega)) hpos
    rw [List.append_assoc, List.singleton_append, List.append_assoc, List.singleton_append,
      lowest_divide (w := d), Nat.add_sub_cancel' (by omega), ← hr.lfree] at hgive
    rw [extent_nil, Nat.add_zero, hgive]
    simp

/-- **Trimming.** The owner keeps the beginning of what was kept at the address. -/
theorem becomes_memTrim {newsize : UInt16} (hr : h.Represents base (xs ++ ⟨n, some d⟩ :: ys))
    (hle : newsize.toNat ≤ d.length) :
    ∃ h', memTrim (extent xs + 8) newsize h = (h', some (extent xs + 8)) ∧
      h'.Becomes base (update (contents 8 (xs ++ ⟨n, some d⟩ :: ys)) (extent xs + 8)
        (some (d.take newsize.toNat))) := by
  have hend := hr.end_le
  have hfits := hr.starts.fits
  have hdata : d.length + 8 ≤ n := hfits.data d rfl
  have hsize : 20 ≤ n := hfits.le_size
  have hdvdn : 4 ∣ n := hfits.dvd_size
  have hroom : h.ram.room (extent xs) = n - 8 := hr.room
  have hnext : (h.ram.mem (extent xs)).next = extent xs + n := hr.starts.next
  obtain ⟨hmin, hdvd⟩ := dataSize_spec newsize
  have hcut : dataSize newsize + 8 ≤ n := by
    rw [dataSize, lwipMemAlignSize, minSizeAligned]
    omega
  have hkeep : (d.take newsize.toNat).length ≤ dataSize newsize := by
    have hlow := (@le_dataSize_iff newsize).mpr (by simp only [memSizeAligned_eq] at hend; omega)
    rw [List.length_take]
    omega
  have hholds : h.ram.Holds (extent xs + 8) (d.take newsize.toNat) := by
    intro i x hx
    rw [List.getElem?_take] at hx
    split_ifs at hx
    exact hr.starts.holds d rfl i x hx
  have hr' := represents_refill hr (fun _ _ => rfl) (by omega) hholds
  obtain ⟨hxs, hys⟩ := (merged_taken (b := (⟨n, some d⟩ : HeapBlock)) (by simp)).mp hr.merged
  simp only [memSizeAligned_eq] at hend
  rw [Nat.add_comm (extent xs) 8, update_contents hr.pos, Nat.add_comm 8 (extent xs), memTrim]
  simp only [sizeofStructMem_eq, Nat.add_sub_cancel, hroom, hnext, minSizeAligned]
  rw [if_neg (by rw [memSizeAligned_eq]; omega), if_neg (by rw [memSizeAligned_eq]; omega),
    if_neg (by omega)]
  have hptr : (extent xs + 8 + dataSize newsize) % 2 ^ 16 = extent xs + (dataSize newsize + 8) := by
    omega
  rw [hptr]
  by_cases hsame : dataSize newsize = (n - 8) % 2 ^ 16
  · rw [if_pos hsame]
    exact ⟨h, rfl, _, hr', rfl⟩
  rw [if_neg hsame]
  by_cases hbehind : (h.ram.mem (extent xs + n)).used = 0
  · obtain ⟨m, zs, rfl⟩ := hr.behind_iff.mp hbehind
    have hnextnext : (h.ram.mem (extent xs + n)).next = extent xs + n + m := hr.next.next
    rw [if_pos hbehind, hnextnext]
    exact ⟨_, rfl, becomes_moveDown hr' (by omega) (by omega) (by omega) (by omega)⟩
  · rw [if_neg hbehind]
    have hhead := hr.head_taken hbehind
    by_cases hroomy : dataSize newsize + 8 + 12 ≤ (n - 8) % 2 ^ 16
    · rw [if_pos hroomy]
      exact ⟨_, rfl, becomes_split hr' hhead (by omega) (by omega) (by omega) (by omega)⟩
    · rw [if_neg hroomy]
      exact ⟨h, rfl, _, hr', rfl⟩

end MemHeap

end FanGateway.Lwip
