import FanGateway.Lib.Layout
import FanGateway.Lib.Machine
import FanGateway.Malloc.Pool

/-!
# Runs of the allocator

A session allocates any sizes the block counter can hold and frees pointers it
was given and has not freed yet. The pointers in use form a layout of the pool's
blocks, and the table holds the labels of that layout in every state a session
can reach. What an allocation and a free do to the table then follows from what
adding and removing a run do to the labels.
-/

namespace FanGateway.Malloc

open Lib

/-- A pointer in use and the size it was requested with. -/
structure Live where
  ptr : ℕ
  size : ℕ
  deriving DecidableEq, Repr

structure Session (b : Bank) where
  dev : MallcoDev b
  live : List Live

inductive Op
  | malloc (size : ℕ)
  | free (ptr : ℕ)
  deriving DecidableEq, Repr

variable {b : Bank}

/-- The sizes and pointers a caller may pass: a size the block counter can hold, the null
pointer or a pointer in use. -/
def Legal (s : Session b) : Op → Prop
  | .malloc size => size ≤ 65535 * b.memblksize
  | .free ptr => ptr = 0 ∨ ∃ a ∈ s.live, a.ptr = ptr

instance (s : Session b) (op : Op) : Decidable (Legal s op) := by
  cases op <;> unfold Legal <;> infer_instance

def Session.apply (s : Session b) : Op → Session b
  | .malloc size =>
    let (ptr, dev) := mymalloc size s.dev
    ⟨dev, if ptr = 0 then s.live else ⟨ptr, size⟩ :: s.live⟩
  | .free ptr => ⟨myfree ptr s.dev, s.live.filter fun a => a.ptr ≠ ptr⟩

/-- The sessions of a memory area, from before its first use on. -/
def sessions (b : Bank) : Machine (Session b) Op where
  init := ⟨boot b, []⟩
  step s op := if Legal s op then some (s.apply op) else none

/-- The run of blocks of an allocation. -/
def span (b : Bank) (a : Live) : Span :=
  ⟨(a.ptr - b.membase) / b.memblksize, blocks b a.size⟩

/-! ## The table holds the labels of the layout -/

/-- A session whose pointers form a layout and whose table holds its labels. -/
structure Represents (s : Session b) (L : Layout b.memtblsize) : Prop where
  spans : L.spans = s.live.map (span b)
  memmap : ∀ j, s.dev.memmap.peek j = L.label j
  ptr : ∀ a ∈ s.live, a.ptr = b.membase + (span b a).start * b.memblksize
  idle : s.dev.memrdy = false → s.live = []

section Represents

variable {s : Session b} {L : Layout b.memtblsize}

theorem represents_boot : Represents (sessions b).init Layout.empty where
  spans := rfl
  memmap j := by simp [sessions, boot, Buffer.peek]
  ptr := by simp [sessions]
  idle := fun _ => rfl

/-- Initialising an area that has not been used leaves its table as it was. -/
theorem Represents.init (h : Represents s L) (hidle : s.dev.memrdy = false) :
    Represents ⟨myMemInit s.dev, s.live⟩ L := by
  refine ⟨h.spans, fun j => ?_, h.ptr, fun _ => h.idle hidle⟩
  have hnone : L.label j = 0 := by
    apply Layout.label_eq_zero
    intro t ht
    rw [h.spans, h.idle hidle] at ht
    exact absurd ht List.not_mem_nil
  rw [hnone]
  simp [myMemInit, Buffer.peek]

theorem Represents.mem_spans (h : Represents s L) {a : Live} (ha : a ∈ s.live) :
    span b a ∈ L.spans := by
  rw [h.spans]
  exact List.mem_map_of_mem ha

/-- The entries of an allocation in use are not zero. -/
theorem Represents.taken (h : Represents s L) {a : Live} (ha : a ∈ s.live) {j : ℕ}
    (hj : (span b a).Covers j) : s.dev.memmap.peek j ≠ 0 := by
  have hspan := h.mem_spans ha
  have hpos := L.nonempty _ hspan
  rw [h.memmap j, Layout.label_eq_len hspan hj]
  omega

/-- Different allocations in use have no block in common. -/
theorem Represents.apart (h : Represents s L) {a a' : Live} (ha : a ∈ s.live)
    (ha' : a' ∈ s.live) (hne : a' ≠ a) : (span b a').Apart (span b a) := by
  have hpairwise : s.live.Pairwise fun a c => (span b a).Apart (span b c) :=
    List.pairwise_map.mp (h.spans ▸ L.disjoint)
  have : Std.Symm fun a c => (span b a).Apart (span b c) := ⟨fun _ _ hac => symm hac⟩
  exact hpairwise.forall ha' ha hne

theorem Represents.ready (h : Represents s L) {a : Live} (ha : a ∈ s.live) :
    s.dev.memrdy = true := by
  by_contra hnot
  rw [h.idle (Bool.eq_false_iff.mpr hnot)] at ha
  exact absurd ha List.not_mem_nil

/-- An allocation adds its run to the layout. -/
theorem Represents.malloc (h : Represents s L) (hready : s.dev.memrdy = true) {size : ℕ}
    (hfits : size ≤ 65535 * b.memblksize) :
    ∃ L', Represents (s.apply (.malloc size)) L' := by
  rcases mymalloc_cases hready hfits with ⟨-, heq⟩ | ⟨o, hpos, hgreatest, heq⟩
  · refine ⟨L, ?_⟩
    simpa only [Session.apply, heq, if_true] using h
  · obtain ⟨hroom, hzero⟩ := hgreatest.1
    have hbase := b.base_pos
    have hblk := b.blksize_pos
    have hspan : span b ⟨b.membase + o * b.memblksize, size⟩ = ⟨o, blocks b size⟩ := by
      simp only [span, Nat.add_sub_cancel_left, Nat.mul_div_cancel _ hblk]
    -- zero entries are free blocks
    have hfree (j : ℕ) (hj : (Span.mk o (blocks b size)).Covers j) : L.label j = 0 := by
      rw [← h.memmap j]
      exact hzero j hj.1 hj.2
    refine ⟨L.insert ⟨o, blocks b size⟩ (blocks_pos hpos) hroom hfree, ?_⟩
    simp only [Session.apply, heq]
    rw [if_neg (by omega)]
    refine ⟨?_, fun j => ?_, ?_, fun hnot => ?_⟩
    · rw [List.map_cons, hspan, ← h.spans]
      rfl
    · rw [peek_mark, Layout.label_insert, h.memmap j]
      exact if_congr (by simp only [Span.Covers]; omega) rfl rfl
    · rw [List.forall_mem_cons]
      exact ⟨by rw [hspan], h.ptr⟩
    · exact absurd hready (by simp only at hnot; simp [hnot])

/-- What a free does to the table. -/
theorem Represents.peek_myfree (h : Represents s L) {a : Live} (ha : a ∈ s.live) :
    myfree a.ptr s.dev =
        { s.dev with memmap := clear s.dev.memmap (span b a).start (span b a).len } ∧
      ∀ j, (myfree a.ptr s.dev).memmap.peek j =
        if (span b a).Covers j then 0 else s.dev.memmap.peek j := by
  have hspan := h.mem_spans ha
  have hpos := L.nonempty _ hspan
  have hwithin := L.within _ hspan
  -- the first entry holds the length of the run it belongs to
  have hcount : s.dev.memmap.peek (span b a).start = (span b a).len := by
    rw [h.memmap, Layout.label_eq_len hspan (Span.covers_start hpos)]
  have hdev := myfree_eq (h.ready ha) (o := (span b a).start) (by omega)
  rw [← h.ptr a ha, hcount] at hdev
  refine ⟨hdev, fun j => ?_⟩
  rw [hdev]
  exact peek_clear

/-- Freeing a pointer in use removes its run from the layout. -/
theorem Represents.free (h : Represents s L) {a : Live} (ha : a ∈ s.live) :
    Represents (s.apply (.free a.ptr)) (L.erase (span b a).start) := by
  obtain ⟨hdev, hpeek⟩ := h.peek_myfree ha
  refine ⟨?_, fun j => ?_, fun c hc => h.ptr c (List.mem_filter.mp hc).1, fun hnot => ?_⟩
  · simp only [Layout.erase, Session.apply, h.spans, List.filter_map]
    congr 1
    apply List.filter_congr
    intro c hc
    -- pointers in use and their first blocks determine each other
    have hiff : (span b c).start = (span b a).start ↔ c.ptr = a.ptr :=
      ⟨fun heq => by rw [h.ptr c hc, h.ptr a ha, heq], fun heq => by simp only [span, heq]⟩
    simp only [Function.comp_apply, Ne, hiff]
  · rw [Layout.label_erase (h.mem_spans ha), ← h.memmap j]
    exact hpeek j
  · simp only [Session.apply, hdev] at hnot
    exact absurd (h.ready ha) (by simp [hnot])

/-- The null pointer is in use nowhere, and freeing it changes nothing. -/
theorem Represents.free_null (h : Represents s L) : s.apply (.free 0) = s := by
  have hkept : s.live.filter (fun a => a.ptr ≠ 0) = s.live := by
    apply List.filter_eq_self.mpr
    intro a ha
    have hptr := h.ptr a ha
    have hbase := b.base_pos
    simp only [ne_eq, decide_eq_true_eq]
    omega
  simp only [Session.apply, hkept]
  simp [myfree]

/-- One step keeps the table and the layout in agreement. -/
theorem Represents.step (h : Represents s L) {op : Op} (hlegal : Legal s op) :
    ∃ L', Represents (s.apply op) L' := by
  cases op with
  | malloc size =>
    cases hready : s.dev.memrdy with
    | true => exact h.malloc hready hlegal
    -- the first allocation initialises the area, which changes nothing that counts
    | false =>
      have hinit : ∃ L', Represents (Session.apply ⟨myMemInit s.dev, s.live⟩ (.malloc size)) L' :=
        (h.init hready).malloc rfl hlegal
      simpa only [Session.apply, mymalloc_of_not_ready size hready] using hinit
  | free ptr =>
    rcases hlegal with rfl | ⟨a, ha, rfl⟩
    · exact ⟨L, by rwa [h.free_null]⟩
    · exact ⟨_, h.free ha⟩

theorem represents_of_reachable (h : (sessions b).Reachable s) : ∃ L, Represents s L := by
  refine h.invariant (P := fun s => ∃ L, Represents s L) ⟨_, represents_boot⟩ ?_
  rintro s op t ⟨L, hL⟩ hstep
  simp only [sessions] at hstep
  split_ifs at hstep with hlegal
  obtain rfl := Option.some.inj hstep
  exact hL.step hlegal

end Represents

/-! ## The use of the pool -/

/-- The percentage is that of the labelled blocks. -/
theorem myMemPerused_eq (d : MallcoDev b) :
    myMemPerused d =
      100 * ((Finset.range b.memtblsize).filter fun j => d.memmap.peek j ≠ 0).card /
        b.memtblsize := by
  have hN := b.tblsize_pos
  have hN16 := b.tblsize_lt
  -- the loop counts the entries that are not zero; the counter does not overflow
  have hused : forRange 0 b.memtblsize
      (fun i used => if d.memmap.peek i ≠ 0 then (used + 1) % 2 ^ 32 else used) 0 =
        ((Finset.range b.memtblsize).filter fun j => d.memmap.peek j ≠ 0).card := by
    refine forRange_induction (P := fun t used =>
      used = ((Finset.range t).filter fun j => d.memmap.peek j ≠ 0).card) (Nat.zero_le _) rfl ?_
    intro t used _ ht hind
    have hbound := Finset.card_filter_le (Finset.range t) fun j => d.memmap.peek j ≠ 0
    rw [Finset.card_range, ← hind] at hbound
    rw [Finset.range_add_one, Finset.filter_insert]
    split_ifs with hzero
    · rw [Finset.card_insert_of_notMem (by simp), ← hind, Nat.mod_eq_of_lt (by omega)]
    · exact hind
  have hcard := Finset.card_filter_le (Finset.range b.memtblsize) fun j => d.memmap.peek j ≠ 0
  rw [Finset.card_range] at hcard
  rw [myMemPerused, hused, Nat.mod_eq_of_lt (a := _ * 100) (by omega), Nat.mul_comm]
  refine Nat.mod_eq_of_lt (lt_of_le_of_lt ?_ (show 100 < 256 by omega))
  exact Nat.div_le_of_le_mul (by rw [Nat.mul_comm b.memtblsize]; exact Nat.mul_le_mul_left _ hcard)

/-! ## The allocator -/

/-- What holds of the table of a session. -/
structure TableCorrect (s : Session b) : Prop where
  /-- An allocation starts at a block of the pool, lies inside and is as large as requested. -/
  inside : ∀ a ∈ s.live, a.ptr = b.membase + (span b a).start * b.memblksize ∧
    (span b a).start + (span b a).len ≤ b.memtblsize ∧
    a.size ≤ (span b a).len * b.memblksize
  disjoint : (s.live.map (span b)).Pairwise Span.Apart
  taken : ∀ a ∈ s.live, ∀ j, (span b a).Covers j → s.dev.memmap.peek j = (span b a).len
  free : ∀ j, (∀ a ∈ s.live, ¬ (span b a).Covers j) → s.dev.memmap.peek j = 0
  perused : myMemPerused s.dev =
    100 * (s.live.map fun a => (span b a).len).sum / b.memtblsize

/-- What holds of the next calls of a session. -/
structure CallsCorrect (s : Session b) : Prop where
  /-- A free clears the entries of its allocation and no others. -/
  free_exact : ∀ a ∈ s.live, ∀ j, (myfree a.ptr s.dev).memmap.peek j =
    if (span b a).Covers j then 0 else s.dev.memmap.peek j
  /-- A free right after its allocation restores the table. -/
  free_malloc : ∀ size ≤ 65535 * b.memblksize,
    (myfree (mymalloc size s.dev).1 (mymalloc size s.dev).2).memmap = s.dev.memmap
  /-- After a free and any further frees, freeing the same pointer again changes nothing. -/
  free_again : ∀ a ∈ s.live, ∀ (ptrs : List ℕ) (t : Session b),
    (sessions b).run (s.apply (.free a.ptr)) (ptrs.map .free) = some t →
      myfree a.ptr t.dev = t.dev

section Correct

variable {s : Session b} {L : Layout b.memtblsize}

theorem Represents.tableCorrect (h : Represents s L) : TableCorrect s where
  inside a ha := ⟨h.ptr a ha, L.within _ (h.mem_spans ha), le_blocks_mul _⟩
  disjoint := h.spans ▸ L.disjoint
  taken a ha j hj := by rw [h.memmap j, Layout.label_eq_len (h.mem_spans ha) hj]
  free j hfree := by
    rw [h.memmap j]
    apply Layout.label_eq_zero
    intro t ht
    rw [h.spans] at ht
    obtain ⟨a, ha, rfl⟩ := List.mem_map.mp ht
    exact hfree a ha
  perused := by
    have hsum : (L.spans.map Span.len).sum = (s.live.map fun a => (span b a).len).sum := by
      rw [h.spans, List.map_map]
      rfl
    simp only [myMemPerused_eq, h.memmap, Layout.card_labelled, hsum]

/-- A free undoes the allocation before it. -/
theorem myfree_mymalloc {d : MallcoDev b} (hready : d.memrdy = true) {size : ℕ}
    (hfits : size ≤ 65535 * b.memblksize) :
    myfree (mymalloc size d).1 (mymalloc size d).2 = d := by
  rcases mymalloc_cases hready hfits with ⟨-, heq⟩ | ⟨o, hpos, hgreatest, heq⟩
  · rw [heq, myfree, if_pos rfl]
  · have hrun : FreeRun d.memmap (blocks b size) o := hgreatest.1
    have hn := blocks_pos (b := b) hpos
    have hroom := hrun.1
    have hfirst : (mark d.memmap o (blocks b size)).peek o = blocks b size := by
      rw [peek_mark, if_pos ⟨le_rfl, by omega, by omega⟩]
    rw [heq, myfree_eq (d := { d with memmap := mark d.memmap o (blocks b size) }) hready
      (by omega), hfirst, clear_mark hrun]

theorem Represents.free_malloc (h : Represents s L) {size : ℕ}
    (hfits : size ≤ 65535 * b.memblksize) :
    (myfree (mymalloc size s.dev).1 (mymalloc size s.dev).2).memmap = s.dev.memmap := by
  cases hready : s.dev.memrdy with
  | true => rw [myfree_mymalloc hready hfits]
  | false =>
    rw [mymalloc_of_not_ready size hready, myfree_mymalloc rfl hfits]
    apply Buffer.ext_peek
    intro j _
    rw [h.memmap j, ← (h.init hready).memmap j]

/-- Further frees neither bring a run back nor take one. -/
theorem free_run_sublist {ptrs : List ℕ} {t : Session b} {L : Layout b.memtblsize}
    (h : Represents s L) (hrun : (sessions b).run s (ptrs.map .free) = some t) :
    t.dev.memrdy = s.dev.memrdy ∧ ∀ j, s.dev.memmap.peek j = 0 → t.dev.memmap.peek j = 0 := by
  -- induction on the further frees; each removes a run from the layout
  induction ptrs generalizing s L with
  | nil =>
    obtain rfl := Option.some.inj hrun
    exact ⟨rfl, fun _ hj => hj⟩
  | cons ptr ptrs ih =>
    rw [List.map_cons, Machine.run_cons, Option.bind_eq_some_iff] at hrun
    obtain ⟨u, hstep, hrest⟩ := hrun
    simp only [sessions] at hstep
    split_ifs at hstep with hlegal
    obtain rfl := Option.some.inj hstep
    rcases hlegal with rfl | ⟨a, ha, rfl⟩
    · rw [h.free_null] at hrest
      exact ih h hrest
    · obtain ⟨hready, hzero⟩ := ih (h.free ha) hrest
      obtain ⟨hdev, hpeek⟩ := h.peek_myfree ha
      refine ⟨hready.trans (by simp only [Session.apply, hdev]), fun j hj => hzero j ?_⟩
      simp only [Session.apply, hpeek j, hj, ite_self]

theorem Represents.free_again (h : Represents s L) {a : Live} (ha : a ∈ s.live) {ptrs : List ℕ}
    {t : Session b}
    (hrun : (sessions b).run (s.apply (.free a.ptr)) (ptrs.map .free) = some t) :
    myfree a.ptr t.dev = t.dev := by
  obtain ⟨hdev, hpeek⟩ := h.peek_myfree ha
  have hspan := h.mem_spans ha
  have hpos := L.nonempty _ hspan
  have hwithin := L.within _ hspan
  obtain ⟨hready, hzero⟩ := free_run_sublist (h.free ha) hrun
  have hkept : t.dev.memrdy = true := by
    rw [hready, Session.apply, hdev]
    exact h.ready ha
  -- the first entry is zero, so there is nothing to clear
  have hfirst : t.dev.memmap.peek (span b a).start = 0 := by
    refine hzero _ ?_
    simp only [Session.apply, hpeek]
    rw [if_pos (Span.covers_start hpos)]
  rw [h.ptr a ha, myfree_eq hkept (by omega), hfirst]
  rfl

end Correct

/-- **The allocator.** In every state a session reaches, the table describes the pointers in
use exactly, and frees do what they should. -/
theorem allocator_correct (b : Bank) {s : Session b} (h : (sessions b).Reachable s) :
    TableCorrect s ∧ CallsCorrect s := by
  obtain ⟨L, hL⟩ := represents_of_reachable h
  exact ⟨hL.tableCorrect, fun a ha => (hL.peek_myfree ha).2, fun _ hfits => hL.free_malloc hfits,
    fun _ ha _ _ hrun => hL.free_again ha hrun⟩

/-- Two allocations in the external area, which leave one of its four blocks free. -/
theorem allocator_correct_sramex :
    ∃ s, (sessions sramex).run (sessions sramex).init [.malloc 40, .malloc 8] = some s ∧
      TableCorrect s ∧ CallsCorrect s :=
  ⟨_, rfl, allocator_correct sramex ⟨[.malloc 40, .malloc 8], Machine.exec_of_run rfl⟩⟩

end FanGateway.Malloc
