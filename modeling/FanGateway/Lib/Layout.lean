import Mathlib.Algebra.GroupWithZero.Nat
import Mathlib.Algebra.Order.BigOperators.Group.Finset
import Mathlib.Order.Interval.Finset.Nat

/-!
# Disjoint runs of blocks

A layout of `N` blocks is a list of nonempty runs that lie inside and do not
overlap. It is what an allocator stands for: the runs handed out and not given
back. Its label at a block is the length of the run that covers the block, and
zero at a free one.

Adding a run over free blocks and removing the run at a given start are the only
ways to change a layout. The lemmas say what they do to the labels and how many
blocks are labelled.
-/

namespace Lib

/-- The blocks `start, ..., start + len - 1`. -/
structure Span where
  start : ℕ
  len : ℕ
  deriving DecidableEq, Repr

namespace Span

def Covers (s : Span) (j : ℕ) : Prop := s.start ≤ j ∧ j < s.start + s.len

instance (s : Span) (j : ℕ) : Decidable (s.Covers j) := inferInstanceAs (Decidable (_ ∧ _))

/-- No block is in both. -/
def Apart (s t : Span) : Prop := ∀ j, s.Covers j → ¬ t.Covers j

variable {s t : Span}

instance : Std.Symm Apart := ⟨fun _ _ h j ht hs => h j hs ht⟩

theorem covers_start (h : 0 < s.len) : s.Covers s.start := ⟨le_rfl, by omega⟩

end Span

/-- Nonempty disjoint runs of `N` blocks. -/
structure Layout (N : ℕ) where
  spans : List Span
  nonempty : ∀ s ∈ spans, 0 < s.len
  within : ∀ s ∈ spans, s.start + s.len ≤ N
  disjoint : spans.Pairwise Span.Apart

namespace Layout

variable {N : ℕ} (L : Layout N) {s t : Span} {j : ℕ}

def empty : Layout N := ⟨[], by simp, by simp, .nil⟩

/-- The length of the run that covers a block, zero at a free block. -/
def label (j : ℕ) : ℕ := ((L.spans.find? fun s => decide (s.Covers j)).map Span.len).getD 0

@[simp] theorem label_empty : (empty : Layout N).label j = 0 := rfl

/-- Two runs with a block in common are the same run. -/
theorem eq_of_covers {L : Layout N} (hs : s ∈ L.spans) (ht : t ∈ L.spans)
    (hsj : s.Covers j) (htj : t.Covers j) : s = t := by
  by_contra hne
  exact L.disjoint.forall hs ht hne j hsj htj

variable {L}

theorem label_eq_len (hs : s ∈ L.spans) (hj : s.Covers j) : L.label j = s.len := by
  obtain ⟨t, ht⟩ : ∃ t, L.spans.find? (fun s => decide (s.Covers j)) = some t :=
    Option.isSome_iff_exists.mp (List.find?_isSome.mpr ⟨s, hs, by simpa using hj⟩)
  have htj : t.Covers j := by simpa using List.find?_some ht
  -- the run that is found covers the block too, so it is this one
  rw [label, ht, eq_of_covers hs (List.mem_of_find?_eq_some ht) hj htj]
  rfl

theorem label_eq_zero (h : ∀ s ∈ L.spans, ¬ s.Covers j) : L.label j = 0 := by
  rw [label, List.find?_eq_none.mpr (by simpa using h)]
  rfl

/-- The label is zero exactly at the free blocks. -/
theorem label_eq_zero_iff : L.label j = 0 ↔ ∀ s ∈ L.spans, ¬ s.Covers j := by
  constructor
  · intro hlabel s hs hj
    have hlen := label_eq_len hs hj
    have hpos := L.nonempty s hs
    omega
  · exact label_eq_zero

variable (L)

/-- Add a run over free blocks. -/
def insert (s : Span) (hpos : 0 < s.len) (hwithin : s.start + s.len ≤ N)
    (hfree : ∀ j, s.Covers j → L.label j = 0) : Layout N where
  spans := s :: L.spans
  nonempty := List.forall_mem_cons.mpr ⟨hpos, L.nonempty⟩
  within := List.forall_mem_cons.mpr ⟨hwithin, L.within⟩
  disjoint := List.pairwise_cons.mpr
    ⟨fun t ht j hs => label_eq_zero_iff.mp (hfree j hs) t ht, L.disjoint⟩

/-- Remove the run that starts at a block. -/
def erase (start : ℕ) : Layout N where
  spans := L.spans.filter fun s => s.start ≠ start
  nonempty := fun s hs => L.nonempty s (List.mem_filter.mp hs).1
  within := fun s hs => L.within s (List.mem_filter.mp hs).1
  disjoint := L.disjoint.filter _

variable {L}

theorem label_insert {hpos : 0 < s.len} {hwithin : s.start + s.len ≤ N}
    {hfree : ∀ j, s.Covers j → L.label j = 0} :
    (L.insert s hpos hwithin hfree).label j = if s.Covers j then s.len else L.label j := by
  split_ifs with hj
  · exact label_eq_len List.mem_cons_self hj
  · simp [label, insert, hj]

theorem label_erase (hs : s ∈ L.spans) :
    (L.erase s.start).label j = if s.Covers j then 0 else L.label j := by
  have hsame (t : Span) (ht : t ∈ L.spans) (hstart : t.start = s.start) : t = s :=
    eq_of_covers ht hs (hstart ▸ Span.covers_start (L.nonempty t ht))
      (Span.covers_start (L.nonempty s hs))
  -- the block was in the run, in another one, or free
  split_ifs with hj
  · apply label_eq_zero
    intro t ht htj
    have hmem := List.mem_filter.mp ht
    have hne : t.start ≠ s.start := by simpa using hmem.2
    exact hne (congrArg Span.start (eq_of_covers hmem.1 hs htj hj))
  · by_cases hcovered : ∃ t ∈ L.spans, t.Covers j
    · obtain ⟨t, ht, htj⟩ := hcovered
      have hkept : t ∈ (L.erase s.start).spans := by
        refine List.mem_filter.mpr ⟨ht, ?_⟩
        have hne : t.start ≠ s.start := fun hstart => hj (hsame t ht hstart ▸ htj)
        simpa using hne
      rw [label_eq_len ht htj, label_eq_len hkept htj]
    · have hfree : ∀ t ∈ L.spans, ¬ t.Covers j := fun t ht htj => hcovered ⟨t, ht, htj⟩
      rw [label_eq_zero hfree, label_eq_zero fun t ht => hfree t (List.mem_filter.mp ht).1]

/-- The labelled blocks are as many as the runs have together. -/
theorem card_labelled :
    ((Finset.range N).filter fun j => L.label j ≠ 0).card = (L.spans.map Span.len).sum := by
  have hcovered : ((Finset.range N).filter fun j => L.label j ≠ 0) =
      (Finset.range N).filter fun j => ∃ s ∈ L.spans, s.Covers j := by
    apply Finset.filter_congr
    intro j _
    rw [Ne, label_eq_zero_iff]
    push Not
    rfl
  rw [hcovered]
  obtain ⟨spans, hnonempty, hwithin, hdisjoint⟩ := L
  simp only
  clear hcovered hnonempty
  -- induction on the runs: the first covers as many blocks as it is long, and none of the rest
  induction spans with
  | nil => simp
  | cons s spans ih =>
    rw [List.pairwise_cons] at hdisjoint
    rw [List.forall_mem_cons] at hwithin
    have hsplit : ((Finset.range N).filter fun j => ∃ t ∈ s :: spans, t.Covers j) =
        Finset.Ico s.start (s.start + s.len) ∪
          (Finset.range N).filter fun j => ∃ t ∈ spans, t.Covers j := by
      ext j
      have hinside (hj : s.Covers j) : j < N := lt_of_lt_of_le hj.2 hwithin.1
      simp only [List.exists_mem_cons_iff, Finset.mem_union, Finset.mem_filter, Finset.mem_range,
        Finset.mem_Ico]
      constructor
      · rintro ⟨hj, hs | hrest⟩
        · exact .inl hs
        · exact .inr ⟨hj, hrest⟩
      · rintro (hs | ⟨hj, hrest⟩)
        · exact ⟨hinside hs, .inl hs⟩
        · exact ⟨hj, .inr hrest⟩
    have hapart : Disjoint (Finset.Ico s.start (s.start + s.len))
        ((Finset.range N).filter fun j => ∃ t ∈ spans, t.Covers j) := by
      rw [Finset.disjoint_left]
      intro j hs hrest
      obtain ⟨-, t, ht, htj⟩ := Finset.mem_filter.mp hrest
      exact hdisjoint.1 t ht j (Finset.mem_Ico.mp hs) htj
    rw [hsplit, Finset.card_union_of_disjoint hapart, Nat.card_Ico, List.map_cons, List.sum_cons,
      ih hwithin.2 hdisjoint.2, Nat.add_sub_cancel_left]

end Layout

end Lib
