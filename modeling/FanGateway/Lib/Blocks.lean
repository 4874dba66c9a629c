import Mathlib.Data.List.Chain
import Mathlib.Logic.Function.Basic
import Mathlib.Tactic.SplitIfs
import Mathlib.Data.Nat.Notation

/-!
# Blocks one behind the other

The blocks of a heap fill a range without gaps. Each is free or keeps something for its owner, and
is known by the position where it starts. Dividing a free block or merging two changes what is kept
nowhere; taking one or giving it back changes it at one position.

A heap that merges neighbours has no two free blocks side by side. Where the lowest free block is
depends on the blocks before it only.
-/

namespace Lib

open Function (update)

/-- A block, with what is kept in it. -/
structure Block (α : Type*) where
  size : ℕ
  data : Option α
  deriving DecidableEq, Repr

namespace Block

variable {α : Type*} {a m n s : ℕ} {b c : Block α} {x : Option α} {xs ys zs : List (Block α)}

/-- The size of all blocks together. -/
def extent : List (Block α) → ℕ
  | [] => 0
  | b :: bs => b.size + extent bs

@[simp] theorem extent_nil : extent ([] : List (Block α)) = 0 := rfl

@[simp] theorem extent_cons : extent (b :: xs) = b.size + extent xs := rfl

@[simp] theorem extent_append : extent (xs ++ ys) = extent xs + extent ys := by
  induction xs with
  | nil => rw [List.nil_append, extent_nil, Nat.zero_add]
  | cons b xs ih => rw [List.cons_append, extent_cons, extent_cons, ih, Nat.add_assoc]

theorem size_le_extent (h : b ∈ xs) : b.size ≤ extent xs := by
  obtain ⟨us, ys, rfl⟩ := List.append_of_mem h
  rw [extent_append, extent_cons]
  omega

theorem length_le_extent (hpos : ∀ c ∈ xs, 0 < c.size) : xs.length ≤ extent xs := by
  induction xs with
  | nil => exact le_rfl
  | cons b xs ih =>
    rw [List.forall_mem_cons] at hpos
    have hsize := hpos.1
    have hrest := ih hpos.2
    rw [List.length_cons, extent_cons]
    omega

/-! ## What is kept where -/

/-- What is kept in the block that starts at a position, the first one starting at `s`. -/
def contents (s : ℕ) : List (Block α) → ℕ → Option α
  | [], _ => none
  | b :: bs, a => if a = s then b.data else contents (s + b.size) bs a

theorem contents_of_lt (h : a < s) : contents s xs a = none := by
  induction xs generalizing s with
  | nil => rfl
  | cons b xs ih => rw [contents, if_neg h.ne, ih (h.trans_le (Nat.le_add_right s b.size))]

theorem contents_cons :
    contents s (b :: xs) = update (contents (s + b.size) xs) s b.data := by
  funext a
  rw [contents, Function.update_apply]

/-- What is kept in a block is an entry of its own. -/
theorem contents_append_cons (hpos : ∀ c ∈ xs, 0 < c.size) :
    contents s (xs ++ ⟨n, x⟩ :: ys) =
      update (contents s (xs ++ ⟨n, none⟩ :: ys)) (s + extent xs) x := by
  induction xs generalizing s with
  | nil =>
    rw [List.nil_append, List.nil_append, contents_cons, contents_cons, extent_nil, Nat.add_zero,
      Function.update_idem]
  | cons b xs ih =>
    rw [List.forall_mem_cons] at hpos
    have hne : s ≠ s + extent (b :: xs) := by
      have hsize := hpos.1
      rw [extent_cons]
      omega
    rw [List.cons_append, List.cons_append, contents_cons, contents_cons, ih hpos.2,
      Nat.add_assoc, ← extent_cons, Function.update_comm hne]

/-- What is kept in one block changes at one position. -/
theorem update_contents {y : Option α} (hpos : ∀ c ∈ xs, 0 < c.size) :
    update (contents s (xs ++ ⟨n, x⟩ :: ys)) (s + extent xs) y =
      contents s (xs ++ ⟨n, y⟩ :: ys) := by
  rw [contents_append_cons hpos, Function.update_idem, ← contents_append_cons hpos]

/-- A block may leave part of itself free. -/
theorem contents_divide (hm : m < n) :
    contents s (xs ++ ⟨m, x⟩ :: ⟨n - m, none⟩ :: ys) = contents s (xs ++ ⟨n, x⟩ :: ys) := by
  induction xs generalizing s with
  | nil =>
    funext a
    simp only [List.nil_append, contents]
    split_ifs with hfirst hsecond
    · rfl
    · rw [contents_of_lt (by omega)]
    · rw [Nat.add_assoc, Nat.add_sub_cancel' hm.le]
  | cons b xs ih =>
    funext a
    rw [List.cons_append, List.cons_append, contents, contents, ih]

/-- Two free blocks keep as little as one of their size. -/
theorem contents_merge (hn : 0 < n) :
    contents s (xs ++ ⟨m, none⟩ :: ⟨n, none⟩ :: ys) = contents s (xs ++ ⟨m + n, none⟩ :: ys) := by
  have hdivide : contents s (xs ++ ⟨m, none⟩ :: ⟨m + n - m, none⟩ :: ys) =
      contents s (xs ++ ⟨m + n, none⟩ :: ys) := contents_divide (Nat.lt_add_of_pos_right hn)
  rwa [Nat.add_sub_cancel_left] at hdivide

/-- A block that keeps something starts where it is kept. -/
theorem exists_of_contents {y : α} (h : contents s zs a = some y) :
    ∃ xs n ys, zs = xs ++ ⟨n, some y⟩ :: ys ∧ a = s + extent xs := by
  induction zs generalizing s with
  | nil => cases h
  | cons b zs ih =>
    rw [contents] at h
    by_cases hstart : a = s
    · rw [if_pos hstart] at h
      exact ⟨[], b.size, zs, by rw [← h, List.nil_append], by rw [hstart, extent_nil, Nat.add_zero]⟩
    · rw [if_neg hstart] at h
      obtain ⟨xs, n, ys, rfl, rfl⟩ := ih h
      exact ⟨b :: xs, n, ys, rfl, by rw [extent_cons, Nat.add_assoc]⟩

/-- What is kept behind a block is kept behind all of it. -/
theorem le_of_contents {y : α} (h : contents s (xs ++ b :: ys) a = some y) (ha : s + extent xs < a) :
    s + extent xs + b.size ≤ a := by
  induction xs generalizing s with
  | nil =>
    rw [extent_nil, Nat.add_zero] at ha ⊢
    rw [List.nil_append, contents, if_neg (by omega)] at h
    by_contra hlt
    rw [contents_of_lt (by omega)] at h
    cases h
  | cons c xs ih =>
    rw [extent_cons, ← Nat.add_assoc] at ha ⊢
    rw [List.cons_append, contents, if_neg (by omega)] at h
    exact ih h ha

/-- A block that starts before some others do is not among them. -/
theorem mem_of_extent_lt {us vs : List (Block α)} (h : us ++ b :: vs = xs ++ ys)
    (hlt : extent us < extent xs) : b ∈ xs := by
  rcases List.append_eq_append_iff.mp h with ⟨zs, rfl, htail⟩ | ⟨zs, rfl, htail⟩
  · cases zs with
    | nil => simp at hlt
    | cons c zs =>
      obtain ⟨rfl, -⟩ := List.cons_eq_cons.mp htail
      exact List.mem_append_right _ List.mem_cons_self
  · rw [extent_append] at hlt
    omega

theorem dvd_extent {k : ℕ} (h : ∀ c ∈ xs, k ∣ c.size) : k ∣ extent xs := by
  induction xs with
  | nil => exact Nat.dvd_zero k
  | cons b xs ih =>
    rw [List.forall_mem_cons] at h
    exact Nat.dvd_add h.1 (ih h.2)

/-- Where nothing is kept, every block is free. -/
theorem free_of_contents (hpos : ∀ c ∈ zs, 0 < c.size) (h : ∀ a, contents s zs a = none) :
    ∀ c ∈ zs, c.data = none := by
  intro c hc
  obtain ⟨xs, ys, rfl⟩ := List.append_of_mem hc
  have hkept := h (s + extent xs)
  obtain ⟨n, x⟩ := c
  rwa [contents_append_cons fun c hc => hpos c (List.mem_append_left _ hc),
    Function.update_self] at hkept

/-! ## The lowest free block -/

/-- Where the lowest free block starts, or the end. -/
def lowest (s : ℕ) : List (Block α) → ℕ
  | [] => s
  | b :: bs => if b.data = none then s else lowest (s + b.size) bs

theorem lowest_of_free (h : b.data = none) : lowest s (b :: xs) = s := if_pos h

theorem le_lowest : s ≤ lowest s xs := by
  induction xs generalizing s with
  | nil => exact le_rfl
  | cons b xs ih =>
    rw [lowest]
    split_ifs
    · exact le_rfl
    · exact (Nat.le_add_right s b.size).trans ih

theorem lowest_append_of_taken (h : ∀ c ∈ xs, c.data ≠ none) :
    lowest s (xs ++ ys) = lowest (s + extent xs) ys := by
  induction xs generalizing s with
  | nil => rfl
  | cons b xs ih =>
    rw [List.forall_mem_cons] at h
    rw [List.cons_append, lowest, if_neg h.1, ih h.2, extent_cons, Nat.add_assoc]

theorem lowest_append_of_free (h : ∃ c ∈ xs, c.data = none) :
    lowest s (xs ++ ys) = lowest s xs := by
  induction xs generalizing s with
  | nil => exact absurd h (by simp)
  | cons b xs ih =>
    rw [List.cons_append, lowest, lowest]
    split_ifs with hb
    · rfl
    · rw [List.exists_mem_cons_iff] at h
      exact ih (h.resolve_left hb)

/-- If a block is free the lowest one is not the end. -/
theorem lowest_lt (h : ∃ c ∈ xs, c.data = none) (hpos : ∀ c ∈ xs, 0 < c.size) :
    lowest s xs < s + extent xs := by
  induction xs generalizing s with
  | nil => exact absurd h (by simp)
  | cons b xs ih =>
    rw [List.forall_mem_cons] at hpos
    rw [List.exists_mem_cons_iff] at h
    have hsize := hpos.1
    rw [lowest, extent_cons]
    split_ifs with hb
    · omega
    · have hrest := ih (s := s + b.size) (h.resolve_left hb) hpos.2
      omega

/-- From the first free block on, the blocks do not matter. -/
theorem lowest_congr (hb : b.data = none) (hc : c.data = none) :
    lowest s (xs ++ b :: ys) = lowest s (xs ++ c :: zs) := by
  induction xs generalizing s with
  | nil => rw [List.nil_append, List.nil_append, lowest_of_free hb, lowest_of_free hc]
  | cons e xs ih => rw [List.cons_append, List.cons_append, lowest, lowest, ih]

/-- What is kept in a block does not matter. -/
theorem lowest_congr_some {y z : α} :
    lowest s (xs ++ ⟨n, some y⟩ :: ys) = lowest s (xs ++ ⟨n, some z⟩ :: ys) := by
  induction xs generalizing s with
  | nil => rfl
  | cons e xs ih => rw [List.cons_append, List.cons_append, lowest, lowest, ih]

theorem lowest_divide {w y z : α} :
    lowest s (xs ++ ⟨m, some y⟩ :: ⟨n, some z⟩ :: ys) = lowest s (xs ++ ⟨m + n, some w⟩ :: ys) := by
  induction xs generalizing s with
  | nil => simp [lowest, Nat.add_assoc]
  | cons e xs ih => rw [List.cons_append, List.cons_append, lowest, lowest, ih]

/-- A free block is the lowest if and only if those before it are taken. -/
theorem lowest_eq_iff (hb : b.data = none) (hpos : ∀ c ∈ xs, 0 < c.size) :
    lowest s (xs ++ b :: ys) = s + extent xs ↔ ∀ c ∈ xs, c.data ≠ none := by
  constructor
  · intro heq c hc hfree
    have hlt := lowest_lt (s := s) ⟨c, hc, hfree⟩ hpos
    rw [lowest_append_of_free ⟨c, hc, hfree⟩] at heq
    omega
  · intro htaken
    rw [lowest_append_of_taken htaken, lowest_of_free hb]

/-- The lowest free block is not above any free one. -/
theorem lowest_le (hb : b.data = none) (hpos : ∀ c ∈ xs, 0 < c.size) :
    lowest s (xs ++ b :: ys) ≤ s + extent xs := by
  by_cases hfree : ∃ c ∈ xs, c.data = none
  · rw [lowest_append_of_free hfree]
    exact (lowest_lt hfree hpos).le
  · push Not at hfree
    rw [(lowest_eq_iff hb hpos).mpr hfree]

/-- A block that is given back becomes the lowest, or the lowest one is below it. -/
theorem lowest_give (hb : b.data = none) (hc : c.data ≠ none) (hsize : 0 < c.size)
    (hpos : ∀ c ∈ xs, 0 < c.size) :
    lowest s (xs ++ b :: ys) =
      if s + extent xs < lowest s (xs ++ c :: zs) then s + extent xs
      else lowest s (xs ++ c :: zs) := by
  by_cases hfree : ∃ c ∈ xs, c.data = none
  · have hlt := lowest_lt (s := s) hfree hpos
    rw [lowest_append_of_free hfree, lowest_append_of_free hfree, if_neg (by omega)]
  · push Not at hfree
    have hle : s + extent xs + c.size ≤ lowest (s + extent xs + c.size) zs := le_lowest
    rw [lowest_append_of_taken hfree, lowest_append_of_taken hfree, lowest_of_free hb, lowest,
      if_neg hc, if_pos (by omega)]

/-- The blocks below the lowest free one are taken. -/
theorem exists_lowest (s : ℕ) (zs : List (Block α)) :
    ∃ xs ys, zs = xs ++ ys ∧ (∀ c ∈ xs, c.data ≠ none) ∧ lowest s zs = s + extent xs ∧
      ∀ c ∈ ys.head?, c.data = none := by
  induction zs generalizing s with
  | nil => exact ⟨[], [], rfl, by simp, rfl, by simp⟩
  | cons b zs ih =>
    by_cases hb : b.data = none
    · exact ⟨[], b :: zs, rfl, by simp, lowest_of_free hb, by simpa using hb⟩
    · obtain ⟨xs, ys, rfl, htaken, heq, hhead⟩ := ih (s + b.size)
      refine ⟨b :: xs, ys, rfl, List.forall_mem_cons.mpr ⟨hb, htaken⟩, ?_, hhead⟩
      rw [lowest, if_neg hb, heq, extent_cons, Nat.add_assoc]

/-- The lowest free block moves with the one behind a taken block. -/
theorem lowest_move {k l : ℕ} {y z : α} (hpos : ∀ c ∈ xs, 0 < c.size) :
    lowest s (xs ++ ⟨k, some z⟩ :: ⟨l, none⟩ :: zs) =
      if lowest s (xs ++ ⟨n, some y⟩ :: ⟨m, none⟩ :: ys) = s + extent xs + n then s + extent xs + k
      else lowest s (xs ++ ⟨n, some y⟩ :: ⟨m, none⟩ :: ys) := by
  by_cases hfree : ∃ c ∈ xs, c.data = none
  · have hlt := lowest_lt (s := s) hfree hpos
    rw [lowest_append_of_free hfree, lowest_append_of_free hfree, if_neg (by omega)]
  · push Not at hfree
    rw [lowest_append_of_taken hfree, lowest_append_of_taken hfree]
    simp [lowest]

/-! ## Merged neighbours -/

/-- No two free blocks are neighbours. -/
def Merged (bs : List (Block α)) : Prop := bs.IsChain fun b c => b.data ≠ none ∨ c.data ≠ none

@[simp] theorem merged_nil : Merged ([] : List (Block α)) := List.isChain_nil

theorem merged_taken (h : b.data ≠ none) : Merged (xs ++ b :: ys) ↔ Merged xs ∧ Merged ys := by
  rw [Merged, List.isChain_append, List.isChain_cons]
  constructor
  · rintro ⟨hxs, ⟨-, hys⟩, -⟩
    exact ⟨hxs, hys⟩
  · rintro ⟨hxs, hys⟩
    refine ⟨hxs, ⟨fun c _ => .inl h, hys⟩, fun c _ d hd => ?_⟩
    obtain rfl : b = d := by simpa using hd
    exact .inr h

theorem merged_free (h : b.data = none) :
    Merged (xs ++ b :: ys) ↔ Merged xs ∧ Merged ys ∧
      (∀ c ∈ xs.getLast?, c.data ≠ none) ∧ ∀ c ∈ ys.head?, c.data ≠ none := by
  rw [Merged, List.isChain_append, List.isChain_cons]
  constructor
  · rintro ⟨hxs, ⟨hhead, hys⟩, hlast⟩
    exact ⟨hxs, hys, fun c hc => (hlast c hc b rfl).resolve_right (not_not_intro h),
      fun c hc => (hhead c hc).resolve_left (not_not_intro h)⟩
  · rintro ⟨hxs, hys, hlast, hhead⟩
    exact ⟨hxs, ⟨fun c hc => .inr (hhead c hc), hys⟩, fun c hc _ _ => .inl (hlast c hc)⟩

/-- If all blocks are free there is one at most. -/
theorem Merged.length_le (h : Merged zs) (hfree : ∀ c ∈ zs, c.data = none) : zs.length ≤ 1 := by
  match zs with
  | [] => exact Nat.zero_le 1
  | [b] => exact le_rfl
  | b :: c :: zs =>
    have hpair := (List.isChain_cons_cons.mp h).1
    rw [hfree b (by simp), hfree c (by simp)] at hpair
    simp at hpair

end Block

end Lib
