import Mathlib.Data.Fintype.Card
import Mathlib.Data.Fintype.Prod
import Mathlib.Logic.Equiv.Fin.Basic
import Mathlib.Logic.Function.Basic
import Mathlib.Tactic.SplitIfs

/-!
# Priority tables

A set of priorities in two levels of bits: one word for each row of priorities, and a
group word that tells which rows are not empty. The numerically lowest priority of the
set is found with two look-ups in a table of the lowest bits of words.

The group word is kept by every change of a row, so it is part of the table that it
agrees with the rows.
-/

namespace Lib

/-- A table of the lowest bits of the words that have one. -/
structure UnMap (n : ℕ) where
  lowestBit : BitVec n → Fin n
  getLsbD_lowestBit : ∀ w ≠ 0#n, w.getLsbD (lowestBit w) = true
  lowestBit_le : ∀ w (i : Fin n), w.getLsbD i = true → lowestBit w ≤ i

@[ext] structure PriorityTable (n : ℕ) where
  grp : BitVec n
  tbl : Fin n → BitVec n
  grp_iff : ∀ y : Fin n, grp.getLsbD y = true ↔ tbl y ≠ 0#n

theorem ne_zero_iff_getLsbD {n : ℕ} {w : BitVec n} :
    w ≠ 0#n ↔ ∃ i : Fin n, w.getLsbD i = true := by
  rw [Ne, BitVec.eq_of_getLsbD_eq_iff, not_forall]
  constructor
  · rintro ⟨i, hi⟩
    rw [Classical.not_imp, BitVec.getLsbD_zero, Bool.not_eq_false] at hi
    exact ⟨⟨i, hi.1⟩, hi.2⟩
  · rintro ⟨i, hi⟩
    refine ⟨i, Classical.not_imp.mpr ⟨i.isLt, ?_⟩⟩
    rw [hi, BitVec.getLsbD_zero]
    exact Bool.true_eq_false_eq_False

section Words

variable {n : ℕ} {w : BitVec n} {i j : Fin n}

theorem getLsbD_setBit : (w ||| .twoPow n i).getLsbD j = true ↔ j = i ∨ w.getLsbD j = true := by
  rw [BitVec.getLsbD_or, BitVec.getLsbD_twoPow, Bool.or_eq_true, or_comm]
  refine or_congr_left ?_
  rw [Fin.ext_iff, @eq_comm _ j.val]
  simp

theorem getLsbD_clearBit :
    (w &&& ~~~.twoPow n i).getLsbD j = true ↔ j ≠ i ∧ w.getLsbD j = true := by
  rw [BitVec.getLsbD_and, BitVec.getLsbD_not, BitVec.getLsbD_twoPow, Bool.and_eq_true, and_comm]
  refine and_congr_left fun _ => ?_
  rw [Ne, Fin.ext_iff, @eq_comm _ j.val]
  simp

end Words

namespace PriorityTable

variable {n : ℕ}

instance : Membership (Fin (n * n)) (PriorityTable n) :=
  ⟨fun t p => (t.tbl p.divNat).getLsbD p.modNat = true⟩

theorem mem_iff {t : PriorityTable n} {p : Fin (n * n)} :
    p ∈ t ↔ (t.tbl p.divNat).getLsbD p.modNat = true := Iff.rfl

instance (t : PriorityTable n) (p : Fin (n * n)) : Decidable (p ∈ t) :=
  inferInstanceAs (Decidable (_ = true))

def empty (n : ℕ) : PriorityTable n where
  grp := 0#n
  tbl _ := 0#n
  grp_iff _ := by simp

/-- Set the bit of a priority, and that of its row. -/
def insert (p : Fin (n * n)) (t : PriorityTable n) : PriorityTable n where
  grp := t.grp ||| .twoPow n p.divNat
  tbl := Function.update t.tbl p.divNat (t.tbl p.divNat ||| .twoPow n p.modNat)
  grp_iff y := by
    rw [getLsbD_setBit, t.grp_iff]
    by_cases hy : y = p.divNat
    · subst hy
      rw [Function.update_self]
      refine iff_of_true (.inl rfl) (ne_zero_iff_getLsbD.mpr ⟨p.modNat, ?_⟩)
      exact getLsbD_setBit.mpr (.inl rfl)
    · rw [Function.update_of_ne hy]
      exact or_iff_right hy

/-- Clear the bit of a priority, and that of its row if it was the last one. -/
def remove (p : Fin (n * n)) (t : PriorityTable n) : PriorityTable n where
  grp :=
    if t.tbl p.divNat &&& ~~~.twoPow n p.modNat = 0#n then t.grp &&& ~~~.twoPow n p.divNat
    else t.grp
  tbl := Function.update t.tbl p.divNat (t.tbl p.divNat &&& ~~~.twoPow n p.modNat)
  grp_iff y := by
    by_cases hy : y = p.divNat
    · subst hy
      rw [Function.update_self]
      split_ifs with hlast
      · rw [getLsbD_clearBit]
        exact iff_of_false (fun h => h.1 rfl) (not_not.mpr hlast)
      · -- a bit that is left was there before
        refine iff_of_true ?_ hlast
        obtain ⟨i, hi⟩ := ne_zero_iff_getLsbD.mp hlast
        rw [getLsbD_clearBit] at hi
        exact (t.grp_iff _).mpr (ne_zero_iff_getLsbD.mpr ⟨i, hi.2⟩)
    · rw [Function.update_of_ne hy, ← t.grp_iff]
      split_ifs
      · rw [getLsbD_clearBit]
        exact and_iff_right hy
      · exact Iff.rfl

/-- The lowest priority, by the lowest row that is not empty. -/
@[irreducible] def lowest (u : UnMap n) (t : PriorityTable n) : Fin (n * n) :=
  finProdFinEquiv (u.lowestBit t.grp, u.lowestBit (t.tbl (u.lowestBit t.grp)))

def toFinset (t : PriorityTable n) : Finset (Fin (n * n)) := Finset.univ.filter (· ∈ t)

variable {t t' : PriorityTable n} {p q : Fin (n * n)}

@[simp] theorem not_mem_empty : p ∉ empty n := by simp [mem_iff, empty]

/-- The priority of a row and a column is in the set if its bit is set. -/
theorem cell_mem_iff {y x : Fin n} :
    finProdFinEquiv (y, x) ∈ t ↔ (t.tbl y).getLsbD x = true := by
  have hrow : (finProdFinEquiv (y, x)).divNat = y :=
    congrArg Prod.fst (finProdFinEquiv.symm_apply_apply (y, x))
  have hcol : (finProdFinEquiv (y, x)).modNat = x :=
    congrArg Prod.snd (finProdFinEquiv.symm_apply_apply (y, x))
  rw [mem_iff, hrow, hcol]

theorem row_col_inj (hrow : q.divNat = p.divNat) (hcol : q.modNat = p.modNat) : q = p :=
  finProdFinEquiv.symm.injective (Prod.ext hrow hcol)

@[simp] theorem mem_insert : q ∈ t.insert p ↔ q = p ∨ q ∈ t := by
  rw [mem_iff, mem_iff]
  change (Function.update t.tbl p.divNat _ q.divNat).getLsbD _ = true ↔ _
  by_cases hrow : q.divNat = p.divNat
  · rw [hrow, Function.update_self, getLsbD_setBit]
    refine or_congr_left ⟨row_col_inj hrow, ?_⟩
    rintro rfl
    rfl
  · rw [Function.update_of_ne hrow]
    exact (or_iff_right fun h => hrow (congrArg Fin.divNat h)).symm

@[simp] theorem mem_remove : q ∈ t.remove p ↔ q ≠ p ∧ q ∈ t := by
  rw [mem_iff, mem_iff]
  change (Function.update t.tbl p.divNat _ q.divNat).getLsbD _ = true ↔ _
  by_cases hrow : q.divNat = p.divNat
  · rw [hrow, Function.update_self, getLsbD_clearBit]
    refine and_congr_left fun _ => not_congr ⟨row_col_inj hrow, ?_⟩
    rintro rfl
    rfl
  · rw [Function.update_of_ne hrow]
    exact (and_iff_right fun h => hrow (congrArg Fin.divNat h)).symm

/-- The group word is zero exactly for the empty set. -/
theorem grp_eq_zero_iff : t.grp = 0#n ↔ ∀ p, p ∉ t := by
  rw [← not_iff_not, not_forall_not, ← Ne, ne_zero_iff_getLsbD]
  constructor
  · rintro ⟨y, hy⟩
    obtain ⟨x, hx⟩ := ne_zero_iff_getLsbD.mp ((t.grp_iff y).mp hy)
    exact ⟨finProdFinEquiv (y, x), cell_mem_iff.mpr hx⟩
  · rintro ⟨p, hp⟩
    exact ⟨p.divNat, (t.grp_iff _).mpr (ne_zero_iff_getLsbD.mpr ⟨p.modNat, hp⟩)⟩

theorem grp_ne_zero (h : p ∈ t) : t.grp ≠ 0#n := fun hzero => grp_eq_zero_iff.mp hzero p h

/-- Tables of the same priorities are the same. -/
theorem ext_mem (h : ∀ p, p ∈ t ↔ p ∈ t') : t = t' := by
  have htbl : t.tbl = t'.tbl := by
    funext y
    refine BitVec.eq_of_getLsbD_eq fun x hx => ?_
    have hbit := h (finProdFinEquiv (y, ⟨x, hx⟩))
    rw [cell_mem_iff, cell_mem_iff] at hbit
    exact Bool.eq_iff_iff.mpr hbit
  refine PriorityTable.ext (BitVec.eq_of_getLsbD_eq fun y hy => ?_) htbl
  rw [Bool.eq_iff_iff, t.grp_iff ⟨y, hy⟩, t'.grp_iff ⟨y, hy⟩, htbl]

section Lowest

variable (u : UnMap n)

theorem lowest_mem (h : t.grp ≠ 0#n) : t.lowest u ∈ t := by
  have hrow := (t.grp_iff _).mp (u.getLsbD_lowestBit t.grp h)
  rw [lowest, cell_mem_iff]
  exact u.getLsbD_lowestBit _ hrow

/-- Among the priorities of the set, the lowest row comes first, and in it the lowest bit. -/
theorem lowest_le (h : p ∈ t) : t.lowest u ≤ p := by
  have hrow : u.lowestBit t.grp ≤ p.divNat :=
    u.lowestBit_le _ _ ((t.grp_iff _).mpr (ne_zero_iff_getLsbD.mpr ⟨p.modNat, h⟩))
  have hp : (p : ℕ) = p.modNat + n * p.divNat := (Nat.mod_add_div p n).symm
  rw [lowest, Fin.le_def, hp]
  change (u.lowestBit (t.tbl (u.lowestBit t.grp)) : ℕ) + n * (u.lowestBit t.grp : ℕ) ≤ _
  rcases hrow.lt_or_eq with hlt | heq
  · -- the row before ends before the row of `p` begins
    have hnext : (u.lowestBit t.grp : ℕ) + 1 ≤ p.divNat := hlt
    have hmul := Nat.mul_le_mul_left n hnext
    have hcol := (u.lowestBit (t.tbl (u.lowestBit t.grp))).isLt
    rw [Nat.mul_succ] at hmul
    omega
  · rw [heq]
    have hcol : u.lowestBit (t.tbl p.divNat) ≤ p.modNat := u.lowestBit_le _ _ h
    exact Nat.add_le_add_right hcol _

/-- The lowest priority is the one member that no member is below. -/
theorem lowest_eq_iff (h : t.grp ≠ 0#n) : t.lowest u = p ↔ p ∈ t ∧ ∀ q ∈ t, p ≤ q := by
  constructor
  · rintro rfl
    exact ⟨lowest_mem u h, fun q => lowest_le u⟩
  · rintro ⟨hmem, hle⟩
    exact le_antisymm (lowest_le u hmem) (hle _ (lowest_mem u h))

end Lowest

/-! ## How many there are -/

@[simp] theorem mem_toFinset : p ∈ t.toFinset ↔ p ∈ t := by simp [toFinset]

theorem card_pos_iff : 0 < t.toFinset.card ↔ t.grp ≠ 0#n := by
  rw [Finset.card_pos, Ne, grp_eq_zero_iff, not_forall_not]
  exact exists_congr fun p => mem_toFinset

theorem card_insert (h : p ∉ t) : (t.insert p).toFinset.card = t.toFinset.card + 1 := by
  have heq : (t.insert p).toFinset = Insert.insert p t.toFinset := by
    ext q
    simp
  rw [heq, Finset.card_insert_of_notMem (mt mem_toFinset.mp h)]

theorem card_remove (h : p ∈ t) : (t.remove p).toFinset.card = t.toFinset.card - 1 := by
  have heq : (t.remove p).toFinset = t.toFinset.erase p := by
    ext q
    simp
  rw [heq, Finset.card_erase_of_mem (mem_toFinset.mpr h)]

end PriorityTable

end Lib
