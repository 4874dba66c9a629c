import Mathlib.Data.List.Sort
import Mathlib.Tactic.SplitIfs

/-!
# Lists of differences

A list of timers keeps with each timer the time from the one before it, so that only the
first one has to be counted down. The times themselves are sums of differences. Inserting
into the list of differences is inserting into the list of times, behind those of the same
time, and removing an entry whose difference is added to the next one leaves the times of
all others as they are.
-/

namespace Lib

variable {β : Type*} {base d : ℕ} {x : β} {l : List (ℕ × β)} {p : β → Bool}

/-- The times of a list of differences, counted from `base`. -/
def absolute (base : ℕ) : List (ℕ × β) → List (ℕ × β)
  | [] => []
  | (d, x) :: l => (base + d, x) :: absolute (base + d) l

@[simp] theorem absolute_nil : absolute base ([] : List (ℕ × β)) = [] := rfl

@[simp] theorem absolute_cons :
    absolute base ((d, x) :: l) = (base + d, x) :: absolute (base + d) l := rfl

@[simp] theorem length_absolute : (absolute base l).length = l.length := by
  induction l generalizing base with
  | nil => rfl
  | cons e l ih => rw [absolute, List.length_cons, List.length_cons, ih]

@[simp] theorem map_snd_absolute : (absolute base l).map Prod.snd = l.map Prod.snd := by
  induction l generalizing base with
  | nil => rfl
  | cons e l ih => rw [absolute, List.map_cons, List.map_cons, ih]

/-- Counted from later, every time is later. -/
theorem exists_later {base' : ℕ} {e : ℕ × β} (hle : base ≤ base') (h : e ∈ absolute base l) :
    ∃ f ∈ absolute base' l, e.1 ≤ f.1 := by
  induction l generalizing base base' with
  | nil => cases h
  | cons g l ih =>
    rw [absolute, List.mem_cons] at h
    rcases h with rfl | h
    · exact ⟨_, List.mem_cons_self, Nat.add_le_add_right hle g.1⟩
    · obtain ⟨f, hf, hlater⟩ := ih (Nat.add_le_add_right hle g.1) h
      exact ⟨f, List.mem_cons_of_mem _ hf, hlater⟩

theorem le_of_mem_absolute {e : ℕ × β} (h : e ∈ absolute base l) : base ≤ e.1 := by
  induction l generalizing base with
  | nil => cases h
  | cons f l ih =>
    rw [absolute, List.mem_cons] at h
    rcases h with rfl | h
    · exact Nat.le_add_right base f.1
    · exact (Nat.le_add_right base f.1).trans (ih h)

/-! ## Insertion -/

/-- Insert an entry behind those that are due no later. -/
def deltaInsert (d : ℕ) (x : β) : List (ℕ × β) → List (ℕ × β)
  | [] => [(d, x)]
  | (e, y) :: l => if d < e then (d, x) :: (e - d, y) :: l else (e, y) :: deltaInsert (d - e) x l

/-- The same for times. -/
def dueInsert (due : ℕ) (x : β) : List (ℕ × β) → List (ℕ × β) :=
  List.orderedInsert (fun a b => a.1 < b.1) (due, x)

theorem absolute_deltaInsert :
    absolute base (deltaInsert d x l) = dueInsert (base + d) x (absolute base l) := by
  induction l generalizing base d with
  | nil => rfl
  | cons e l ih =>
    obtain ⟨e, y⟩ := e
    rw [deltaInsert, absolute_cons, dueInsert, List.orderedInsert_cons]
    by_cases h : d < e
    · rw [if_pos h, if_pos (Nat.add_lt_add_left h base), absolute_cons, absolute_cons,
        Nat.add_assoc, Nat.add_sub_cancel' h.le]
    · have hdue : base + e + (d - e) = base + d := by omega
      rw [if_neg h, if_neg (by simpa using h), absolute_cons, ih, hdue, dueInsert]

theorem dueInsert_perm {due : ℕ} : (dueInsert due x l).Perm ((due, x) :: l) :=
  List.perm_orderedInsert _ _ _

/-! ## Removal -/

/-- Add to the first difference. -/
def deltaAdd (d : ℕ) : List (ℕ × β) → List (ℕ × β)
  | [] => []
  | (e, y) :: l => (e + d, y) :: l

theorem absolute_deltaAdd : absolute base (deltaAdd d l) = absolute (base + d) l := by
  cases l with
  | nil => rfl
  | cons e l => rw [deltaAdd, absolute_cons, absolute, Nat.add_assoc, Nat.add_comm e.1 d]

/-- Remove the first entry that meets a condition. -/
def deltaErase (p : β → Bool) : List (ℕ × β) → List (ℕ × β)
  | [] => []
  | (e, y) :: l => if p y then deltaAdd e l else (e, y) :: deltaErase p l

theorem absolute_deltaErase :
    absolute base (deltaErase p l) = (absolute base l).eraseP fun e => p e.2 := by
  induction l generalizing base with
  | nil => rfl
  | cons e l ih =>
    obtain ⟨e, y⟩ := e
    rw [deltaErase, absolute_cons]
    by_cases h : p y = true
    · rw [if_pos h, absolute_deltaAdd, List.eraseP_cons_of_pos (p := fun e : ℕ × β => p e.2) h]
    · rw [if_neg h, List.eraseP_cons_of_neg (p := fun e : ℕ × β => p e.2) h, absolute_cons, ih]

theorem length_deltaInsert : (deltaInsert d x l).length = l.length + 1 := by
  rw [← @length_absolute _ 0, absolute_deltaInsert, dueInsert_perm.length_eq,
    List.length_cons, length_absolute]

theorem map_snd_deltaInsert_perm :
    ((deltaInsert d x l).map Prod.snd).Perm (x :: l.map Prod.snd) := by
  rw [← @map_snd_absolute _ 0, absolute_deltaInsert, ← @map_snd_absolute _ 0 l]
  exact dueInsert_perm.map Prod.snd

/-- What is removed is what is found. -/
theorem map_snd_deltaErase_perm {e : ℕ × β} (h : l.find? (fun e => p e.2) = some e) :
    (l.map Prod.snd).Perm (e.2 :: (deltaErase p l).map Prod.snd) := by
  induction l with
  | nil => cases h
  | cons f l ih =>
    rw [deltaErase]
    by_cases hp : p f.2 = true
    · rw [List.find?_cons_of_pos (p := fun e : ℕ × β => p e.2) hp] at h
      cases h
      rw [if_pos hp, ← @map_snd_absolute _ 0 (deltaAdd _ _), absolute_deltaAdd,
        map_snd_absolute, List.map_cons]
    · rw [List.find?_cons_of_neg (p := fun e : ℕ × β => p e.2) hp] at h
      rw [if_neg hp, List.map_cons, List.map_cons]
      exact ((ih h).cons f.2).trans (.swap _ _ _)

/-! ## Order -/

/-- Due earlier, or at the same time and before in another order. -/
def Before (r : β → β → Prop) (a b : ℕ × β) : Prop := a.1 < b.1 ∨ a.1 = b.1 ∧ r a.2 b.2

/-- Inserting keeps the order if the new entry is behind all others in the other order. -/
theorem pairwise_dueInsert {r : β → β → Prop} {due : ℕ} (h : l.Pairwise (Before r))
    (hnew : ∀ e ∈ l, r e.2 x) : (dueInsert due x l).Pairwise (Before r) := by
  induction l with
  | nil => exact List.pairwise_singleton _ _
  | cons e l ih =>
    have hpair := List.pairwise_cons.mp h
    rw [dueInsert, List.orderedInsert_cons]
    by_cases hlt : due < e.1
    · rw [if_pos hlt, List.pairwise_cons]
      refine ⟨fun f hf => .inl ?_, h⟩
      rcases List.mem_cons.mp hf with rfl | hf
      · exact hlt
      · rcases hpair.1 f hf with hef | ⟨hef, -⟩
        · exact hlt.trans hef
        · exact hef ▸ hlt
    · rw [if_neg hlt, List.pairwise_cons]
      refine ⟨fun f hf => ?_, ih hpair.2 fun g hg => hnew g (List.mem_cons_of_mem e hg)⟩
      rcases List.mem_cons.mp (dueInsert_perm.mem_iff.mp hf) with rfl | hf
      · rcases (Nat.not_lt.mp hlt).lt_or_eq with heq | heq
        · exact .inl heq
        · exact .inr ⟨heq, hnew e List.mem_cons_self⟩
      · exact hpair.1 f hf

end Lib
