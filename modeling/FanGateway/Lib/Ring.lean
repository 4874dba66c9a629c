import Mathlib.Data.List.Basic
import Mathlib.Data.List.Range
import Mathlib.Data.Nat.ModEq
import Mathlib.Logic.Function.Basic

/-!
# Records in a ring of cells

The cells `0, ..., size - 1` of a memory form a ring: what is stored past the last of
them goes on at the first. Positions are natural numbers and are taken modulo the size
of the ring.

A record in the ring may contain the position of the record after it, so its encoding
depends on where it ends. Records that lie one behind the other form a queue: a record
is stored at the end, and the oldest one is read at the front.
-/

namespace Lib.Ring

variable {α : Type*} (size : ℕ)

/-- The `n` cells from position `p` on. -/
def load (mem : ℕ → α) (p n : ℕ) : List α :=
  (List.range n).map fun i => mem ((p + i) % size)

/-- Store a list cell by cell from position `p` on. -/
def store (mem : ℕ → α) (p : ℕ) : List α → ℕ → α
  | [] => mem
  | x :: xs => store (Function.update mem (p % size) x) (p + 1) xs

/-- The cells from position `p` on hold the list. -/
def Holds (mem : ℕ → α) (p : ℕ) (xs : List α) : Prop :=
  load size mem p xs.length = xs

section Cells

variable {size} {mem : ℕ → α} {p q n k : ℕ} {xs ys : List α}

@[simp] theorem length_load : (load size mem p n).length = n := by simp [load]

theorem load_succ : load size mem p (n + 1) = mem (p % size) :: load size mem (p + 1) n := by
  simp only [load, List.range_succ_eq_map, List.map_cons, List.map_map, Nat.add_zero]
  congr 1
  apply List.map_congr_left
  intro i _
  rw [Function.comp_apply, Nat.add_assoc, Nat.add_comm 1 i]

/-- Reading on is reading from where the first part ends. -/
theorem load_add : load size mem p (n + k) = load size mem p n ++ load size mem (p + n) k := by
  simp only [load, List.range_add, List.map_append, List.map_map]
  congr 1
  apply List.map_congr_left
  intro i _
  rw [Function.comp_apply, Nat.add_assoc]

@[simp] theorem load_mod : load size mem (p % size) n = load size mem p n := by
  simp only [load, Nat.mod_add_mod]

theorem store_mod : store size mem (p % size) xs = store size mem p xs := by
  induction xs generalizing mem p with
  | nil => rfl
  | cons x xs ih =>
    rw [store, store, Nat.mod_mod, ← ih (p := p % size + 1), Nat.mod_add_mod, ih]

/-- Two offsets less than the size of the ring lead to different cells. -/
theorem mod_add_ne {i j : ℕ} (hi : i < size) (hj : j < size) (hne : i ≠ j) :
    (p + i) % size ≠ (p + j) % size := by
  intro h
  have hmod : i ≡ j [MOD size] := Nat.ModEq.add_left_cancel' p h
  rw [Nat.ModEq, Nat.mod_eq_of_lt hi, Nat.mod_eq_of_lt hj] at hmod
  exact hne hmod

/-- What a store leaves in a cell: the list in its own cells, the old value elsewhere. -/
theorem store_apply {i : ℕ} (hi : i < size) (hlen : xs.length ≤ size) :
    store size mem p xs ((p + i) % size) = (xs[i]?).getD (mem ((p + i) % size)) := by
  induction xs generalizing mem p i with
  | nil => rfl
  | cons x xs ih =>
    have hlen' : xs.length < size := hlen
    cases i with
    | zero =>
      -- seen from the next position, the first cell is the last of the ring
      have hlast : (p + 0) % size = (p + 1 + (size - 1)) % size := by
        rw [Nat.add_assoc, Nat.add_sub_cancel' (Nat.one_le_of_lt hi), Nat.add_mod_right,
          Nat.add_zero]
      rw [store, hlast, ih (Nat.sub_one_lt_of_lt hi) hlen'.le,
        List.getElem?_eq_none (Nat.le_sub_one_of_lt hlen'), ← hlast]
      simp
    | succ j =>
      have hcell : p + (j + 1) = p + 1 + j := by rw [Nat.add_assoc, Nat.add_comm 1 j]
      have hne : (p + 1 + j) % size ≠ p % size := by
        rw [← hcell]
        exact mod_add_ne (j := 0) hi (Nat.zero_lt_of_lt hi) (Nat.succ_ne_zero j)
      rw [store, hcell, ih (Nat.lt_of_succ_lt hi) hlen'.le, Function.update_of_ne hne]
      simp

/-- Reading less than what is held reads its front. -/
theorem Holds.load_eq_take (h : Holds size mem p xs) (hn : n ≤ xs.length) :
    load size mem p n = xs.take n := by
  obtain ⟨k, hk⟩ := Nat.exists_eq_add_of_le hn
  rw [Holds, hk, load_add] at h
  rw [← h, List.take_left' length_load]

/-- What was stored is read back. -/
theorem holds_store (hlen : xs.length ≤ size) : Holds size (store size mem p xs) p xs := by
  -- cell by cell
  apply List.ext_getElem (by simp)
  intro i hi hi'
  simp only [load, List.getElem_map, List.getElem_range]
  rw [store_apply (hi'.trans_le hlen) hlen, List.getElem?_eq_getElem hi']
  rfl

/-- A store behind what is held leaves it as it is. -/
theorem Holds.store_after (h : Holds size mem p xs) (hroom : xs.length + ys.length ≤ size) :
    Holds size (store size mem (p + xs.length) ys) p xs := by
  rw [Holds]
  refine Eq.trans ?_ h
  apply List.map_congr_left
  intro i hi
  have hi' : i < xs.length := List.mem_range.1 hi
  -- seen from the store the cell comes after what is stored
  have hcell : (p + i) % size = (p + xs.length + (size - xs.length + i)) % size := by
    rw [show p + xs.length + (size - xs.length + i) = p + i + size by omega, Nat.add_mod_right]
  rw [hcell, store_apply (by omega) (by omega), List.getElem?_eq_none (by omega)]
  rfl

theorem holds_append :
    Holds size mem p (xs ++ ys) ↔ Holds size mem p xs ∧ Holds size mem (p + xs.length) ys := by
  rw [Holds, List.length_append, load_add]
  constructor
  · intro h
    exact List.append_inj h length_load
  · rintro ⟨hxs, hys⟩
    rw [hxs, hys]

theorem holds_mod : Holds size mem (p % size) xs ↔ Holds size mem p xs := by
  rw [Holds, Holds, load_mod]

/-- A store right behind what is held extends it. -/
theorem Holds.append (h : Holds size mem p xs) (hroom : xs.length + ys.length ≤ size) :
    Holds size (store size mem (p + xs.length) ys) p (xs ++ ys) :=
  holds_append.2 ⟨h.store_after hroom, holds_store ((Nat.le_add_left _ _).trans hroom)⟩

end Cells

/-! ## Records that point to the next one -/

section Records

variable {ρ : Type*} (encode : ℕ → ρ → List α) (len : ρ → ℕ)

/-- The cells in use by a list of records. -/
def total (rs : List ρ) : ℕ := (rs.map len).sum

/-- The cells of records that start at position `p`, each with the position after it. -/
def layout (p : ℕ) : List ρ → List α
  | [] => []
  | r :: rs => encode ((p + len r) % size) r ++ layout (p + len r) rs

/-- Where the records start. -/
def starts (p : ℕ) : List ρ → List ℕ
  | [] => []
  | r :: rs => p % size :: starts (p + len r) rs

variable {size encode len} {p : ℕ} {r : ρ} {rs : List ρ}

@[simp] theorem total_nil : total len [] = 0 := rfl

@[simp] theorem total_cons : total len (r :: rs) = len r + total len rs := by simp [total]

theorem total_append_singleton : total len (rs ++ [r]) = total len rs + len r := by simp [total]

theorem length_layout (hlen : ∀ a r, (encode a r).length = len r) :
    (layout size encode len p rs).length = total len rs := by
  induction rs generalizing p with
  | nil => rfl
  | cons r rs ih => rw [layout, List.length_append, hlen, ih, total_cons]

/-- One more record goes where the others end. -/
theorem layout_append_singleton : layout size encode len p (rs ++ [r]) =
    layout size encode len p rs ++ encode ((p + total len rs + len r) % size) r := by
  -- induction on the records; the start moves on with each
  induction rs generalizing p with
  | nil => simp [layout]
  | cons s rs ih => simp [layout, ih, Nat.add_assoc]

theorem layout_mod :
    layout size encode len (p % size) rs = layout size encode len p rs := by
  induction rs generalizing p with
  | nil => rfl
  | cons r rs ih =>
    rw [layout, layout, Nat.mod_add_mod, ← ih (p := p % size + len r), Nat.mod_add_mod, ih]

theorem starts_append_singleton : starts size len p (rs ++ [r]) =
    starts size len p rs ++ [(p + total len rs) % size] := by
  induction rs generalizing p with
  | nil => simp [starts]
  | cons s rs ih => simp [starts, ih, Nat.add_assoc]

theorem starts_mod : starts size len (p % size) rs = starts size len p rs := by
  induction rs generalizing p with
  | nil => rfl
  | cons r rs ih =>
    rw [starts, starts, Nat.mod_mod, ← ih (p := p % size + len r), Nat.mod_add_mod, ih]

end Records

/-! ## Queues of records -/

section Queues

variable {ρ : Type*} (encode : ℕ → ρ → List α) (len : ρ → ℕ)

/-- The records `rs`, each with the position it was stored at, lie in the ring from `first` to
`last`. At least one cell is free, so that a full ring is not taken for an empty one. -/
structure Queue (mem : ℕ → α) (first last : ℕ) (rs : List (ℕ × ρ)) : Prop where
  first_lt : first < size
  last_eq : last = (first + total len (rs.map Prod.snd)) % size
  room : total len (rs.map Prod.snd) < size
  holds : Holds size mem first (layout size encode len first (rs.map Prod.snd))
  starts : rs.map Prod.fst = starts size len first (rs.map Prod.snd)

variable {size encode len} {mem : ℕ → α} {first last a : ℕ} {r : ρ} {rs : List (ℕ × ρ)}

namespace Queue

theorem empty (h : first < size) : Queue size encode len mem first first [] where
  first_lt := h
  last_eq := (Nat.mod_eq_of_lt h).symm
  room := Nat.zero_lt_of_lt h
  holds := rfl
  starts := rfl

theorem last_lt (h : Queue size encode len mem first last rs) : last < size := by
  rw [h.last_eq]
  exact Nat.mod_lt _ (Nat.zero_lt_of_lt h.first_lt)

/-- A record stored at the end joins the queue. -/
theorem push (hlen : ∀ a r, (encode a r).length = len r)
    (h : Queue size encode len mem first last rs)
    (hroom : total len (rs.map Prod.snd) + len r < size) :
    Queue size encode len (store size mem last (encode ((last + len r) % size) r)) first
      ((last + len r) % size) (rs ++ [(last, r)]) := by
  have hnext : (last + len r) % size =
      (first + total len (rs.map Prod.snd) + len r) % size := by
    rw [h.last_eq, Nat.mod_add_mod]
  have hlayout : (layout size encode len first (rs.map Prod.snd)).length =
      total len (rs.map Prod.snd) := length_layout hlen
  have hsnd : (rs ++ [(last, r)]).map Prod.snd = rs.map Prod.snd ++ [r] := by simp
  -- where the queue ends, its room, its cells, its positions
  refine ⟨h.first_lt, ?_, ?_, ?_, ?_⟩
  · rw [hsnd, total_append_singleton, hnext, Nat.add_assoc]
  · rw [hsnd, total_append_singleton]
    exact hroom
  · have hfits : (layout size encode len first (rs.map Prod.snd)).length +
        (encode ((last + len r) % size) r).length ≤ size := by
      rw [hlayout, hlen]
      exact hroom.le
    have happend := h.holds.append hfits
    rw [hlayout, ← store_mod, ← h.last_eq, hnext, ← layout_append_singleton] at happend
    rw [hsnd, hnext]
    exact happend
  · rw [hsnd, starts_append_singleton, List.map_append, h.starts, List.map_singleton]
    rw [← h.last_eq]

/-- The oldest record is where the queue begins, and tells where the next one is. -/
theorem head (h : Queue size encode len mem first last ((a, r) :: rs)) :
    a = first ∧ Holds size mem first (encode ((first + len r) % size) r) := by
  have hstarts := h.starts
  have hholds := h.holds
  rw [List.map_cons, List.map_cons, Ring.starts, List.cons_eq_cons,
    Nat.mod_eq_of_lt h.first_lt] at hstarts
  rw [List.map_cons, layout, holds_append] at hholds
  exact ⟨hstarts.1, hholds.1⟩

/-- Without its oldest record the queue begins at the next one. -/
theorem pop (hlen : ∀ a r, (encode a r).length = len r)
    (h : Queue size encode len mem first last ((a, r) :: rs)) :
    Queue size encode len mem ((first + len r) % size) last rs := by
  have hlast := h.last_eq
  have hroom := h.room
  have hholds := h.holds
  have hstarts := h.starts
  rw [List.map_cons, total_cons] at hlast hroom
  rw [List.map_cons, layout, holds_append, hlen] at hholds
  rw [List.map_cons, List.map_cons, Ring.starts, List.cons_eq_cons] at hstarts
  refine ⟨Nat.mod_lt _ (Nat.zero_lt_of_lt h.first_lt), ?_, ?_, ?_, ?_⟩
  · rw [hlast, Nat.mod_add_mod, Nat.add_assoc]
  · exact (Nat.le_add_left _ _).trans_lt hroom
  · rw [holds_mod, layout_mod]
    exact hholds.2
  · rw [starts_mod]
    exact hstarts.2

end Queue

end Queues

end Lib.Ring
