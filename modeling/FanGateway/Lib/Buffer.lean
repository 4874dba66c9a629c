import Mathlib.Data.List.Range
import Mathlib.Logic.Function.Basic
import Mathlib.Tactic.SplitIfs

/-!
# Fixed-size buffers and the loops that store into them

A buffer of `n` cells is read and written at natural-number positions, as a
program indexes an array. A write past the end changes no cell; a traced buffer
also remembers every position written, so that such a write stays visible.

Every loop that stores one cell per round is an instance of `forRange`, and the
lemmas below say cell by cell what such a loop leaves behind.
-/

namespace Lib

/-- `n` cells. -/
abbrev Buffer (α : Type*) (n : ℕ) := Fin n → α

variable {α : Type*} {n : ℕ}

namespace Buffer

/-- The cell at a position; past the end, the default value. -/
def peek [Inhabited α] (b : Buffer α n) (i : ℕ) : α :=
  if h : i < n then b ⟨i, h⟩ else default

/-- Write the cell at a position; past the end, no cell changes. -/
def poke (b : Buffer α n) (i : ℕ) (x : α) : Buffer α n :=
  fun j => if j.val = i then x else b j

/-- The cells `start, ..., start + len - 1`. -/
def slice [Inhabited α] (b : Buffer α n) (start len : ℕ) : List α :=
  (List.range len).map fun i => b.peek (start + i)

variable [Inhabited α] {b c : Buffer α n} {i j start len : ℕ} {x : α}

theorem peek_of_lt (h : i < n) : b.peek i = b ⟨i, h⟩ := by simp [peek, h]

theorem peek_of_le (h : n ≤ i) : b.peek i = default := by simp [peek, Nat.not_lt.mpr h]

/-- Buffers that agree on every position in range are equal. -/
theorem ext_peek (h : ∀ i < n, b.peek i = c.peek i) : b = c := by
  funext ⟨i, hi⟩
  simpa only [peek_of_lt hi] using h i hi

/-- What one write changes. -/
theorem peek_poke : (b.poke i x).peek j = if j = i ∧ j < n then x else b.peek j := by
  by_cases hj : j < n
  · simp [peek, poke, hj]
  · simp [peek, hj]

@[simp] theorem peek_poke_ne (h : j ≠ i) : (b.poke i x).peek j = b.peek j := by
  simp [peek_poke, h]

@[simp] theorem peek_poke_self (h : i < n) : (b.poke i x).peek i = x := by
  simp [peek_poke, h]

@[simp] theorem length_slice : (b.slice start len).length = len := by simp [slice]

theorem getElem?_slice :
    (b.slice start len)[i]? = if i < len then some (b.peek (start + i)) else none := by
  by_cases h : i < len <;> simp [slice, h]

/-- Slices are equal when the cells they read are. -/
theorem slice_congr {m : ℕ} {d : Buffer α m} {start' : ℕ}
    (h : ∀ i < len, b.peek (start + i) = d.peek (start' + i)) :
    b.slice start len = d.slice start' len :=
  List.map_congr_left fun i hi => h i (List.mem_range.mp hi)

theorem slice_succ :
    b.slice start (len + 1) = b.slice start len ++ [b.peek (start + len)] := by
  simp [slice, List.range_succ]

theorem slice_append (k : ℕ) :
    b.slice start (len + k) = b.slice start len ++ b.slice (start + len) k := by
  -- induction on the length of the second part
  induction k with
  | zero => simp [slice]
  | succ k ih => rw [← Nat.add_assoc, slice_succ, ih, slice_succ, List.append_assoc,
      Nat.add_assoc]

end Buffer

/-! ## Counting loops -/

/-- `for (t = lo; t < hi; t++) s = body(t, s)`. -/
def forRange {σ : Type*} (lo hi : ℕ) (body : ℕ → σ → σ) (s : σ) : σ :=
  (List.range' lo (hi - lo)).foldl (fun s t => body t s) s

section forRange

variable {σ τ : Type*} {lo hi : ℕ} {body : ℕ → σ → σ} {s : σ}

theorem forRange_of_le (h : hi ≤ lo) : forRange lo hi body s = s := by
  simp [forRange, Nat.sub_eq_zero_of_le h]

/-- The last round of a loop. -/
theorem forRange_succ (h : lo ≤ hi) :
    forRange lo (hi + 1) body s = body hi (forRange lo hi body s) := by
  obtain ⟨k, rfl⟩ := Nat.exists_eq_add_of_le h
  simp [forRange, Nat.add_assoc, List.range'_concat]

/-- The first round of a loop. -/
theorem forRange_head (h : lo < hi) :
    forRange lo hi body s = forRange (lo + 1) hi body (body lo s) := by
  obtain ⟨k, rfl⟩ := Nat.exists_eq_add_of_lt h
  rw [forRange, forRange, show lo + k + 1 - lo = k + 1 by omega,
    show lo + k + 1 - (lo + 1) = k by omega, List.range'_succ, List.foldl_cons]

theorem forRange_add_succ (t : ℕ) : forRange lo (lo + (t + 1)) body s =
    forRange (lo + 1) (lo + 1 + t) body (body lo s) := by
  rw [forRange_head (by omega), Nat.add_assoc, Nat.add_comm 1 t]

/-- **Loop rule.** A property of the counter and the state that holds on entry
and survives each round holds on exit. -/
theorem forRange_induction {P : ℕ → σ → Prop} (hle : lo ≤ hi) (hinit : P lo s)
    (hstep : ∀ t s, lo ≤ t → t < hi → P t s → P (t + 1) (body t s)) :
    P hi (forRange lo hi body s) := by
  obtain ⟨k, rfl⟩ := Nat.exists_eq_add_of_le hle
  induction k with
  | zero => simpa [forRange_of_le] using hinit
  | succ k ih =>
    rw [← Nat.add_assoc, forRange_succ (by omega)]
    exact hstep _ _ (by omega) (by omega)
      (ih (by omega) fun t s hlo hhi => hstep t s hlo (by omega))

/-- A projection that commutes with each round commutes with the loop. -/
theorem forRange_map (f : σ → τ) (body' : ℕ → τ → τ)
    (h : ∀ t s, f (body t s) = body' t (f s)) :
    f (forRange lo hi body s) = forRange lo hi body' (f s) := by
  unfold forRange
  generalize List.range' lo (hi - lo) = ts
  induction ts generalizing s with
  | nil => rfl
  | cons t ts ih => rw [List.foldl_cons, List.foldl_cons, ih, h]

end forRange

/-! ## Loops that look at their bound again -/

/-- `for (t = lo; test(t, s); t++) s = body(t, s)`, for so many rounds at most. -/
def forWhile {σ : Type*} (test : ℕ → σ → Bool) (body : ℕ → σ → σ) : ℕ → ℕ → σ → σ
  | 0, _, s => s
  | fuel + 1, lo, s =>
    if test lo s then forWhile test body fuel (lo + 1) (body lo s) else s

/-- If the test holds before each of the first rounds and not after them, the loop is a counting
loop over these rounds. -/
theorem forWhile_eq_forRange {σ : Type*} {test : ℕ → σ → Bool} {body : ℕ → σ → σ} {lo n fuel : ℕ}
    {s : σ} (hfuel : n < fuel) (htest : ∀ t < n, test (lo + t) (forRange lo (lo + t) body s) = true)
    (hend : test (lo + n) (forRange lo (lo + n) body s) = false) :
    forWhile test body fuel lo s = forRange lo (lo + n) body s := by
  -- induction on the rounds, the first one split off
  induction n generalizing lo s fuel with
  | zero =>
    obtain ⟨fuel, rfl⟩ := Nat.exists_eq_add_one.mpr hfuel
    have hnone : forRange lo (lo + 0) body s = s := forRange_of_le le_rfl
    rw [hnone] at hend
    rw [hnone, forWhile]
    exact if_neg (Bool.eq_false_iff.mp hend)
  | succ n ih =>
    obtain ⟨fuel, rfl⟩ := Nat.exists_eq_add_one.mpr (Nat.zero_lt_of_lt hfuel)
    have hfirst := htest 0 (Nat.succ_pos n)
    rw [Nat.add_zero, forRange_of_le le_rfl] at hfirst
    have hshift (t : ℕ) : lo + (t + 1) = lo + 1 + t := by omega
    rw [forWhile, if_pos hfirst, forRange_add_succ]
    refine ih (Nat.lt_of_succ_lt_succ hfuel) (fun t ht => ?_) ?_
    · rw [← forRange_add_succ, ← hshift]
      exact htest (t + 1) (Nat.succ_lt_succ ht)
    · rw [← forRange_add_succ, ← hshift]
      exact hend

namespace Buffer

variable [Inhabited α] {b : Buffer α n} {j lo hi off : ℕ} {g : ℕ → α}

/-- A loop that stores `g t` at `t + off` in round `t`. -/
theorem peek_forRange_poke :
    (forRange lo hi (fun t b => b.poke (t + off) (g t)) b).peek j =
      if lo + off ≤ j ∧ j < hi + off ∧ j < n then g (j - off) else b.peek j := by
  rcases Nat.le_total hi lo with hle | hle
  · rw [forRange_of_le hle]
    split_ifs with h
    · omega
    · rfl
  · -- after round `t` the cells up to `t + off` are stored, the others as before
    refine forRange_induction (P := fun t (c : Buffer α n) =>
      c.peek j = if lo + off ≤ j ∧ j < t + off ∧ j < n then g (j - off) else b.peek j)
      hle ?_ ?_
    · rw [if_neg (by omega)]
    · intro t c hlo _ ih
      rw [peek_poke, ih]
      by_cases hj : j = t + off
      · subst hj
        by_cases hn : t + off < n
        · rw [if_pos ⟨rfl, hn⟩, if_pos (by omega), Nat.add_sub_cancel]
        · rw [if_neg (by omega), if_neg (by omega), if_neg (by omega)]
      · rw [if_neg (by omega)]
        exact if_congr (by omega) rfl rfl

/-- Store a list of values from a position on. -/
def blit (b : Buffer α n) (start : ℕ) (xs : List α) : Buffer α n :=
  forRange 0 xs.length (fun t b => b.poke (t + start) (xs[t]?.getD default)) b

variable {start : ℕ} {xs : List α}

theorem peek_blit : (b.blit start xs).peek j =
    if start ≤ j ∧ j < start + xs.length ∧ j < n then xs[j - start]?.getD default
    else b.peek j := by
  rw [blit, peek_forRange_poke]
  exact if_congr (by omega) rfl rfl

@[simp] theorem blit_nil : b.blit start [] = b := by simp [blit, forRange_of_le]

/-- Storing a list stores its head and then its tail one position later. -/
theorem blit_cons {x : α} :
    b.blit start (x :: xs) = (b.poke start x).blit (start + 1) xs := by
  apply ext_peek
  intro i hi
  rw [peek_blit, peek_blit, peek_poke, List.length_cons]
  -- the first cell, one of the later ones, or one outside
  by_cases hfirst : i = start
  · subst hfirst
    simp [hi]
  · by_cases hlater : start + 1 ≤ i ∧ i < start + (xs.length + 1)
    · obtain ⟨k, rfl⟩ := Nat.exists_eq_add_of_le hlater.1
      rw [if_pos (by omega), if_pos (by omega), Nat.add_sub_cancel_left,
        show start + 1 + k - start = k + 1 by omega, List.getElem?_cons_succ]
    · rw [if_neg (by omega), if_neg (by omega), if_neg (by omega)]

/-- Storing two lists one behind the other stores their concatenation. -/
theorem blit_append {ys : List α} :
    b.blit start (xs ++ ys) = (b.blit start xs).blit (start + xs.length) ys := by
  -- induction on the first list, each of its values stored ahead of the rest
  induction xs generalizing b start with
  | nil => simp
  | cons x xs ih =>
    rw [List.cons_append, blit_cons, blit_cons, ih, List.length_cons]
    congr 1
    omega

/-- A list stored inside the buffer is read back. -/
theorem slice_blit (h : start + xs.length ≤ n) :
    (b.blit start xs).slice start xs.length = xs := by
  apply List.ext_getElem?
  intro i
  rw [getElem?_slice, peek_blit]
  by_cases hi : i < xs.length
  · rw [if_pos hi, if_pos (by omega), Nat.add_sub_cancel_left, List.getElem?_eq_getElem hi]
    rfl
  · rw [if_neg hi, List.getElem?_eq_none (by omega)]

end Buffer

/-! ## Traced buffers -/

/-- A buffer together with the positions stored to, oldest first, those past its
end included. -/
structure Traced (α : Type*) (n : ℕ) where
  cells : Buffer α n
  trace : List ℕ

namespace Traced

variable [Inhabited α]

def peek (b : Traced α n) (i : ℕ) : α := b.cells.peek i

/-- Store a value and record where. -/
def store (b : Traced α n) (i : ℕ) (x : α) : Traced α n :=
  ⟨b.cells.poke i x, b.trace ++ [i]⟩

variable {b : Traced α n} {i j lo hi off : ℕ} {x : α} {g : ℕ → α}

omit [Inhabited α] in
@[simp] theorem trace_store : (b.store i x).trace = b.trace ++ [i] := rfl

/-- The cells after a storing loop. -/
theorem peek_forRange_store :
    (forRange lo hi (fun t b => b.store (t + off) (g t)) b).peek j =
      if lo + off ≤ j ∧ j < hi + off ∧ j < n then g (j - off) else b.peek j := by
  rw [peek, forRange_map Traced.cells (fun t c => c.poke (t + off) (g t)) fun _ _ => rfl]
  exact Buffer.peek_forRange_poke

omit [Inhabited α] in
/-- The positions a storing loop records, in order. -/
theorem trace_forRange_store (hle : lo ≤ hi) :
    (forRange lo hi (fun t b => b.store (t + off) (g t)) b).trace =
      b.trace ++ List.range' (lo + off) (hi - lo) := by
  -- every round adds one position at the end
  refine forRange_induction (P := fun t (c : Traced α n) =>
    c.trace = b.trace ++ List.range' (lo + off) (t - lo)) hle (by simp) ?_
  intro t c hlo _ ih
  rw [trace_store, ih, List.append_assoc]
  obtain ⟨k, rfl⟩ := Nat.exists_eq_add_of_le hlo
  rw [show lo + k + 1 - lo = k + 1 by omega, Nat.add_sub_cancel_left, List.range'_concat,
    Nat.one_mul, show lo + k + off = lo + off + k by omega]

end Traced

end Lib
