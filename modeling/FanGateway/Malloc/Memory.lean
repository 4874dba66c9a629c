import FanGateway.Malloc.Pool

/-!
# The memory a pool lies in

Pointers into the pool are addresses like any other, and the copying and filling
loops go on past the end of a block, or of the pool, or from address 0. Memory
is therefore one range of bytes, those of the pool and those around it, and
every address read or written is remembered. The table of the pool lies
elsewhere; no byte written here is an entry of it.
-/

namespace FanGateway.Malloc

open Lib

/-- A memory area, the bytes around its pool, and the addresses read and written so far. -/
structure Memory (b : Bank) where
  dev : MallcoDev b
  outside : ℕ → UInt8
  reads : List ℕ
  writes : List ℕ

variable {b : Bank}

/-- The addresses of the pool. -/
def InPool (b : Bank) (a : ℕ) : Prop := b.membase ≤ a ∧ a < b.membase + b.memsize

instance (b : Bank) (a : ℕ) : Decidable (InPool b a) := inferInstanceAs (Decidable (_ ∧ _))

namespace Memory

/-- The byte at an address. -/
def byte (m : Memory b) (a : ℕ) : UInt8 :=
  if InPool b a then m.dev.pool.peek (a - b.membase) else m.outside a

/-- Read the byte at an address. -/
def load (m : Memory b) (a : ℕ) : UInt8 × Memory b :=
  (m.byte a, { m with reads := m.reads ++ [a] })

/-- Write the byte at an address. -/
def store (m : Memory b) (a : ℕ) (x : UInt8) : Memory b :=
  let m := { m with writes := m.writes ++ [a] }
  if InPool b a then
    { m with dev := { m.dev with pool := m.dev.pool.poke (a - b.membase) x } }
  else { m with outside := Function.update m.outside a x }

variable {m : Memory b} {a c : ℕ} {x : UInt8}

theorem byte_store : (m.store a x).byte c = if c = a then x else m.byte c := by
  by_cases ha : InPool b a
  · simp only [store, if_pos ha, byte]
    by_cases hc : InPool b c
    · rw [if_pos hc, if_pos hc, Buffer.peek_poke]
      obtain ⟨hlow, -⟩ := ha
      obtain ⟨hlow', hhigh'⟩ := hc
      exact if_congr (by omega) rfl rfl
    · have hne : c ≠ a := fun heq => hc (heq ▸ ha)
      rw [if_neg hc, if_neg hc, if_neg hne]
  · simp only [store, if_neg ha, byte, Function.update_apply]
    by_cases hc : InPool b c
    · have hne : c ≠ a := fun heq => ha (heq ▸ hc)
      rw [if_pos hc, if_pos hc, if_neg hne]
    · rw [if_neg hc, if_neg hc]

@[simp] theorem memmap_store : (m.store a x).dev.memmap = m.dev.memmap := by
  simp only [store]
  split_ifs <;> rfl

@[simp] theorem memrdy_store : (m.store a x).dev.memrdy = m.dev.memrdy := by
  simp only [store]
  split_ifs <;> rfl

@[simp] theorem reads_store : (m.store a x).reads = m.reads := by
  simp only [store]
  split_ifs <;> rfl

@[simp] theorem writes_store : (m.store a x).writes = m.writes ++ [a] := by
  simp only [store]
  split_ifs <;> rfl

/-! ### Several bytes -/

/-- Write bytes from an address on. -/
def writeBytes (a : ℕ) : List UInt8 → Memory b → Memory b
  | [], m => m
  | x :: xs, m => writeBytes (a + 1) xs (m.store (a % 2 ^ 32) x)

/-- Read `n` bytes from an address on. -/
def readBytes (a n : ℕ) (m : Memory b) : List UInt8 × Memory b :=
  ((List.range n).map fun i => m.byte ((a + i) % 2 ^ 32),
    { m with reads := m.reads ++ (List.range n).map fun i => (a + i) % 2 ^ 32 })

variable {xs : List UInt8} {n : ℕ}

theorem writeBytes_append (ys : List UInt8) :
    m.writeBytes a (xs ++ ys) = (m.writeBytes a xs).writeBytes (a + xs.length) ys := by
  induction xs generalizing m a with
  | nil => rfl
  | cons x xs ih =>
    rw [List.cons_append, writeBytes, ih, writeBytes, List.length_cons]
    exact congrArg (fun c => writeBytes c ys _) (by omega)

theorem table_writeBytes : (m.writeBytes a xs).dev.memmap = m.dev.memmap ∧
    (m.writeBytes a xs).dev.memrdy = m.dev.memrdy := by
  induction xs generalizing m a with
  | nil => exact ⟨rfl, rfl⟩
  | cons x xs ih =>
    obtain ⟨hmap, hrdy⟩ := ih (m := m.store (a % 2 ^ 32) x) (a := a + 1)
    exact ⟨hmap.trans memmap_store, hrdy.trans memrdy_store⟩

theorem writes_writeBytes : (m.writeBytes a xs).writes =
    m.writes ++ (List.range xs.length).map fun i => (a + i) % 2 ^ 32 := by
  induction xs generalizing m a with
  | nil => simp [writeBytes]
  | cons x xs ih =>
    rw [writeBytes, ih, writes_store, List.length_cons, List.range_succ_eq_map, List.map_cons,
      List.map_map, List.append_assoc]
    refine congrArg (m.writes ++ ·) (congrArg (_ :: ·) (List.map_congr_left fun i _ => ?_))
    rw [Function.comp_apply, Nat.add_assoc, Nat.add_comm 1]

/-- What was written is there, and nothing else has changed. -/
theorem byte_writeBytes (h : a + xs.length ≤ 2 ^ 32) (c : ℕ) :
    (m.writeBytes a xs).byte c =
      if a ≤ c ∧ c < a + xs.length then xs.getD (c - a) 0 else m.byte c := by
  induction xs generalizing m a with
  | nil => rw [if_neg (by rw [List.length_nil]; omega)]; rfl
  | cons x xs ih =>
    rw [List.length_cons] at h ⊢
    rw [writeBytes, ih (by omega), byte_store, Nat.mod_eq_of_lt (by omega : a < 2 ^ 32)]
    by_cases hfirst : c = a
    · rw [hfirst, if_neg (by omega), if_pos rfl, if_pos (by omega), Nat.sub_self]
      rfl
    · rw [if_neg hfirst]
      by_cases hrest : a + 1 ≤ c ∧ c < a + 1 + xs.length
      · obtain ⟨i, hi⟩ : ∃ i, c - a = i + 1 := ⟨c - a - 1, by omega⟩
        rw [if_pos hrest, if_pos (by omega), hi, List.getD_cons_succ]
        exact congrArg (xs.getD · 0) (by omega)
      · rw [if_neg hrest, if_neg (by omega)]

/-- What was written is read back. -/
theorem readBytes_writeBytes (h : a + xs.length ≤ 2 ^ 32) :
    ((m.writeBytes a xs).readBytes a xs.length).1 = xs := by
  refine List.ext_getElem (by simp [readBytes]) fun i hi hi' => ?_
  have hmod : (a + i) % 2 ^ 32 = a + i := Nat.mod_eq_of_lt (by omega)
  simp only [readBytes, List.getElem_map, List.getElem_range, hmod]
  rw [byte_writeBytes h, if_pos (by omega), Nat.add_sub_cancel_left,
    List.getD_eq_getElem?_getD, List.getElem?_eq_getElem hi', Option.getD_some]

theorem readBytes_add (k : ℕ) :
    (m.readBytes a (n + k)).1 = (m.readBytes a n).1 ++ (m.readBytes (a + n) k).1 := by
  simp only [readBytes, List.range_add, List.map_append, List.map_map]
  refine congrArg (_ ++ ·) (List.map_congr_left fun i _ => ?_)
  rw [Function.comp_apply, Nat.add_assoc]

/-- The first of the bytes that were written. -/
theorem readBytes_writeBytes_take (h : a + xs.length ≤ 2 ^ 32) (hn : n ≤ xs.length) :
    ((m.writeBytes a xs).readBytes a n).1 = xs.take n := by
  have hlength : ((m.writeBytes a xs).readBytes a n).1.length = n := by simp [readBytes]
  have hall := (m.writeBytes a xs).readBytes_add (a := a) (n := n) (xs.length - n)
  rw [Nat.add_sub_cancel' hn, readBytes_writeBytes h] at hall
  exact (List.take_left' hlength).symm.trans (congrArg (List.take n) hall.symm)

end Memory

/-! ## The loops of `malloc.c` -/

/-- Copy `n` bytes, the first one first. -/
def mymemcpy (des src n : ℕ) (m : Memory b) : Memory b :=
  forRange 0 n (fun i m =>
    let (x, m) := m.load ((src + i) % 2 ^ 32)
    m.store ((des + i) % 2 ^ 32) x) m

/-- Fill `count` bytes with one value. -/
def mymemset (s : ℕ) (c : UInt8) (count : ℕ) (m : Memory b) : Memory b :=
  forRange 0 count (fun i m => m.store ((s + i) % 2 ^ 32) c) m

section Loops

variable {m : Memory b} {des src n s count : ℕ} {c : UInt8}

/-- A loop whose rounds keep the table keeps the table. -/
theorem table_forRange {body : ℕ → Memory b → Memory b}
    (hbody : ∀ i m, (body i m).dev.memmap = m.dev.memmap ∧ (body i m).dev.memrdy = m.dev.memrdy) :
    (forRange 0 n body m).dev.memmap = m.dev.memmap ∧
      (forRange 0 n body m).dev.memrdy = m.dev.memrdy := by
  refine forRange_induction (P := fun _ (m' : Memory b) => m'.dev.memmap = m.dev.memmap ∧
    m'.dev.memrdy = m.dev.memrdy) (Nat.zero_le n) ⟨rfl, rfl⟩ ?_
  intro i m' _ _ ih
  exact ⟨(hbody i m').1.trans ih.1, (hbody i m').2.trans ih.2⟩

theorem table_mymemcpy : (mymemcpy des src n m).dev.memmap = m.dev.memmap ∧
    (mymemcpy des src n m).dev.memrdy = m.dev.memrdy :=
  table_forRange fun _ _ => by simp [Memory.load]

theorem table_mymemset : (mymemset s c count m).dev.memmap = m.dev.memmap ∧
    (mymemset s c count m).dev.memrdy = m.dev.memrdy :=
  table_forRange fun _ _ => by simp

/-- What a copy reads is the range of its source. -/
theorem reads_mymemcpy : (mymemcpy des src n m).reads =
    m.reads ++ (List.range n).map fun i => (src + i) % 2 ^ 32 := by
  refine forRange_induction (P := fun i (m' : Memory b) => m'.reads =
    m.reads ++ (List.range i).map fun i => (src + i) % 2 ^ 32) (Nat.zero_le n) (by simp) ?_
  intro i m' _ _ ih
  rw [Memory.load, Memory.reads_store, ih, List.range_succ, List.map_append, List.append_assoc]
  rfl

/-- So is what a fill writes. -/
theorem writes_mymemset : (mymemset s c count m).writes =
    m.writes ++ (List.range count).map fun i => (s + i) % 2 ^ 32 := by
  refine forRange_induction (P := fun i (m' : Memory b) => m'.writes =
    m.writes ++ (List.range i).map fun i => (s + i) % 2 ^ 32) (Nat.zero_le count) (by simp) ?_
  intro i m' _ _ ih
  rw [Memory.writes_store, ih, List.range_succ, List.map_append, List.append_assoc]
  rfl

/-- The bytes after a copy between areas that do not overlap. -/
theorem byte_mymemcpy (hsrc : src + n ≤ 2 ^ 32) (hdes : des + n ≤ 2 ^ 32)
    (hapart : src + n ≤ des ∨ des + n ≤ src) (a : ℕ) :
    (mymemcpy des src n m).byte a =
      if des ≤ a ∧ a < des + n then m.byte (src + (a - des)) else m.byte a := by
  -- after `i` rounds the first `i` bytes are copied and the source is as before
  revert a
  refine forRange_induction (P := fun i (m' : Memory b) => ∀ a, m'.byte a =
    if des ≤ a ∧ a < des + i then m.byte (src + (a - des)) else m.byte a) (Nat.zero_le n) ?_ ?_
  · intro a
    rw [if_neg (by omega)]
  · intro i m' _ hi ih a
    have hnext : m'.byte (src + i) = m.byte (src + i) := by
      rw [ih, if_neg (by omega)]
    rw [Memory.byte_store, Nat.mod_eq_of_lt (by omega : des + i < 2 ^ 32),
      Nat.mod_eq_of_lt (by omega : src + i < 2 ^ 32)]
    by_cases ha : a = des + i
    · rw [if_pos ha, if_pos (by omega), ha, Nat.add_sub_cancel_left]
      exact hnext
    · rw [if_neg ha]
      exact (ih a).trans (if_congr (by omega) rfl rfl)

end Loops

end FanGateway.Malloc
