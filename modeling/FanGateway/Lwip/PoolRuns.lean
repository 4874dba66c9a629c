import FanGateway.Lib.Stock
import FanGateway.Lwip.Pools

/-!
# Runs of the pools

Programs that give an element back to the pool it came from, and write within their own, share the
bytes of the pools with the lists of the free elements. In every such run each element holds what
its owner wrote there, and a pool refuses an element only when all of them are in use.
-/

namespace FanGateway.Lwip

open Function (update)
open Lib Lib.Stock

/-! ## Pointers -/

namespace Ram

variable {r r' : Ram} {a p v : ℕ}

theorem pointer_setPointer_self (hv : v < 2 ^ 32) : (r.setPointer p v).pointer p = v := by
  rw [setPointer, pointer, word_setWord_self (by omega), word_setWord_of_ne (by omega),
    word_setWord_self (by omega)]
  omega

theorem setPointer_of_ne (h : a < p ∨ p + 4 ≤ a) : (r.setPointer p v) a = r a := by
  rw [setPointer, setWord_of_ne (by omega), setWord_of_ne (by omega)]

/-- A pointer is the bytes it lies in. -/
theorem pointer_congr (h : ∀ a, p ≤ a → a < p + 4 → r' a = r a) : r'.pointer p = r.pointer p := by
  rw [pointer, pointer, word_congr (h p (by omega) (by omega)) (h (p + 1) (by omega) (by omega)),
    word_congr (h (p + 2) (by omega) (by omega)) (h (p + 2 + 1) (by omega) (by omega))]

end Ram

/-! ## Elements -/

/-- The elements of each pool, from an address on. -/
def elements : List Mempool → ℕ → ℕ → List ℕ
  | [], _, _ => []
  | pool :: _, base, 0 => List.range' base pool.num.toNat (lwipMemAlignSize pool.size)
  | pool :: pools, base, i + 1 => elements pools (base + pool.span) i

/-- The bytes of an element of a type. -/
def roomOf (pools : List Mempool) (type : ℕ) : ℕ :=
  pools[type]?.elim 0 fun pool => lwipMemAlignSize pool.size

section Elements

variable {pools : List Mempool} {pool : Mempool} {base i j a c : ℕ}

theorem Mempool.sizes_eq : pool.sizes = lwipMemAlignSize pool.size := by
  have hle := pool.size_le
  rw [Mempool.sizes, lwipMemAlignSize]
  omega

theorem Mempool.four_le : 4 ≤ lwipMemAlignSize pool.size := by
  have hpos := pool.size_pos
  rw [lwipMemAlignSize]
  omega

/-- An element of a pool is one of those from an address on. -/
theorem exists_of_mem (h : a ∈ List.range' base pool.num.toNat (lwipMemAlignSize pool.size)) :
    ∃ k, k + 1 ≤ pool.num.toNat ∧ a = base + lwipMemAlignSize pool.size * k :=
  List.mem_range'.mp h

theorem le_span {k : ℕ} (h : k + 1 ≤ pool.num.toNat) :
    lwipMemAlignSize pool.size * k + lwipMemAlignSize pool.size ≤ pool.span := by
  rw [← Nat.mul_succ, Mempool.span, Nat.mul_comm]
  exact Nat.mul_le_mul_right _ h

/-- The elements lie behind the address, one pool behind the other. -/
theorem elements_bounds (h : a ∈ elements pools base i) :
    base ≤ a ∧ a + roomOf pools i ≤ base + (pools.map Mempool.span).sum := by
  induction pools generalizing base i with
  | nil => exact absurd h List.not_mem_nil
  | cons pool pools ih =>
    rw [List.map_cons, List.sum_cons]
    cases i with
    | zero =>
      obtain ⟨k, hk, rfl⟩ := exists_of_mem h
      have hspan := le_span hk
      refine ⟨Nat.le_add_right _ _, ?_⟩
      change _ + lwipMemAlignSize pool.size ≤ _
      omega
    | succ i =>
      obtain ⟨hle, hend⟩ := ih h
      refine ⟨by omega, ?_⟩
      change a + roomOf pools i ≤ _
      omega

/-- An element of a type has room for what it is for, and for a pointer. -/
theorem elements_room (h : a ∈ elements pools base i) :
    i < pools.length ∧ 4 ≤ roomOf pools i ∧ MempState.sizeOf pools i ≤ roomOf pools i := by
  induction pools generalizing base i with
  | nil => exact absurd h List.not_mem_nil
  | cons pool pools ih =>
    cases i with
    | zero =>
      refine ⟨Nat.succ_pos _, pool.four_le, ?_⟩
      change pool.size ≤ lwipMemAlignSize pool.size
      rw [lwipMemAlignSize]
      omega
    | succ i =>
      obtain ⟨hlt, hroom⟩ := ih h
      exact ⟨Nat.succ_lt_succ hlt, hroom⟩

theorem elements_aligned (h : a ∈ elements pools base i) (hbase : 4 ∣ base) : 4 ∣ a := by
  have haligned {size : ℕ} : 4 ∣ lwipMemAlignSize size := Nat.dvd_mul_left _ _
  induction pools generalizing base i with
  | nil => exact absurd h List.not_mem_nil
  | cons pool pools ih =>
    cases i with
    | zero =>
      obtain ⟨k, -, rfl⟩ := exists_of_mem h
      exact Nat.dvd_add hbase (haligned.mul_right k)
    | succ i => exact ih h (Nat.dvd_add hbase (haligned.mul_left _))

/-- Two elements are the same, or do not overlap. -/
theorem elements_apart (ha : a ∈ elements pools base i) (hc : c ∈ elements pools base j) :
    (i = j ∧ a = c) ∨ a + roomOf pools i ≤ c ∨ c + roomOf pools j ≤ a := by
  induction pools generalizing base i j with
  | nil => exact absurd ha List.not_mem_nil
  | cons pool pools ih =>
    cases i with
    | zero =>
      obtain ⟨k, hk, rfl⟩ := exists_of_mem ha
      cases j with
      | zero =>
        obtain ⟨l, -, rfl⟩ := exists_of_mem hc
        change _ ∨ _ + lwipMemAlignSize pool.size ≤ _ ∨ _ + lwipMemAlignSize pool.size ≤ _
        rcases Nat.lt_trichotomy k l with hlt | rfl | hlt
        · have hle := Nat.mul_le_mul_left (lwipMemAlignSize pool.size) hlt
          rw [Nat.mul_succ] at hle
          omega
        · exact .inl ⟨rfl, rfl⟩
        · have hle := Nat.mul_le_mul_left (lwipMemAlignSize pool.size) hlt
          rw [Nat.mul_succ] at hle
          omega
      | succ j =>
        have hspan := le_span hk
        have hle := (@elements_bounds pools _ _ _ hc).1
        change _ ∨ _ + lwipMemAlignSize pool.size ≤ _ ∨ _
        omega
    | succ i =>
      cases j with
      | zero =>
        obtain ⟨k, hk, rfl⟩ := exists_of_mem hc
        have hspan := le_span hk
        have hle := (@elements_bounds pools _ _ _ ha).1
        change _ ∨ _ ∨ _ + lwipMemAlignSize pool.size ≤ _
        omega
      | succ j =>
        rcases ih ha hc with ⟨rfl, rfl⟩ | hbefore | hbehind
        · exact .inl ⟨rfl, rfl⟩
        · exact .inr (.inl hbefore)
        · exact .inr (.inr hbehind)

theorem elements_nodup : (elements pools base i).Nodup := by
  induction pools generalizing base i with
  | nil => exact List.nodup_nil
  | cons pool pools ih =>
    cases i with
    | zero =>
      have hroom := pool.four_le
      exact List.nodup_range' _ (by omega)
    | succ i => exact ih

theorem length_elements (h : pools[i]? = some pool) :
    (elements pools base i).length = pool.num.toNat := by
  induction pools generalizing base i with
  | nil => exact absurd h (by simp)
  | cons first pools ih =>
    cases i with
    | zero =>
      obtain rfl : first = pool := Option.some.inj h
      exact List.length_range' ..
    | succ i => exact ih h

end Elements

/-! ## Cutting the pools -/

namespace MempHeap

variable {h : MempHeap} {pools : List Mempool} {l : List ℕ} {memp i j n size : ℕ}

/-- Cutting a pool puts its elements before those that are free already, the last one first. -/
theorem carve_spec (hsize : 4 ≤ size) (hmemp : 0 < memp) (hend : memp + n * size ≤ 2 ^ 32)
    (hl : Threaded h.ram.pointer 0 (h.tab i) l) (hbefore : ∀ c ∈ l, c + 4 ≤ memp) :
    (carve i size n (memp, h)).1 = memp + n * size ∧
      Threaded (carve i size n (memp, h)).2.ram.pointer 0 ((carve i size n (memp, h)).2.tab i)
        ((List.range' memp n size).reverse ++ l) ∧
      (∀ a, a < memp ∨ memp + n * size ≤ a → (carve i size n (memp, h)).2.ram a = h.ram a) ∧
      ∀ j, j ≠ i → (carve i size n (memp, h)).2.tab j = h.tab j := by
  induction n generalizing memp h l with
  | zero => exact ⟨(by simp [carve]), hl, fun _ _ => rfl, fun _ _ => rfl⟩
  | succ n ih =>
    rw [Nat.succ_mul] at hend ⊢
    -- the new element stands before those that are free already
    have htab : h.tab i < 2 ^ 32 := by
      cases l with
      | nil => exact hl.symm ▸ Nat.two_pow_pos 32
      | cons c l =>
        have hc := hbefore c List.mem_cons_self
        have heq : h.tab i = c := hl.1
        omega
    have hpush : Threaded (h.ram.setPointer memp (h.tab i)).pointer 0 (update h.tab i memp i)
        (memp :: l) := by
      rw [Function.update_self]
      refine Threaded.push (hl.congr fun c hc => ?_) (by omega) (Ram.pointer_setPointer_self htab)
      have hc' := hbefore c hc
      exact Ram.pointer_congr fun a _ _ => Ram.setPointer_of_ne (by omega)
    have hbehind : ∀ c ∈ memp :: l, c + 4 ≤ memp + size := by
      intro c hc
      rcases List.mem_cons.mp hc with rfl | hc
      · omega
      · have hc' := hbefore c hc
        omega
    obtain ⟨hnext, hthread, houtside, hothers⟩ :=
      @ih ⟨h.ram.setPointer memp (h.tab i), update h.tab i memp⟩ (memp :: l) (memp + size)
        (by omega) (by omega) hpush hbehind
    refine ⟨by rw [carve, hnext]; omega, ?_, fun a ha => ?_, fun j hj => ?_⟩
    · rw [carve, List.range'_succ, List.reverse_cons, List.append_assoc]
      exact hthread
    · rw [carve]
      exact (houtside a (by omega)).trans (Ram.setPointer_of_ne (by omega))
    · rw [carve]
      exact (hothers j hj).trans (Function.update_of_ne hj _ _)

/-- `memp_init` cuts every pool into its elements, and touches no other byte. -/
theorem carveAll_spec (hmemp : 0 < memp) (hend : memp + (pools.map Mempool.span).sum ≤ 2 ^ 32) :
    (∀ j < pools.length, Threaded (carveAll i pools (memp, h)).ram.pointer 0
      ((carveAll i pools (memp, h)).tab (i + j)) (elements pools memp j).reverse) ∧
      (∀ j < i, (carveAll i pools (memp, h)).tab j = h.tab j) ∧
      ∀ a, a < memp ∨ memp + (pools.map Mempool.span).sum ≤ a →
        (carveAll i pools (memp, h)).ram a = h.ram a := by
  induction pools generalizing i memp h with
  | nil => exact ⟨fun j hj => absurd hj (Nat.not_lt_zero j), fun _ _ => rfl, fun _ _ => rfl⟩
  | cons pool pools ih =>
    rw [List.map_cons, List.sum_cons] at hend ⊢
    have hspan : pool.num.toNat * pool.sizes = pool.span := by rw [pool.sizes_eq, Mempool.span]
    obtain ⟨hnext, hthread, houtside, hothers⟩ :=
      @carve_spec ⟨h.ram, update h.tab i 0⟩ [] memp i pool.num.toNat pool.sizes
        (pool.sizes_eq ▸ pool.four_le) hmemp (by omega) (Function.update_self ..) (by simp)
    rw [hspan] at hnext houtside
    rw [carveAll]
    generalize carve i pool.sizes pool.num.toNat (memp, ⟨h.ram, update h.tab i 0⟩) = r at *
    obtain ⟨m, h₁⟩ := r
    obtain rfl : m = memp + pool.span := hnext
    obtain ⟨hthreads, htabs, hsame⟩ := @ih h₁ (memp + pool.span) (i + 1) (by omega) (by omega)
    refine ⟨fun j hj => ?_, fun j hj => ?_, fun a ha => ?_⟩
    · cases j with
      | zero =>
        rw [List.append_nil] at hthread
        rw [show i + 0 = i from rfl, htabs i (Nat.lt_succ_self i), elements, ← pool.sizes_eq]
        -- the pools behind this one leave its elements alone
        refine hthread.congr fun c hc => Ram.pointer_congr fun a _ _ => hsame a ?_
        rw [List.mem_reverse, pool.sizes_eq] at hc
        obtain ⟨k, hk, rfl⟩ := exists_of_mem hc
        have hle := le_span hk
        have hfour := pool.four_le
        omega
      | succ j =>
        have hj' := hthreads j (Nat.lt_of_succ_lt_succ hj)
        rwa [Nat.add_right_comm, Nat.add_assoc] at hj'
    · rw [htabs j (by omega), hothers j (by omega)]
      exact Function.update_of_ne (by omega) _ _
    · rw [hsame a (by omega), houtside a (by omega)]

end MempHeap

/-! ## What the pools keep -/

namespace MempPort

/-- Where the elements begin, and the elements of a type. -/
def first (port : MempPort) : ℕ := lwipMemAlignSize port.mempMemory
def elements (port : MempPort) (type : ℕ) : List ℕ := Lwip.elements port.pools port.first type

variable {port : MempPort} {i a : ℕ}

theorem mempGetMemorysize_eq :
    mempGetMemorysize port.pools = 4 - 1 + (port.pools.map Mempool.span).sum := by
  have hpos := port.memory_pos
  have hle := port.memory_le
  rw [mempGetMemorysize, Nat.mod_eq_of_lt (by omega)]

theorem first_le : port.mempMemory ≤ port.first ∧ port.first + (port.pools.map Mempool.span).sum ≤
    port.mempMemory + mempGetMemorysize port.pools := by
  rw [first, lwipMemAlignSize, mempGetMemorysize_eq]
  omega

/-- Every element lies in the memory that the port has got. -/
theorem bounds (h : a ∈ port.elements i) : port.mempMemory ≤ a ∧
    a + roomOf port.pools i ≤ port.mempMemory + mempGetMemorysize port.pools ∧
      0 < a ∧ a < 2 ^ 32 := by
  obtain ⟨hle, hend⟩ := elements_bounds h
  obtain ⟨hfirst, hlast⟩ := port.first_le
  obtain ⟨-, hroom, -⟩ := elements_room h
  have hpos := port.memory_pos
  have htotal := port.memory_le
  have hsize := port.mempGetMemorysize_eq
  omega

end MempPort

namespace MempState

open MempHeap

variable {port : MempPort} {base ram : Ram} {s t : MempState} {free : ℕ → List ℕ} {c : MempCall}
  {es : List MempCall} {type mem : ℕ} {d d' : List UInt8}

/-- The lists of the free elements, and what the programs keep in the others. -/
structure Represents (port : MempPort) (base : Ram) (s : MempState) (free : ℕ → List ℕ) :
    Prop where
  complete : Complete (fun i a => a ∈ port.elements i) ⟨free, s.owned⟩
  threads : ∀ i < port.pools.length, Threaded s.heap.ram.pointer 0 (s.heap.tab i) (free i)
  length : ∀ a i d, s.owned a = some (i, d) → d.length = sizeOf port.pools i
  holds : ∀ a i d, s.owned a = some (i, d) → s.heap.ram.Holds a d
  outside : ∀ a, a < port.mempMemory ∨ port.mempMemory + mempGetMemorysize port.pools ≤ a →
    s.heap.ram a = base a

theorem type_unique (i j a : ℕ) (hi : a ∈ port.elements i) (hj : a ∈ port.elements j) : i = j := by
  obtain ⟨-, hroom, -⟩ := elements_room hi
  obtain ⟨-, hroom', -⟩ := elements_room hj
  rcases elements_apart hi hj with ⟨hij, -⟩ | hbefore | hbehind
  · exact hij
  · omega
  · omega

/-- What changes in an element changes nothing elsewhere. -/
theorem Represents.apart (h : Represents port base s free) (hmem : mem ∈ port.elements type)
    (hsame : ∀ a, a < mem ∨ mem + roomOf port.pools type ≤ a → ram a = s.heap.ram a) :
    (∀ i, ∀ a ∈ free i, a ≠ mem → ram.pointer a = s.heap.ram.pointer a) ∧
      (∀ a i d, s.owned a = some (i, d) → a ≠ mem → ram.Holds a d) ∧
      ∀ a, a < port.mempMemory ∨ port.mempMemory + mempGetMemorysize port.pools ≤ a →
        ram a = base a := by
  refine ⟨fun i a ha hne => ?_, fun a i d hd hne => ?_, fun a ha => ?_⟩
  · have hi := h.complete.of_free ha
    obtain ⟨-, hroom, -⟩ := elements_room hi
    have hdisjoint := (elements_apart hi hmem).resolve_left fun heq => hne heq.2
    exact Ram.pointer_congr fun b _ _ => hsame b (by omega)
  · have hi := h.complete.of_used hd
    have hlength := h.length a i d hd
    obtain ⟨-, -, hsize⟩ := elements_room hi
    have hdisjoint := (elements_apart hi hmem).resolve_left fun heq => hne heq.2
    exact (h.holds a i d hd).congr fun b _ _ => hsame b (by omega)
  · obtain ⟨hle, hend, -, -⟩ := port.bounds hmem
    rw [hsame a (by omega), h.outside a ha]

theorem represents_init (port : MempPort) (base : Ram) :
    Represents port base (machine port base).init fun i => (port.elements i).reverse := by
  obtain ⟨hfirst, hlast⟩ := port.first_le
  have hpos := port.memory_pos
  have hle := port.memory_le
  have hsize := port.mempGetMemorysize_eq
  obtain ⟨hthreads, -, hsame⟩ :=
    @carveAll_spec ⟨base, fun _ => 0⟩ port.pools port.first 0 (by omega) (by omega)
  refine ⟨⟨fun i => List.nodup_reverse.mpr elements_nodup, fun i a => ?_, fun _ _ _ => rfl⟩,
    fun i hi => ?_, fun a i d hd => ?_, fun a i d hd => ?_, fun a ha => ?_⟩
  · simp [machine]
  · have hthread := hthreads i hi
    rwa [Nat.zero_add] at hthread
  · exact absurd hd.symm (Option.some_ne_none _)
  · exact absurd hd.symm (Option.some_ne_none _)
  · exact hsame a (by omega)

/-- An allocation answers with the first free element, if there is one. -/
theorem Represents.malloc_cases (h : Represents port base s free)
    (htype : type < port.pools.length) :
    (free type = [] ∧ mempMalloc port.pools type s.heap = (s.heap, 0)) ∨
      ∃ mem l, free type = mem :: l ∧ mempMalloc port.pools type s.heap =
        (⟨s.heap.ram, update s.heap.tab type (s.heap.ram.pointer mem)⟩, mem) := by
  have hthread := h.threads type htype
  rw [mempMalloc, if_pos htype]
  by_cases hnone : s.heap.tab type = 0
  · rw [hnone] at hthread
    exact .inl ⟨hthread.eq_nil, if_neg (not_not.mpr hnone)⟩
  · obtain ⟨l, hl, -⟩ := hthread.exists_cons hnone
    exact .inr ⟨_, l, hl, if_pos hnone⟩

/-- An element is owned after one has changed hands if it is that one, or was owned before. -/
theorem of_update_some {owned : ℕ → Option (ℕ × List UInt8)} {a i : ℕ}
    (h : update owned mem (some (type, d)) a = some (i, d')) :
    (a = mem ∧ type = i ∧ d = d') ∨ (a ≠ mem ∧ owned a = some (i, d')) := by
  by_cases ha : a = mem
  · rw [ha, Function.update_self, Option.some.injEq, Prod.mk.injEq] at h
    exact .inl ⟨ha, h⟩
  · rw [Function.update_of_ne ha] at h
    exact .inr ⟨ha, h⟩

/-- The first free element of a pool is taken. -/
theorem Represents.taken {l : List ℕ} (h : Represents port base s free)
    (htype : type < port.pools.length) (hl : free type = mem :: l) :
    Represents port base
      ⟨⟨s.heap.ram, update s.heap.tab type (s.heap.ram.pointer mem)⟩,
        update s.owned mem (some (type, s.heap.ram.bytes mem (sizeOf port.pools type)))⟩
      (update free type l) := by
  refine ⟨h.complete.take type_unique hl, fun i hi => ?_, fun a i d hd => ?_, fun a i d hd => ?_,
    h.outside⟩
  · dsimp only
    by_cases htypes : i = type
    · subst htypes
      have hthread := h.threads i hi
      rw [hl] at hthread
      rw [Function.update_self, Function.update_self]
      exact hthread.2.2
    · rw [Function.update_of_ne htypes, Function.update_of_ne htypes]
      exact h.threads i hi
  · rcases of_update_some hd with ⟨rfl, rfl, rfl⟩ | ⟨-, hd⟩
    · exact Ram.length_bytes
    · exact h.length a i d hd
  · rcases of_update_some hd with ⟨rfl, rfl, rfl⟩ | ⟨-, hd⟩
    · exact Ram.holds_bytes
    · exact h.holds a i d hd

/-- `memp_free` overwrites the first bytes of what the program kept. -/
theorem Represents.given (h : Represents port base s free) (hd : s.owned mem = some (type, d)) :
    Represents port base ⟨mempFree type mem s.heap, update s.owned mem none⟩
      (update free type (mem :: free type)) := by
  have hmem := h.complete.of_used hd
  obtain ⟨htype, hroom, -⟩ := elements_room hmem
  obtain ⟨-, -, hpos, -⟩ := port.bounds hmem
  obtain ⟨hlists, hkept, houtside⟩ := @Represents.apart _ _
    (s.heap.ram.setPointer mem (s.heap.tab type)) _ _ _ _ h hmem
    fun a ha => Ram.setPointer_of_ne (by omega)
  have htab : s.heap.tab type < 2 ^ 32 := by
    have hthread := h.threads type htype
    by_cases hnone : s.heap.tab type = 0
    · omega
    · obtain ⟨l, hl, -⟩ := hthread.exists_cons hnone
      exact (port.bounds (h.complete.of_free (hl ▸ List.mem_cons_self))).2.2.2
  have hsame {a i : ℕ} {d : List UInt8} (hd : update s.owned mem none a = some (i, d)) :
      a ≠ mem ∧ s.owned a = some (i, d) := by
    by_cases ha : a = mem
    · subst ha
      rw [Function.update_self] at hd
      exact absurd hd.symm (Option.some_ne_none _)
    · exact ⟨ha, (Function.update_of_ne ha _ _).symm.trans hd⟩
  rw [mempFree, if_neg (by omega)]
  refine ⟨h.complete.give type_unique hd, fun i hi => ?_, fun a i d hd => ?_, fun a i d hd => ?_,
    houtside⟩
  · dsimp only
    have hthread := (h.threads i hi).congr fun a ha => hlists i a ha (h.complete.ne_of_used hd ha)
    by_cases htypes : i = type
    · subst htypes
      rw [Function.update_self, Function.update_self]
      exact hthread.push (by omega) (Ram.pointer_setPointer_self htab)
    · rwa [Function.update_of_ne htypes, Function.update_of_ne htypes]
  · exact h.length a i d (hsame hd).2
  · exact hkept a i d (hsame hd).2 (hsame hd).1

theorem Represents.written {i : ℕ} {x : UInt8} (h : Represents port base s free)
    (hd : s.owned mem = some (type, d)) (hi : i < d.length) :
    Represents port base
      ⟨⟨update s.heap.ram (mem + i) x, s.heap.tab⟩,
        update s.owned mem (some (type, d.set i x))⟩ free := by
  have hmem := h.complete.of_used hd
  have hlength := h.length mem type d hd
  obtain ⟨-, -, hsize⟩ := elements_room hmem
  obtain ⟨hlists, hkept, houtside⟩ := @Represents.apart _ _ (update s.heap.ram (mem + i) x)
    _ _ _ _ h hmem fun a ha => Function.update_of_ne (by omega) _ _
  refine ⟨h.complete.refill hd, fun j hj => ?_, fun a j e he => ?_, fun a j e he => ?_, houtside⟩
  · exact (h.threads j hj).congr fun a ha => hlists j a ha (h.complete.ne_of_used hd ha)
  · rcases of_update_some he with ⟨rfl, rfl, rfl⟩ | ⟨-, he⟩
    · rwa [List.length_set]
    · exact h.length a j e he
  · rcases of_update_some he with ⟨rfl, rfl, rfl⟩ | ⟨ha, he⟩
    · exact (h.holds a type d hd).set hi
    · exact hkept a j e he ha

/-- What the programs keep to: an element goes back to the pool it came from, and each writes to
its own. -/
def Rules (s : MempState) : MempCall → Prop
  | .malloc _ => True
  | .free type mem => mem = 0 ∨ (s.owned mem).map Prod.fst = some type
  | .write mem i _ => ∃ r ∈ s.owned mem, i < r.2.length

instance rulesDecidable (s : MempState) : (c : MempCall) → Decidable (s.Rules c)
  | .malloc _ => inferInstanceAs (Decidable True)
  | .free _ _ => inferInstanceAs (Decidable (_ ∨ _))
  | .write _ _ _ => inferInstanceAs (Decidable (∃ _ ∈ _, _))

/-- The lists hold the elements that nobody owns. -/
def Sound (port : MempPort) (base : Ram) (s : MempState) : Prop :=
  ∃ free, Represents port base s free

/-- Every call within the rules leaves such lists. -/
theorem Represents.step (h : Represents port base s free) (hrules : s.Rules c)
    (hstep : s.step port.pools c = some t) : Sound port base t := by
  cases c with
  | malloc type =>
    obtain rfl := Option.some.inj hstep
    by_cases htype : type < port.pools.length
    · rcases h.malloc_cases htype with ⟨-, heq⟩ | ⟨mem, l, hl, heq⟩
      · exact ⟨free, by rwa [heq, if_pos rfl]⟩
      · have hfree : mem ∈ free type := by rw [hl]; exact List.mem_cons_self
        rw [heq, if_neg (port.bounds (h.complete.of_free hfree)).2.2.1.ne']
        exact ⟨_, h.taken htype hl⟩
    · exact ⟨free, by rwa [mempMalloc, if_neg htype, if_pos rfl]⟩
  | free type mem =>
    obtain rfl := Option.some.inj hstep
    rcases hrules with rfl | howned
    · exact ⟨free, h⟩
    · obtain ⟨⟨i, d⟩, hd, rfl⟩ := Option.map_eq_some_iff.mp howned
      have hpos := (port.bounds (h.complete.of_used hd)).2.2.1
      rw [if_neg hpos.ne']
      exact ⟨_, h.given hd⟩
  | write mem i x =>
    obtain rfl := Option.some.inj hstep
    obtain ⟨⟨type, d⟩, hd, hi⟩ := hrules
    rw [Option.mem_def] at hd
    rw [hd]
    exact ⟨free, h.written hd hi⟩

theorem sound_run (h : (machine port base).Exec Rules (machine port base).init es s) :
    Sound port base s := by
  have hinit : Sound port base (machine port base).init := ⟨_, represents_init port base⟩
  refine h.invariant hinit fun s c t hs hrules hstep => ?_
  obtain ⟨free, hfree⟩ := hs
  exact hfree.step hrules hstep

/-- **Elements are kept.** In every run within the rules each element that a program owns is one of
its pool, aligned, within the memory of the pools, holds what the program wrote there, and overlaps
no other; and no byte outside that memory has changed. -/
theorem elements_kept (h : (machine port base).Exec Rules (machine port base).init es s) :
    (∀ a i d, s.owned a = some (i, d) → a ∈ port.elements i ∧ a % 4 = 0 ∧
      d.length = sizeOf port.pools i ∧ s.heap.ram.bytes a d.length = d ∧
      port.mempMemory ≤ a ∧ a + d.length ≤ port.mempMemory + mempGetMemorysize port.pools ∧
      ∀ c j e, s.owned c = some (j, e) → c ≠ a → a + d.length ≤ c ∨ c + e.length ≤ a) ∧
    ∀ a, a < port.mempMemory ∨ port.mempMemory + mempGetMemorysize port.pools ≤ a →
      s.heap.ram a = base a := by
  obtain ⟨free, hr⟩ := sound_run h
  refine ⟨fun a i d hd => ?_, hr.outside⟩
  have ha := hr.complete.of_used hd
  have hlength := hr.length a i d hd
  obtain ⟨-, -, hsize⟩ := elements_room ha
  obtain ⟨hle, hend, -, -⟩ := port.bounds ha
  refine ⟨ha, ?_, hlength, ?_, hle, by omega, fun c j e he hne => ?_⟩
  · exact Nat.mod_eq_zero_of_dvd (elements_aligned ha (Nat.dvd_mul_left _ _))
  · exact (hr.holds a i d hd).bytes_eq
  · have hc := hr.complete.of_used he
    have hlength' := hr.length c j e he
    obtain ⟨-, -, hsize'⟩ := elements_room hc
    have hdisjoint := (elements_apart ha hc).resolve_left fun heq => hne heq.2.symm
    omega

/-- Two pools, the first with two elements. -/
def twoPools : MempPort where
  pools := [⟨2, 10, by decide, by decide⟩, ⟨1, 16, by decide, by decide⟩]
  mempMemory := 1001
  memory_pos := by decide
  memory_le := by decide

/-- The first pool is used up, and one of its elements is given back and taken again. -/
def usedUp : List MempCall :=
  [.malloc 0, .malloc 1, .malloc 0, .write 1016 9 7, .free 0 1004, .malloc 0]

theorem usedUp_runs : (((machine twoPools fun _ => 170).restrict Rules).run
    (machine twoPools fun _ => 170).init usedUp).isSome = true := by
  decide +kernel

/-- The state after the run. -/
def afterUse : MempState :=
  (((machine twoPools fun _ => 170).restrict Rules).run (machine twoPools fun _ => 170).init
    usedUp).get usedUp_runs

theorem exec_afterUse : (machine twoPools fun _ => 170).Exec Rules
    (machine twoPools fun _ => 170).init usedUp afterUse :=
  Lib.Machine.exec_of_run_restrict (Option.some_get usedUp_runs).symm

/-- What is kept after the run, and that the first pool has no more elements. -/
theorem afterUse_facts :
    afterUse.owned 1016 = some (0, [236, 3, 0, 0, 170, 170, 170, 170, 170, 7]) ∧
      (mempMalloc twoPools.pools 0 afterUse.heap).2 = 0 := by
  decide +kernel

theorem elements_kept_afterUse :
    afterUse.heap.ram.bytes 1016 10 = [236, 3, 0, 0, 170, 170, 170, 170, 170, 7] ∧
      afterUse.heap.ram 1000 = 170 := by
  obtain ⟨hkept, houtside⟩ := elements_kept exec_afterUse
  exact ⟨(hkept 1016 0 _ afterUse_facts.1).2.2.2.1, houtside 1000 (.inl (by decide))⟩

/-- **A pool is used up.** In every run within the rules a pool has as many elements as its entry
says. An allocation from it is refused if and only if all of them are in use, and else answers with
one that is not. -/
theorem malloc_refused_iff (h : (machine port base).Exec Rules (machine port base).init es s)
    {pool : Mempool} (hpool : port.pools[type]? = some pool) :
    (port.elements type).length = pool.num.toNat ∧ (port.elements type).Nodup ∧
      ((mempMalloc port.pools type s.heap).2 = 0 ↔
        ∀ a ∈ port.elements type, ∃ d, s.owned a = some (type, d)) ∧
      ((mempMalloc port.pools type s.heap).2 ≠ 0 →
        (mempMalloc port.pools type s.heap).2 ∈ port.elements type ∧
          s.owned (mempMalloc port.pools type s.heap).2 = none) := by
  obtain ⟨free, hr⟩ := sound_run h
  obtain ⟨htype, -⟩ := List.getElem?_eq_some_iff.mp hpool
  refine ⟨length_elements hpool, elements_nodup, ?_⟩
  have hused := hr.complete.free_eq_nil_iff (i := type)
  rcases hr.malloc_cases htype with ⟨hnil, heq⟩ | ⟨mem, l, hl, heq⟩
  · rw [heq]
    exact ⟨iff_of_true rfl (hused.mp hnil), fun hne => absurd rfl hne⟩
  · have hfree : mem ∈ free type := by rw [hl]; exact List.mem_cons_self
    have hmem := hr.complete.of_free hfree
    have hpos := (port.bounds hmem).2.2.1
    rw [heq]
    refine ⟨iff_of_false hpos.ne' fun hall => ?_, fun _ => ⟨hmem, hr.complete.unused _ _ hfree⟩⟩
    exact List.cons_ne_nil _ _ (hl.symm.trans (hused.mpr hall))

theorem malloc_refused_iff_afterUse :
    twoPools.pools[0]? = some ⟨2, 10, by decide, by decide⟩ ∧
      ∀ a ∈ twoPools.elements 0, ∃ d, afterUse.owned a = some (0, d) := by
  have hpool : twoPools.pools[0]? = some ⟨2, 10, by decide, by decide⟩ := rfl
  exact ⟨hpool, (malloc_refused_iff exec_afterUse hpool).2.2.1.mp afterUse_facts.2⟩

end MempState

end FanGateway.Lwip
