import FanGateway.Lib.Blocks
import FanGateway.Lwip.Heap

/-!
# The heap as blocks

The `struct mem`s of the heap, followed from the lowest on, cut it into blocks; the bytes behind
each of them are the owner's. Inserting a `struct mem`, combining two and marking one rewrite the
list of blocks in one place, and leave the bytes of all other owners alone.
-/

namespace FanGateway.Lwip

open Function (update)
open Lib Lib.Block

/-! ## Fields -/

namespace Ram

variable {r r' : Ram} {a p q v : ℕ} {x : UInt8}

theorem word_setWord_self (hv : v < 2 ^ 16) : (r.setWord p v).word p = v := by
  have hlow : (UInt8.ofNat v).toNat = v % 2 ^ 8 := UInt8.toNat_ofNat'
  have hhigh : (UInt8.ofNat (v / 2 ^ 8)).toNat = v / 2 ^ 8 % 2 ^ 8 := UInt8.toNat_ofNat'
  simp only [word, setWord, Function.update_self, ne_eq, Nat.left_eq_add, one_ne_zero,
    not_false_eq_true, Function.update_of_ne, hlow, hhigh]
  omega

theorem setWord_of_ne (h : a < p ∨ p + 2 ≤ a) : (r.setWord p v) a = r a := by
  rw [setWord, Function.update_of_ne (by omega), Function.update_of_ne (by omega)]

theorem word_congr (h : r' p = r p) (hnext : r' (p + 1) = r (p + 1)) : r'.word p = r.word p := by
  rw [word, word, h, hnext]

theorem word_setWord_of_ne (h : q + 2 ≤ p ∨ p + 2 ≤ q) : (r.setWord p v).word q = r.word q :=
  word_congr (setWord_of_ne (by omega)) (setWord_of_ne (by omega))

/-- A `struct mem` is the bytes it lies in. -/
theorem mem_congr (h : ∀ a, p ≤ a → a < p + 8 → r' a = r a) : r'.mem p = r.mem p := by
  simp only [mem]
  rw [word_congr (h p (by omega) (by omega)) (h (p + 1) (by omega) (by omega)),
    word_congr (h (p + 2) (by omega) (by omega)) (h (p + 2 + 1) (by omega) (by omega)),
    h (p + 4) (by omega) (by omega)]

/-- An assignment writes to its own `struct mem`. -/
theorem setNext_of_ne (h : a < p ∨ p + 8 ≤ a) : (r.setNext p v) a = r a := setWord_of_ne (by omega)

theorem setPrev_of_ne (h : a < p ∨ p + 8 ≤ a) : (r.setPrev p v) a = r a := setWord_of_ne (by omega)

theorem setUsed_of_ne (h : a < p ∨ p + 8 ≤ a) : (r.setUsed p x) a = r a :=
  Function.update_of_ne (by omega) _ _

theorem mem_setNext (hv : v < 2 ^ 16) :
    (r.setNext p v).mem p = { r.mem p with next := v } := by
  simp only [mem, setNext, word_setWord_self hv]
  rw [word_setWord_of_ne (by omega), setWord_of_ne (by omega)]

theorem mem_setPrev (hv : v < 2 ^ 16) :
    (r.setPrev p v).mem p = { r.mem p with prev := v } := by
  simp only [mem, setPrev, word_setWord_self hv]
  rw [word_setWord_of_ne (by omega), setWord_of_ne (by omega)]

theorem mem_setUsed : (r.setUsed p x).mem p = { r.mem p with used := x } := by
  have hword {q : ℕ} (hq : q + 2 ≤ p + 4) : word q (r.setUsed p x) = word q r :=
    word_congr (Function.update_of_ne (by omega) _ _) (Function.update_of_ne (by omega) _ _)
  simp only [mem, hword (show p + 2 ≤ p + 4 by omega), hword (show p + 2 + 2 ≤ p + 4 by omega)]
  rw [setUsed, Function.update_self]

theorem mem_setNext_of_ne (h : q + 8 ≤ p ∨ p + 8 ≤ q) : (r.setNext p v).mem q = r.mem q :=
  mem_congr fun _ _ _ => setNext_of_ne (by omega)

theorem mem_setPrev_of_ne (h : q + 8 ≤ p ∨ p + 8 ≤ q) : (r.setPrev p v).mem q = r.mem q :=
  mem_congr fun _ _ _ => setPrev_of_ne (by omega)

theorem mem_setUsed_of_ne (h : q + 8 ≤ p ∨ p + 8 ≤ q) : (r.setUsed p x).mem q = r.mem q :=
  mem_congr fun _ _ _ => setUsed_of_ne (by omega)

theorem combine_of_ne {mem nmem : ℕ} (hmem : a < mem ∨ mem + 8 ≤ a)
    (hnext : a < (r.mem nmem).next ∨ (r.mem nmem).next + 8 ≤ a) :
    (r.combine mem nmem) a = r a := by
  rw [combine, setPrev_of_ne hnext, setNext_of_ne hmem]

/-- Combining leaves the mark of a `struct mem` further behind. -/
theorem used_combine {mem nmem e : ℕ} (hmem : mem + 8 ≤ e) (hlt : (r.mem nmem).next < 2 ^ 16)
    (hnext : (r.mem nmem).next = e ∨ (r.mem nmem).next + 8 ≤ e) :
    ((r.combine mem nmem).mem e).used = (r.mem e).used := by
  rw [combine]
  rcases hnext with heq | hbefore
  · rw [heq] at hlt ⊢
    rw [mem_setPrev (by omega), mem_setNext_of_ne (by omega)]
  · rw [mem_setPrev_of_ne (by omega), mem_setNext_of_ne (by omega)]

/-! ### Inserting -/

section

variable {p2 next : ℕ} (hp : p + 8 ≤ p2) (hnext : p2 + 8 ≤ next) (hlt : next < 2 ^ 16)

theorem insertMem_of_ne (hfar : a < p ∨ p + 8 ≤ a) (hfar2 : a < p2 ∨ p2 + 8 ≤ a)
    (hend : a < next ∨ next + 8 ≤ a) : (r.insertMem p p2 next) a = r a := by
  rw [insertMem]
  split_ifs
  · rw [setPrev_of_ne hend, setNext_of_ne hfar, setPrev_of_ne hfar2, setNext_of_ne hfar2,
      setUsed_of_ne hfar2]
  · rw [setNext_of_ne hfar, setPrev_of_ne hfar2, setNext_of_ne hfar2, setUsed_of_ne hfar2]

include hp hnext hlt

theorem mem_insertMem : (r.insertMem p p2 next).mem p = { r.mem p with next := p2 } := by
  rw [insertMem]
  split_ifs
  · rw [mem_setPrev_of_ne (by omega), mem_setNext (by omega), mem_setPrev_of_ne (by omega),
      mem_setNext_of_ne (by omega), mem_setUsed_of_ne (by omega)]
  · rw [mem_setNext (by omega), mem_setPrev_of_ne (by omega), mem_setNext_of_ne (by omega),
      mem_setUsed_of_ne (by omega)]

theorem mem_insertMem_inserted : (r.insertMem p p2 next).mem p2 = ⟨next, p, 0⟩ := by
  rw [insertMem]
  split_ifs
  · rw [mem_setPrev_of_ne (by omega), mem_setNext_of_ne (by omega), mem_setPrev (by omega),
      mem_setNext hlt, mem_setUsed]
  · rw [mem_setNext_of_ne (by omega), mem_setPrev (by omega), mem_setNext hlt, mem_setUsed]

theorem used_insertMem {e : ℕ} (hend : next = e ∨ next + 8 ≤ e) :
    ((r.insertMem p p2 next).mem e).used = (r.mem e).used := by
  rcases hend with rfl | hbefore
  · rw [insertMem]
    split_ifs
    · rw [mem_setPrev (by omega), mem_setNext_of_ne (by omega), mem_setPrev_of_ne (by omega),
        mem_setNext_of_ne (by omega), mem_setUsed_of_ne (by omega)]
    · rw [mem_setNext_of_ne (by omega), mem_setPrev_of_ne (by omega),
        mem_setNext_of_ne (by omega), mem_setUsed_of_ne (by omega)]
  · rw [mem_congr fun a hlow _ => insertMem_of_ne (by omega) (by omega) (by omega)]

theorem mem_insertMem_next (hne : next ≠ memSizeAligned) :
    (r.insertMem p p2 next).mem next = { r.mem next with prev := p2 } := by
  rw [insertMem]
  simp only [if_pos hne]
  rw [mem_setPrev (by omega), mem_setNext_of_ne (by omega), mem_setPrev_of_ne (by omega),
    mem_setNext_of_ne (by omega), mem_setUsed_of_ne (by omega)]

end

end Ram

/-! ## Blocks -/

/-- A block of the heap and the bytes that its owner keeps in it. -/
abbrev HeapBlock := Block (List UInt8)

/-- A block has room for a `struct mem` and the least data, and for what is kept in it. -/
structure HeapBlock.Fits (b : HeapBlock) : Prop where
  le_size : 20 ≤ b.size
  dvd_size : 4 ∣ b.size
  data : ∀ d, b.data = some d → d.length + 8 ≤ b.size

namespace Ram

variable {r r' : Ram} {a i n p prev q : ℕ} {b : HeapBlock} {d : List UInt8}
  {xs ys zs zs' : List HeapBlock}

/-- Bytes at an address. -/
def Holds (r : Ram) (p : ℕ) (d : List UInt8) : Prop := ∀ i x, d[i]? = some x → r (p + i) = x

theorem Holds.congr (h : r.Holds p d) (hsame : ∀ a, p ≤ a → a < p + d.length → r' a = r a) :
    r'.Holds p d := by
  intro i x hx
  obtain ⟨hi, -⟩ := List.getElem?_eq_some_iff.mp hx
  rw [hsame (p + i) (by omega) (by omega), h i x hx]

theorem holds_bytes : r.Holds p (r.bytes p n) := by
  intro i x hx
  rw [bytes, List.getElem?_map, Option.map_eq_some_iff] at hx
  obtain ⟨j, hj, rfl⟩ := hx
  obtain ⟨hi, rfl⟩ := List.getElem?_eq_some_iff.mp hj
  rw [List.getElem_range]

@[simp] theorem length_bytes : (r.bytes p n).length = n := by
  rw [bytes, List.length_map, List.length_range]

/-- What is kept is what is read. -/
theorem Holds.bytes_eq (h : r.Holds p d) : r.bytes p d.length = d := by
  apply List.ext_getElem length_bytes
  intro i hi hi'
  simp only [bytes, List.getElem_map, List.getElem_range]
  exact h i _ (List.getElem?_eq_getElem hi')

/-- A byte that is written is the one that is kept. -/
theorem Holds.set {i : ℕ} {x : UInt8} (h : r.Holds p d) (hi : i < d.length) :
    Holds (update r (p + i) x) p (d.set i x) := by
  intro j y hy
  rw [List.getElem?_set] at hy
  split_ifs at hy with heq
  · obtain rfl := Option.some.inj hy
    rw [heq, Function.update_self]
  · rw [Function.update_of_ne (by omega)]
    exact h j y hy

/-- A block begins with its `struct mem`. -/
structure Starts (r : Ram) (prev p : ℕ) (b : HeapBlock) : Prop where
  next : (r.mem p).next = p + b.size
  prev : (r.mem p).prev = prev
  used : (r.mem p).used = 0 ↔ b.data = none
  holds : ∀ d, b.data = some d → r.Holds (p + 8) d
  fits : b.Fits

/-- Blocks one behind the other from an address on, with the address of the one before. -/
def Linked (r : Ram) : ℕ → ℕ → List HeapBlock → Prop
  | _, _, [] => True
  | prev, p, b :: bs => r.Starts prev p b ∧ Linked r p (p + b.size) bs

/-- The address of the last of some blocks. -/
def lastOf : ℕ → ℕ → List HeapBlock → ℕ
  | prev, _, [] => prev
  | _, p, b :: bs => lastOf p (p + b.size) bs

theorem Starts.congr (h : r.Starts prev p b)
    (hsame : ∀ a, p ≤ a → a < p + b.size → r' a = r a) : r'.Starts prev p b := by
  have hsize := h.fits.le_size
  have hmem : r'.mem p = r.mem p := mem_congr fun a hlow hhigh => hsame a hlow (by omega)
  refine ⟨hmem ▸ h.next, hmem ▸ h.prev, hmem ▸ h.used, fun d hd => ?_, h.fits⟩
  have hdata := h.fits.data d hd
  exact (h.holds d hd).congr fun a hlow hhigh => hsame a (by omega) (by omega)

theorem Linked.congr (h : r.Linked prev p xs)
    (hsame : ∀ a, p ≤ a → a < p + extent xs → r' a = r a) : r'.Linked prev p xs := by
  induction xs generalizing prev p with
  | nil => trivial
  | cons b xs ih =>
    rw [extent_cons] at hsame
    exact ⟨h.1.congr fun a hlow hhigh => hsame a hlow (by omega),
      ih h.2 fun a hlow hhigh => hsame a (by omega) (by omega)⟩

theorem Linked.fits (h : r.Linked prev p xs) : ∀ c ∈ xs, c.Fits := by
  induction xs generalizing prev p with
  | nil => exact fun c hc => absurd hc (List.not_mem_nil)
  | cons b xs ih => exact List.forall_mem_cons.mpr ⟨h.1.fits, ih h.2⟩

theorem Linked.pos (h : r.Linked prev p xs) : ∀ c ∈ xs, 0 < c.size := by
  intro c hc
  have hsize := (h.fits c hc).le_size
  omega

/-- What is behind some blocks is the end, or room for another. -/
theorem Linked.extent_eq_or (h : r.Linked prev p xs) : xs = [] ∨ 20 ≤ extent xs := by
  cases xs with
  | nil => exact .inl rfl
  | cons b xs =>
    have hsize := h.1.fits.le_size
    rw [extent_cons]
    omega

theorem linked_append : r.Linked prev p (xs ++ ys) ↔
    r.Linked prev p xs ∧ r.Linked (lastOf prev p xs) (p + extent xs) ys := by
  induction xs generalizing prev p with
  | nil => exact ⟨fun h => ⟨trivial, h⟩, fun h => h.2⟩
  | cons b xs ih =>
    rw [List.cons_append, Linked, Linked, ih, lastOf, extent_cons, Nat.add_assoc, and_assoc]

theorem lastOf_append_singleton : lastOf prev p (xs ++ [b]) = p + extent xs := by
  induction xs generalizing prev p with
  | nil => rfl
  | cons c xs ih => rw [List.cons_append, lastOf, ih, extent_cons, Nat.add_assoc]

/-- Only the first block says what is before it. -/
theorem Linked.relink {prev' : ℕ} (h : r.Linked prev q ys)
    (hhead : ys ≠ [] → r'.mem q = { r.mem q with prev := prev' })
    (hsame : ∀ a, q + 8 ≤ a → a < q + extent ys → r' a = r a) : r'.Linked prev' q ys := by
  cases ys with
  | nil => trivial
  | cons b ys =>
    rw [extent_cons] at hsame
    have hsize := h.1.fits.le_size
    have hmem := hhead (List.cons_ne_nil b ys)
    refine ⟨⟨?_, ?_, ?_, fun d hd => ?_, h.1.fits⟩, h.2.congr fun a hlow hhigh => ?_⟩
    · rw [hmem, h.1.next]
    · rw [hmem]
    · rw [hmem]
      exact h.1.used
    · have hdata := h.1.fits.data d hd
      exact (h.1.holds d hd).congr fun a hlow hhigh => hsame a hlow (by omega)
    · exact hsame a (by omega) (by omega)

/-- Some of the blocks are replaced by others that take as much room. -/
theorem Linked.splice (h : r.Linked prev p (xs ++ (zs ++ ys)))
    (hbefore : ∀ a, p ≤ a → a < p + extent xs → r' a = r a)
    (hzs : r'.Linked (lastOf prev p xs) (p + extent xs) zs') (hext : extent zs' = extent zs)
    (hhead : ys ≠ [] → r'.mem (p + extent xs + extent zs) =
      { r.mem (p + extent xs + extent zs) with
        prev := lastOf (lastOf prev p xs) (p + extent xs) zs' })
    (hafter : ∀ a, p + extent xs + extent zs + 8 ≤ a →
      a < p + extent xs + extent zs + extent ys → r' a = r a) :
    r'.Linked prev p (xs ++ (zs' ++ ys)) := by
  rw [linked_append, linked_append] at h ⊢
  rw [hext]
  exact ⟨h.1.congr hbefore, hzs, h.2.2.relink hhead hafter⟩

/-! ## Rewriting one place -/

variable {b' : HeapBlock} {d' : List UInt8} {m k : ℕ} {x : Option (List UInt8)}
  {us : List HeapBlock}

theorem Linked.starts (h : r.Linked 0 0 (xs ++ b :: ys)) :
    r.Starts (lastOf 0 0 xs) (extent xs) b := by
  have hrest := (linked_append.mp h).2
  rw [Nat.zero_add] at hrest
  exact hrest.1

/-- One block is replaced. -/
theorem Linked.replace (h : r.Linked 0 0 (xs ++ b :: ys))
    (hbefore : ∀ a, a < extent xs → r' a = r a)
    (hafter : ∀ a, extent xs + b.size ≤ a → r' a = r a)
    (hb : r'.Starts (lastOf 0 0 xs) (extent xs) b') (hsize : b'.size = b.size) :
    r'.Linked 0 0 (xs ++ b' :: ys) := by
  have hrest := (linked_append.mp h).2
  rw [linked_append, Nat.zero_add] at *
  refine ⟨h.1.congr fun a _ hhigh => hbefore a (by omega), hb, ?_⟩
  rw [hsize]
  exact h.2.2.congr fun a hlow _ => hafter a hlow

/-- What the owner of a block keeps in it changes. -/
theorem Linked.refill (h : r.Linked 0 0 (xs ++ ⟨n, some d⟩ :: ys))
    (hsame : ∀ a, a < extent xs + 8 ∨ extent xs + n ≤ a → r' a = r a)
    (hlen : d'.length + 8 ≤ n) (hholds : r'.Holds (extent xs + 8) d') :
    r'.Linked 0 0 (xs ++ ⟨n, some d'⟩ :: ys) := by
  have hb := h.starts
  have hmem : r'.mem (extent xs) = r.mem (extent xs) :=
    mem_congr fun a hlow hhigh => hsame a (.inl hhigh)
  refine h.replace (fun a ha => hsame a (by omega)) (fun a ha => hsame a (.inr ha)) ?_ rfl
  refine ⟨hmem ▸ hb.next, hmem ▸ hb.prev, ?_, fun d hd => ?_, ?_⟩
  · simpa [hmem] using hb.used
  · obtain rfl := Option.some.inj hd
    exact hholds
  · refine ⟨hb.fits.le_size, hb.fits.dvd_size, fun d hd => ?_⟩
    obtain rfl := Option.some.inj hd
    exact hlen

/-- A free block is marked as used. -/
theorem Linked.take (h : r.Linked 0 0 (xs ++ ⟨n, none⟩ :: ys)) (hlen : d.length + 8 ≤ n)
    (hholds : r.Holds (extent xs + 8) d) :
    (r.setUsed (extent xs) 1).Linked 0 0 (xs ++ ⟨n, some d⟩ :: ys) := by
  have hb := h.starts
  have hsize := hb.fits.le_size
  refine h.replace (fun a ha => setUsed_of_ne (.inl ha))
    (fun a ha => setUsed_of_ne (.inr (by simp only at ha hsize; omega))) ?_ rfl
  refine ⟨?_, ?_, ?_, fun d hd => ?_, ?_⟩
  · rw [mem_setUsed, hb.next]
  · rw [mem_setUsed, hb.prev]
  · simp [mem_setUsed]
  · obtain rfl := Option.some.inj hd
    exact hholds.congr fun a hlow _ => setUsed_of_ne (.inr hlow)
  · refine ⟨hb.fits.le_size, hb.fits.dvd_size, fun d hd => ?_⟩
    obtain rfl := Option.some.inj hd
    exact hlen

/-- A block is marked as unused. -/
theorem Linked.give (h : r.Linked 0 0 (xs ++ ⟨n, x⟩ :: ys)) :
    (r.setUsed (extent xs) 0).Linked 0 0 (xs ++ ⟨n, none⟩ :: ys) := by
  have hb := h.starts
  have hsize := hb.fits.le_size
  refine h.replace (fun a ha => setUsed_of_ne (.inl ha))
    (fun a ha => setUsed_of_ne (.inr (by simp only at ha hsize; omega))) ?_ rfl
  refine ⟨?_, ?_, ?_, fun d hd => ?_, hb.fits.le_size, hb.fits.dvd_size, fun d hd => ?_⟩
  · rw [mem_setUsed, hb.next]
  · rw [mem_setUsed, hb.prev]
  · simp [mem_setUsed]
  · cases hd
  · cases hd

/-- A free block and the free one behind it are combined. -/
theorem Linked.combine (h : r.Linked 0 0 (xs ++ ⟨m, none⟩ :: ⟨n, none⟩ :: ys))
    (hlt : extent xs + m + n < 2 ^ 16) :
    (r.combine (extent xs) (extent xs + m)).Linked 0 0 (xs ++ ⟨m + n, none⟩ :: ys) := by
  have hfirst := h.starts
  have hsecond : r.Starts (extent xs) (extent xs + m) ⟨n, none⟩ := by
    have hrest := (linked_append.mp h).2
    rw [Nat.zero_add] at hrest
    exact hrest.2.1
  have hm := hfirst.fits.le_size
  have hn := hsecond.fits.le_size
  simp only at hm hn
  have hnext : (r.mem (extent xs + m)).next = extent xs + m + n := hsecond.next
  have hsame (a : ℕ) (hfar : a < extent xs ∨ extent xs + 8 ≤ a)
      (hend : a < extent xs + m + n ∨ extent xs + m + n + 8 ≤ a) :
      (r.combine (extent xs) (extent xs + m)) a = r a :=
    combine_of_ne hfar (by rwa [hnext])
  have hhead : (r.combine (extent xs) (extent xs + m)).mem (extent xs) =
      { r.mem (extent xs) with next := extent xs + m + n } := by
    rw [Ram.combine, hnext, mem_setPrev_of_ne (by omega), mem_setNext (by omega)]
  have hblocks : r.Linked 0 0 (xs ++ ([⟨m, none⟩, ⟨n, none⟩] ++ ys)) := h
  change (r.combine (extent xs) (extent xs + m)).Linked 0 0 (xs ++ ([⟨m + n, none⟩] ++ ys))
  refine hblocks.splice (fun a _ ha => hsame a (by omega) (by omega)) ?_ rfl (fun _ => ?_)
    fun a hlow _ => ?_
  · rw [Nat.zero_add]
    refine ⟨⟨?_, ?_, ?_, fun d hd => ?_, ?_, ?_, fun d hd => ?_⟩, trivial⟩
    · rw [hhead, Nat.add_assoc]
    · rw [hhead, hfirst.prev]
    · rw [hhead]
      exact hfirst.used
    · cases hd
    · simp only
      omega
    · exact Nat.dvd_add hfirst.fits.dvd_size hsecond.fits.dvd_size
    · cases hd
  · simp only [extent_cons, extent_nil, lastOf, Nat.zero_add, Nat.add_zero, ← Nat.add_assoc]
    rw [Ram.combine, hnext, mem_setPrev (by omega), mem_setNext_of_ne (by omega)]
  · simp only [extent_cons, extent_nil] at hlow
    exact hsame a (by omega) (by omega)

/-- A block, with the ones behind it that are dropped, is divided. -/
theorem Linked.insertMem (h : r.Linked 0 0 (xs ++ (⟨n, x⟩ :: us ++ ys)))
    (hlt : extent xs + n + extent us < 2 ^ 16)
    (hend : extent xs + n + extent us = memSizeAligned → ys = []) (hk : 20 ≤ k) (hdvd : 4 ∣ k)
    (hrest : k + 20 ≤ n + extent us) (hdrop : 4 ∣ extent us)
    (hdata : ∀ d, x = some d → d.length + 8 ≤ k) :
    (r.insertMem (extent xs) (extent xs + k) (extent xs + n + extent us)).Linked 0 0
      (xs ++ ⟨k, x⟩ :: ⟨n + extent us - k, none⟩ :: ys) := by
  have hb := h.starts
  have hdvdn : 4 ∣ n := hb.fits.dvd_size
  have hnext : extent xs + k + 8 ≤ extent xs + n + extent us := by omega
  have hsame {a : ℕ} (hP : a < extent xs ∨ extent xs + 8 ≤ a)
      (hK : a < extent xs + k ∨ extent xs + k + 8 ≤ a)
      (hQ : a < extent xs + n + extent us ∨ extent xs + n + extent us + 8 ≤ a) :
      (r.insertMem (extent xs) (extent xs + k) (extent xs + n + extent us)) a = r a :=
    insertMem_of_ne hP hK hQ
  change (r.insertMem (extent xs) (extent xs + k) (extent xs + n + extent us)).Linked 0 0
    (xs ++ ([⟨k, x⟩, ⟨n + extent us - k, none⟩] ++ ys))
  refine h.splice (fun a _ ha => hsame (by omega) (by omega) (by omega)) ?_ ?_ (fun hne => ?_)
    fun a hlow _ => ?_
  · rw [Nat.zero_add]
    refine ⟨⟨?_, ?_, ?_, fun d hd => ?_, hk, hdvd, hdata⟩,
      ⟨?_, ?_, ?_, fun d hd => ?_, ?_, ?_, fun d hd => ?_⟩, trivial⟩
    · rw [mem_insertMem (by omega) hnext hlt]
    · rw [mem_insertMem (by omega) hnext hlt, hb.prev]
    · rw [mem_insertMem (by omega) hnext hlt]
      exact hb.used
    · have hlen := hdata d hd
      exact (hb.holds d hd).congr fun a hlow hhigh => hsame (by omega) (by omega) (by omega)
    · rw [mem_insertMem_inserted (by omega) hnext hlt]
      simp only
      omega
    · rw [mem_insertMem_inserted (by omega) hnext hlt]
    · rw [mem_insertMem_inserted (by omega) hnext hlt]
      simp
    · cases hd
    · simp only
      omega
    · simp only
      omega
    · cases hd
  · simp only [extent_cons, extent_nil]
    omega
  · simp only [extent_cons, lastOf, Nat.zero_add, ← Nat.add_assoc]
    exact mem_insertMem_next (by omega) hnext hlt fun hq => hne (hend hq)
  · simp only [extent_cons] at hlow
    exact hsame (by omega) (by omega) (by omega)

end Ram

end FanGateway.Lwip
