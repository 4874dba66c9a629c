import FanGateway.Lwip.Shortening

/-!
# Every run keeps the packets whole

A chain from the pool is allocated buffer by buffer, each linked behind the last before it has
its own successors; until the end the total length of the last buffer is too large by what is
still to come. If the pool is empty before the end, all of the chain is freed again.

With the other functions this gives every run of a program that keeps the rules: no call is a
fault, counts are references, what nobody can reach is free, lengths add up, and payloads stay in
their blocks.
-/

namespace FanGateway.Lwip

open Function (update)
open Lib.RefCount (Cells Chain Counted links)
open PbufHeap PbufState

variable {ι : Type*} {h h' : PbufHeap ι} {p q r t : ι} {b b' : StructPbuf ι} {l m : List ι}

namespace PbufHeap

/-! ## What is allocated fits -/

theorem lwipMemAlignSize_offset (layer : PbufLayer) :
    lwipMemAlignSize (sizeofStructPbuf + layer.offset) =
      sizeofStructPbuf + lwipMemAlignSize layer.offset := by
  cases layer <;> rfl

theorem lwipMemAlignSize_offset_le (layer : PbufLayer) :
    lwipMemAlignSize layer.offset ≤ pbufPoolBufsizeAligned := by
  cases layer <;> decide

theorem le_lwipMemAlignSize (n : ℕ) : n ≤ lwipMemAlignSize n := by
  rw [lwipMemAlignSize]
  omega

theorem lwipMemAlignSize_mod (n : ℕ) : lwipMemAlignSize n % 4 = 0 := Nat.mul_mod_left _ _

/-- A block of the heap has a size that 16 bits hold. -/
def Sized (layer : PbufLayer) (length : UInt16) (type : PbufType) : Prop :=
  type = .ram →
    lwipMemAlignSize (sizeofStructPbuf + layer.offset) + lwipMemAlignSize length.toNat < 2 ^ 16

/-- A larger one is cut to 16 bits, and the payload leaves the block. -/
theorem fits_ramBuffer_iff (layer : PbufLayer) (length : UInt16) :
    Fits (ramBuffer layer length : StructPbuf ι) ↔ Sized layer length .ram := by
  have hlen := le_lwipMemAlignSize length.toNat
  have hfront := lwipMemAlignSize_mod (sizeofStructPbuf + layer.offset)
  have hback := lwipMemAlignSize_mod length.toNat
  have hoffset := lwipMemAlignSize_offset layer
  have hsmall := lwipMemAlignSize_offset_le layer
  have hlt := length.toNat_lt
  have htop : lwipMemAlignSize length.toNat < length.toNat + 4 := by
    rw [lwipMemAlignSize]
    omega
  have hsizes : sizeofStructPbuf = 16 ∧ pbufPoolBufsizeAligned = 512 := ⟨rfl, rfl⟩
  constructor
  · intro hfits _
    obtain ⟨-, hend, -⟩ := hfits (.inl rfl)
    simp only [ramBuffer] at hend
    by_contra hbig
    omega
  · intro hsized _
    have hsize := hsized rfl
    simp only [ramBuffer]
    rw [Nat.mod_eq_of_lt hsize]
    exact ⟨hoffset ▸ Nat.le_add_right _ _, Nat.add_le_add_left hlen _, hsize, by omega⟩

theorem fits_nextBuffer {remLen : ℕ} : Fits (nextBuffer remLen : StructPbuf ι) := by
  intro _
  have hsize : sizeofStructPbuf + pbufPoolBufsizeAligned < 2 ^ 16 ∧
      (sizeofStructPbuf + pbufPoolBufsizeAligned) % 4 = 0 := by decide
  refine ⟨le_rfl, Nat.add_le_add_left ?_ _, hsize⟩
  change (UInt16.ofNat (min remLen pbufPoolBufsizeAligned)).toNat ≤ pbufPoolBufsizeAligned
  rw [UInt16.toNat_ofNat']
  exact (Nat.mod_le _ _).trans (Nat.min_le_right _ _)

theorem fits_firstBuffer (layer : PbufLayer) (length : UInt16) :
    Fits (firstBuffer layer length : StructPbuf ι) := by
  intro _
  have hsize : sizeofStructPbuf + pbufPoolBufsizeAligned < 2 ^ 16 ∧
      (sizeofStructPbuf + pbufPoolBufsizeAligned) % 4 = 0 := by decide
  have hoffset := lwipMemAlignSize_offset_le layer
  have hlen : (UInt16.ofNat (firstLen layer length)).toNat ≤
      pbufPoolBufsizeAligned - lwipMemAlignSize layer.offset := by
    rw [UInt16.toNat_ofNat']
    exact (Nat.mod_le _ _).trans (Nat.min_le_right _ _)
  simp only [firstBuffer, lwipMemAlignSize_offset]
  refine ⟨Nat.le_add_right _ _, ?_, hsize⟩
  omega

variable [DecidableEq ι] {owned : ι → ℕ}

/-! ## One buffer -/

theorem cells_alloc (hp : h p = none) (href : b.ref = 1) (hnext : b.next = none) :
    (h.store p b).cells = h.cells.own p := by
  have href₀ : h.cells.ref p = 0 := by
    change (h p).elim 0 _ = 0
    rw [hp]
    rfl
  have hnext₀ : h.cells.next p = none := by
    change (h p).bind _ = none
    rw [hp]
    rfl
  have hsame : update h.cells.next p b.next = h.cells.next := by
    rw [hnext, ← hnext₀, Function.update_eq_self]
  rw [store, cells_update]
  refine congrArg₂ Cells.mk ?_ hsame
  rw [href₀]
  exact congrArg _ href

/-- No buffer points to an address without one. -/
theorem Sound.next_ne [Fintype ι] (hs : h.Sound owned) (hp : h p = none) (x : ι) :
    h.cells.next x ≠ some p := by
  intro hx
  obtain ⟨b, hb⟩ := exists_of_ref_pos (hs.counted.ref_pos_of_link hx)
  rw [hp] at hb
  cases hb

theorem Sound.owned_eq_zero [Fintype ι] (hs : h.Sound owned) (hp : h p = none) : owned p = 0 :=
  (hs.counted.of_free ((ref_eq_zero_iff hs.refs).mpr hp)).1

/-- A buffer is allocated. -/
theorem Sound.alloc_one [Fintype ι] (hs : h.Sound owned) (hp : h p = none) (href : b.ref = 1)
    (hnext : b.next = none) (htot : b.totLen = b.len) (hb : Fits b) :
    (h.store p b).Sound (update owned p (owned p + 1)) := by
  refine ⟨?_, hs.refs.store (by rw [href]; decide), ?_, inside_store hs.inside hb⟩
  · rw [cells_alloc hp href hnext]
    exact hs.counted.own
  · refine totals_store hs.totals (hs.next_ne hp) (by rw [hnext]; nofun) ?_
    rw [hnext, totNext, add_zero, htot]

/-! ## A chain from the pool -/

/-- The chain so far: its last buffer has a total length that is too large by what is to come. -/
structure Partial [Fintype ι] (h : PbufHeap ι) (owned : ι → ℕ) (r : ι) (remLen : ℕ) : Prop where
  counted : Counted h.cells owned none
  refs : h.Refs
  inside : ∀ p b, h p = some b → Fits b
  last : ∃ b, h r = some b ∧ b.next = none
  totals : ∀ p b, h p = some b →
    b.totLen = b.len + h.totNext b.next + if p = r then UInt16.ofNat remLen else 0

theorem Partial.sound [Fintype ι] (h : Partial h' owned r 0) : h'.Sound owned where
  counted := h.counted
  refs := h.refs
  inside := h.inside
  totals p b hb := by
    have htot := h.totals p b hb
    have hzero : UInt16.ofNat 0 = 0 := rfl
    rwa [hzero, ite_self, add_zero] at htot

theorem Partial.link [Fintype ι] {remLen : ℕ} (hs : Partial h owned r remLen) (hq : h q = none)
    (hr : h r = some b) :
    Partial ((h.store r { b with next := some q }).store q (nextBuffer remLen)) owned q
      (remLen - min remLen pbufPoolBufsizeAligned) := by
  have hrq : r ≠ q := by
    rintro rfl
    rw [hq] at hr
    cases hr
  have hrnext : b.next = none := by
    obtain ⟨c, hc, hnext⟩ := hs.last
    rw [hr, Option.some.injEq] at hc
    rw [hc, hnext]
  have hfree : h.cells.ref q = 0 := (ref_eq_zero_iff hs.refs).mpr hq
  have hqnext : h.cells.next q = none := hs.counted.free q hfree
  have hq' : h.store r { b with next := some q } q = none := (store_of_ne hrq.symm).trans hq
  have hlink : (h.store r { b with next := some q }).cells = h.cells.setNext r (some q) :=
    cells_setNext hr rfl rfl
  have hcells : ((h.store r { b with next := some q }).store q (nextBuffer remLen)).cells =
      (h.cells.own q).setNext r (some q) := by
    rw [cells_alloc hq' rfl rfl, hlink]
    rfl
  have hunlinked : ∀ x, h.cells.next x ≠ some q := by
    intro x hx
    have hpos := hs.counted.ref_pos_of_link hx
    omega
  have hrefr := hs.refs r b hr
  have hone : 0 < (nextBuffer remLen : StructPbuf ι).ref ∧
      (nextBuffer remLen : StructPbuf ι).ref < 2 ^ 16 :=
    ⟨Nat.one_pos, Nat.one_lt_two_pow (by decide)⟩
  have hrefs := Refs.store (p := r) (b := { b with next := some q }) hs.refs hrefr
  refine ⟨?_, hrefs.store hone, ?_, ⟨_, store_self, rfl⟩, ?_⟩
  · rw [hcells]
    have howned := hs.counted.own (q := q)
    have hgiven := howned.disown (q := q) (by rw [Function.update_self]; exact Nat.succ_pos _)
    rw [Function.update_self, Nat.add_sub_cancel, Function.update_idem, Function.update_eq_self]
      at hgiven
    refine hgiven.attach ((next_of_some hr).trans hrnext) ?_ (.last hqnext) (by simpa using hrq)
    change 0 < update h.cells.ref q _ r
    rw [Function.update_of_ne hrq, ref_of_some hr]
    exact hrefr.1
  · exact inside_store (inside_store hs.inside (hs.inside r b hr)) fits_nextBuffer
  · have htot (v : Option ι) (hv : v ≠ some q) :
        ((h.store r { b with next := some q }).store q (nextBuffer remLen)).totNext v =
          h.totNext v := by
      cases v with
      | none => rfl
      | some x =>
        have hxq : x ≠ q := fun hxq => hv (hxq ▸ rfl)
        rw [totNext, totNext, store_of_ne hxq]
        by_cases hxr : x = r
        · subst hxr
          rw [store_self, hr]
          rfl
        · rw [store_of_ne hxr]
    intro x c hc
    by_cases hxq : x = q
    · subst hxq
      rw [store_self, Option.some.injEq] at hc
      rw [← hc, if_pos rfl]
      change UInt16.ofNat remLen = UInt16.ofNat (min remLen pbufPoolBufsizeAligned) + 0 + _
      rw [add_zero, ← UInt16.ofNat_add]
      congr 1
      omega
    rw [store_of_ne hxq] at hc
    rw [if_neg hxq, add_zero]
    by_cases hxr : x = r
    · subst hxr
      rw [store_self, Option.some.injEq] at hc
      have hb := hs.totals x b hr
      rw [hrnext, totNext, add_zero, if_pos rfl] at hb
      rw [← hc, totNext_of_some store_self]
      exact hb
    · rw [store_of_ne hxr] at hc
      rw [htot c.next fun hnext => hunlinked x ((next_of_some hc).trans hnext), hs.totals x c hc,
        if_neg hxr, add_zero]

/-- The loop of `pbuf_alloc` makes the chain longer until it is complete or the pool is empty. -/
theorem pbufAllocTail_spec [Fintype ι] {mem : List ι} {remLen : ℕ}
    (hs : Partial h owned r remLen) (hmem : ∀ q ∈ mem, h q = none) (hnodup : mem.Nodup) :
    ∃ (h' : PbufHeap ι) (enough : Bool), pbufAllocTail mem r remLen h = some (h', enough) ∧
      Counted h'.cells owned none ∧ h'.Refs ∧ (∀ p b, h' p = some b → Fits b) ∧
      (enough = true → h'.Totals) ∧ ∀ x ∉ r :: mem, h' x = h x := by
  induction mem generalizing h r remLen with
  | nil =>
    refine ⟨h, _, rfl, hs.counted, hs.refs, hs.inside, fun henough => ?_, fun _ _ => rfl⟩
    rw [decide_eq_true_iff] at henough
    exact (henough ▸ hs).sound.totals
  | cons q mem ih =>
    by_cases hzero : remLen = 0
    · refine ⟨h, true, ?_, hs.counted, hs.refs, hs.inside, fun _ => (hzero ▸ hs).sound.totals,
        fun _ _ => rfl⟩
      rw [pbufAllocTail, if_pos hzero]
    obtain ⟨b, hb, -⟩ := hs.last
    have hq := hmem q List.mem_cons_self
    have hlinked := hs.link hq hb
    obtain ⟨hqmem, hnodup'⟩ := List.nodup_cons.mp hnodup
    have hne (x : ι) (hx : x ∈ mem) : x ≠ r := by
      rintro rfl
      rw [hmem x (List.mem_cons_of_mem _ hx)] at hb
      cases hb
    obtain ⟨h', enough, htail, hc, hrefs, hin, htot, hout⟩ := ih hlinked (fun x hx => by
      rw [store_of_ne (by rintro rfl; exact hqmem hx), store_of_ne (hne x hx)]
      exact hmem x (List.mem_cons_of_mem _ hx)) hnodup'
    refine ⟨h', enough, ?_, hc, hrefs, hin, htot, fun x hx => ?_⟩
    · rw [pbufAllocTail, if_neg hzero, hb]
      exact htail
    · rw [List.mem_cons, not_or] at hx
      have hxq : x ≠ q := by
        rintro rfl
        exact hx.2 List.mem_cons_self
      rw [hout x hx.2, store_of_ne hxq, store_of_ne hx.1]

/-- A chain that could not be completed is freed: nothing of it is left, and the rest of the
memory is as before. -/
theorem Sound.of_incomplete [Fintype ι] {mem : List ι} (hs : h.Sound owned)
    (hmem : ∀ q ∈ p :: mem, h q = none) {h₁ : PbufHeap ι} (hout : ∀ x ∉ p :: mem, h₁ x = h x)
    (hf : Freed h₁ h') (hc : Counted h'.cells owned none)
    (hin : ∀ p b, h₁ p = some b → Fits b) (hrefs : h₁.Refs) : h'.Sound owned := by
  -- no link leads from the other buffers to the new addresses
  have hclosed {x : ι} {l : List ι} (hl : h'.Packet x l) (hx : x ∉ p :: mem) :
      ∀ y ∈ l, y ∉ p :: mem := by
    induction hl with
    | last => exact fun y hy => List.mem_singleton.mp hy ▸ hx
    | @link x z l hlink _ ih =>
      intro y hy
      rcases List.mem_cons.mp hy with rfl | hy
      · exact hx
      · refine ih (fun hz => ?_) y hy
        obtain ⟨c', hc', hnext'⟩ := exists_of_next hlink
        obtain ⟨c, hcx, -, -, heq⟩ := hf x c' hc'
        rw [hout x hx] at hcx
        refine hs.next_ne (hmem z hz) x ((next_of_some hcx).trans ?_)
        rw [← hnext', heq]
  have hnone : ∀ x ∈ p :: mem, h' x = none := by
    intro x hx
    by_contra hused
    obtain ⟨c, hcx⟩ := Option.ne_none_iff_exists'.mp hused
    have hpos : 0 < h'.cells.ref x := by
      rw [ref_of_some hcx]
      exact (hf.refs hrefs x c hcx).1
    obtain ⟨y, l, hy, hl, hxl⟩ := hc.reached hpos
    have hynew : y ∈ p :: mem := by
      by_contra hyold
      exact hclosed hl hyold x hxl hx
    rw [hs.owned_eq_zero (hmem y hynew)] at hy
    exact Nat.lt_irrefl 0 hy
  have hkept : Kept h h' := by
    intro x c' hc'
    obtain ⟨c, hcx, -, -, heq⟩ := hf x c' hc'
    rw [hout x fun hx => by rw [hnone x hx] at hc'; cases hc'] at hcx
    rw [heq]
    exact ⟨c, hcx, rfl, rfl, rfl⟩
  exact ⟨hc, hf.refs hrefs, hs.totals.kept hkept hc, hf.inside hin⟩

theorem Sound.first [Fintype ι] (hs : h.Sound owned) (layer : PbufLayer) (length : UInt16)
    (hp : h p = none) : Partial (h.store p (firstBuffer layer length))
      (update owned p (owned p + 1)) p (length.toNat - firstLen layer length) := by
  have hone : 0 < (firstBuffer layer length : StructPbuf ι).ref ∧
      (firstBuffer layer length : StructPbuf ι).ref < 2 ^ 16 :=
    ⟨Nat.one_pos, Nat.one_lt_two_pow (by decide)⟩
  refine ⟨?_, hs.refs.store hone, inside_store hs.inside (fits_firstBuffer layer length),
    ⟨_, store_self, rfl⟩, fun x c hc => ?_⟩
  · rw [cells_alloc hp rfl rfl]
    exact hs.counted.own
  by_cases hx : x = p
  · subst hx
    rw [store_self, Option.some.injEq] at hc
    rw [← hc, if_pos rfl]
    change length = UInt16.ofNat (firstLen layer length) + 0 + _
    rw [add_zero, ← UInt16.ofNat_add, firstLen, Nat.add_sub_cancel' (Nat.min_le_left _ _),
      UInt16.ofNat_toNat]
  · rw [store_of_ne hx] at hc
    rw [if_neg hx, add_zero, hs.totals x c hc]
    congr 1
    cases hnext : c.next with
    | none => rfl
    | some y =>
      have hy : y ≠ p := by
        rintro rfl
        exact hs.next_ne hp x ((next_of_some hc).trans hnext)
      rw [totNext, totNext, store_of_ne hy]

/-- `pbuf_alloc` gives a packet to the program, or leaves everything as it was. -/
theorem Sound.alloc [Fintype ι] (hs : h.Sound owned) {layer : PbufLayer} {length : UInt16}
    {type : PbufType} {mem : List ι} (hmem : ∀ q ∈ mem, h q = none) (hnodup : mem.Nodup)
    (hsized : Sized layer length type) :
    ∃ h' v, pbufAlloc layer length type mem h = some (h', v) ∧ h'.Sound (gain owned v) := by
  cases mem with
  | nil => exact ⟨h, none, rfl, hs⟩
  | cons p mem =>
    have hp := hmem p List.mem_cons_self
    have hone {b : StructPbuf ι} (href : b.ref = 1) (hnext : b.next = none)
        (htot : b.totLen = b.len) (hb : Fits b) : (h.store p b).Sound (gain owned (some p)) :=
      hs.alloc_one hp href hnext htot hb
    cases type with
    | rom => exact ⟨_, some p, rfl, hone rfl rfl rfl nofun⟩
    | ref => exact ⟨_, some p, rfl, hone rfl rfl rfl nofun⟩
    | ram =>
      exact ⟨_, some p, rfl, hone rfl rfl rfl ((fits_ramBuffer_iff layer length).mpr hsized)⟩
    | pool =>
      obtain ⟨hpmem, hnodup'⟩ := List.nodup_cons.mp hnodup
      have hfree : ∀ q ∈ mem, h.store p (firstBuffer layer length) q = none := fun q hq => by
        rw [store_of_ne (by rintro rfl; exact hpmem hq)]
        exact hmem q (List.mem_cons_of_mem _ hq)
      obtain ⟨h₁, enough, htail, hc, hrefs, hin, htot, hout⟩ :=
        pbufAllocTail_spec (hs.first layer length hp) hfree hnodup'
      cases enough with
      | true =>
        refine ⟨h₁, some p, ?_, hc, hrefs, htot rfl, hin⟩
        rw [pbufAlloc, htail]
        rfl
      | false =>
        have hgiven := hc.disown (q := p) (by rw [Function.update_self]; exact Nat.succ_pos _)
        rw [Function.update_self, Nat.add_sub_cancel, Function.update_idem,
          Function.update_eq_self] at hgiven
        obtain ⟨h', n, hfreed, hc', hf⟩ := pbufFree_spec hgiven hrefs
        refine ⟨h', none, ?_, hs.of_incomplete hmem (fun x hx => ?_) hf hc' hin hrefs⟩
        · rw [pbufAlloc, htail]
          change (pbufFree (some p) h₁).bind _ = _
          rw [hfreed]
          rfl
        · have hxp : x ≠ p := by
            rintro rfl
            exact hx List.mem_cons_self
          rw [hout x hx, store_of_ne hxp]

end PbufHeap

/-! ## Runs -/

namespace PbufState

variable {s s' : PbufState ι}

/-- The program can reach a buffer: it owns a reference to one that leads to it. -/
def Reaches (s : PbufState ι) (p : ι) : Prop := ∃ q l, 0 < s.owned q ∧ s.heap.Packet q l ∧ p ∈ l

/-- The program owns a reference to a packet that no buffer from outside points into. -/
def OwnsWhole (s : PbufState ι) (p : ι) : Prop :=
  0 < s.owned p ∧ ∀ l, s.heap.Packet p l → s.heap.Whole l

/-- The program owns a reference to the first buffer of a packet. -/
def OwnsFirst (s : PbufState ι) (p : ι) : Prop :=
  0 < s.owned p ∧ ∀ x, s.heap.cells.next x ≠ some p

/-- There is room for one more reference. -/
def Room (s : PbufState ι) (p : ι) : Prop := s.heap.cells.ref p < 2 ^ 16 - 1

/-- Two packets that are joined have no buffer in common. -/
def Joinable (s : PbufState ι) (p t : ι) : Prop :=
  s.OwnsWhole p ∧ 0 < s.owned t ∧
    ∀ l m, s.heap.Packet p l → s.heap.Packet t m → l.Disjoint m

/-- The rules of the interface. The allocators give out blocks that are not in use, each once. No
block of the heap has 64 KiB or more, as its size is cut to 16 bits: a buffer of 65533 bytes
without headers would get a block of 16. -/
def Rules (s : PbufState ι) : PbufCall ι → Prop
  | .alloc layer length type mem =>
    (∀ q ∈ mem, s.heap q = none) ∧ mem.Nodup ∧ Sized layer length type
  | .free p => ∀ q, p = some q → 0 < s.owned q
  | .ref p => ∀ q, p = some q → s.Reaches q ∧ s.Room q
  | .cat h t => ∀ p q, h = some p → t = some q → s.Joinable p q
  | .chain h t => ∀ q, t = some q → s.Room q ∧ ∃ p, h = some p ∧ s.Joinable p q
  | .dechain p => s.OwnsFirst p
  | .realloc p _ => s.OwnsWhole p
  | .header p _ => ∀ q, p = some q → s.OwnsFirst q

/-- The chain of a buffer is the one that is found. -/
theorem ownsWhole_of_packet {p : ι} {l : List ι} (hp : 0 < s.owned p) (hl : s.heap.Packet p l)
    (hwhole : s.heap.Whole l) : s.OwnsWhole p :=
  ⟨hp, fun _ hm => hl.unique hm ▸ hwhole⟩

variable [DecidableEq ι] [Fintype ι]

theorem Reaches.used (hs : s.heap.Sound s.owned) {p : ι} (hp : s.Reaches p) :
    ∃ b, s.heap p = some b := by
  obtain ⟨q, l, hq, hl, hpl⟩ := hp
  exact hs.used hq hl p hpl

theorem OwnsWhole.packet (hs : s.heap.Sound s.owned) {p : ι} (hp : s.OwnsWhole p) :
    ∃ l, s.heap.Packet p l ∧ s.heap.Whole l := by
  obtain ⟨l, hl⟩ := hs.counted.ends p
  exact ⟨l, hl, hp.2 l hl⟩

/-- A call that keeps the rules is no fault, and the packets stay sound. -/
theorem sound_step {c : PbufCall ι} (hs : s.heap.Sound s.owned) (hc : s.Rules c) :
    ∃ s', s.step c = some s' ∧ s'.heap.Sound s'.owned := by
  cases c with
  | alloc layer length type mem =>
    obtain ⟨hmem, hnodup, hsized⟩ := hc
    obtain ⟨h', v, halloc, hs'⟩ := hs.alloc hmem hnodup hsized
    exact ⟨_, by rw [step, halloc]; rfl, hs'⟩
  | free p =>
    cases p with
    | none => exact ⟨s, rfl, hs⟩
    | some p =>
      obtain ⟨h', n, hfree, hs'⟩ := hs.free (hc p rfl)
      exact ⟨_, by rw [step, hfree]; rfl, hs'⟩
  | ref p =>
    cases p with
    | none => exact ⟨s, rfl, hs⟩
    | some p =>
      obtain ⟨hreach, hroom⟩ := hc p rfl
      obtain ⟨b, hb⟩ := hreach.used hs
      rw [Room, ref_of_some hb] at hroom
      obtain ⟨h', href, hs'⟩ := hs.ref hb hroom
      exact ⟨_, by rw [step, href]; rfl, hs'⟩
  | cat h t =>
    cases h with
    | none => exact ⟨s, rfl, hs⟩
    | some p =>
      cases t with
      | none => exact ⟨s, rfl, hs⟩
      | some q =>
        obtain ⟨hp, hq, hdisj⟩ := hc p q rfl rfl
        obtain ⟨l, hl, hwhole⟩ := hp.packet hs
        obtain ⟨m, hm⟩ := hs.counted.ends q
        obtain ⟨h', hcat, hs', -⟩ := hs.cat hp.1 hq hl hm (hdisj l m hl hm) hwhole
        exact ⟨_, by rw [step, hcat]; rfl, hs'⟩
  | chain h t =>
    cases t with
    | none => exact ⟨s, by cases h <;> rfl, hs⟩
    | some q =>
      obtain ⟨hroom, p, rfl, hp, hq, hdisj⟩ := hc q rfl
      obtain ⟨l, hl, hwhole⟩ := hp.packet hs
      obtain ⟨m, hm⟩ := hs.counted.ends q
      obtain ⟨h', hchain, hs'⟩ := hs.chain hp.1 hq hl hm (hdisj l m hl hm) hwhole hroom
      exact ⟨_, by rw [step, hchain]; rfl, hs'⟩
  | dechain p =>
    obtain ⟨h', v, hdechain, hs'⟩ := hs.dechain hc.1 hc.2
    exact ⟨_, by rw [step, hdechain]; rfl, hs'⟩
  | realloc p newLen =>
    obtain ⟨l, hl, hwhole⟩ := OwnsWhole.packet hs hc
    obtain ⟨h', hrealloc, hs'⟩ := hs.realloc hc.1 hl hwhole newLen
    exact ⟨_, by rw [step, hrealloc]; rfl, hs'⟩
  | header p d =>
    cases p with
    | none => exact ⟨s, rfl, hs⟩
    | some p =>
      obtain ⟨h', e, hheader, hs'⟩ := hs.header (hc p rfl).1 (hc p rfl).2 d
      exact ⟨_, by rw [step, hheader]; rfl, hs'⟩

theorem sound_start : (start ι).heap.Sound (start ι).owned where
  counted := by
    refine ⟨fun q => ?_, fun _ _ => rfl, fun q => ⟨[q], .last rfl⟩⟩
    have hlinks : links (start ι).heap.cells.next q = ∅ := by
      ext x
      rw [Lib.RefCount.mem_links]
      exact iff_of_false nofun (Finset.notMem_empty x)
    rw [hlinks]
    rfl
  refs := nofun
  totals := nofun
  inside := nofun

theorem sound_of_exec {cs : List (PbufCall ι)} (h : (machine ι).Exec Rules (start ι) cs s) :
    s.heap.Sound s.owned := by
  refine h.invariant (P := fun s => s.heap.Sound s.owned) sound_start fun s c t hs hc hstep => ?_
  obtain ⟨s', hs', hsound⟩ := sound_step hs hc
  have heq := hstep.symm.trans hs'
  rw [Option.some.injEq] at heq
  exact heq ▸ hsound

/-- In every run of a program that keeps the rules no further call that keeps them touches a buffer
that is not there; every buffer counts the references the program owns and the buffers that
point to it, and the program reaches it; what is free has neither; and a program that has
dropped all its references has left no buffer behind. -/
theorem ref_counts {cs : List (PbufCall ι)} (h : (machine ι).Exec Rules (start ι) cs s) :
    (∀ c, s.Rules c → (s.step c).isSome = true) ∧
      (∀ p b, s.heap p = some b →
        b.ref = s.owned p + (links s.heap.cells.next p).card ∧ s.Reaches p) ∧
      (∀ p, s.heap p = none → s.owned p = 0 ∧ ∀ x, s.heap.cells.next x ≠ some p) ∧
      ((∀ p, s.owned p = 0) → ∀ p, s.heap p = none) := by
  have hs := sound_of_exec h
  refine ⟨fun c hc => ?_, fun p b hb => ⟨?_, ?_⟩, fun p hp => ⟨hs.owned_eq_zero hp, hs.next_ne hp⟩,
    fun hnone p => ?_⟩
  · obtain ⟨s', hs', -⟩ := sound_step hs hc
    rw [hs']
    rfl
  · have hcount := hs.counted.count p
    rwa [ref_of_some hb, Lib.RefCount.floating_none, Nat.add_zero] at hcount
  · refine hs.counted.reached ?_
    rw [ref_of_some hb]
    exact (hs.refs p b hb).1
  · exact (ref_eq_zero_iff hs.refs).mp (hs.counted.no_leak hnone)

/-- A header is put in front of data in two buffers from the pool. -/
def header : PbufCall (Fin 4) := .alloc .transport 10 .ram [0]
def data : PbufCall (Fin 4) := .alloc .raw 600 .pool [1, 2, 3]
def join : PbufCall (Fin 4) := .cat (some 0) (some 1)

theorem header_isSome : ((start (Fin 4)).step header).isSome = true := by decide

def withHeader : PbufState (Fin 4) := ((start (Fin 4)).step header).get header_isSome

theorem data_isSome : (withHeader.step data).isSome = true := by decide +kernel

def withData : PbufState (Fin 4) := (withHeader.step data).get data_isSome

theorem join_isSome : (withData.step join).isSome = true := by decide +kernel

def joinedPacket : PbufState (Fin 4) := (withData.step join).get join_isSome

/-- The chains and references of the two packets before they are joined. -/
theorem withData_facts :
    withData.heap.cells.next 0 = none ∧ withData.heap.cells.next 1 = some 2 ∧
      withData.heap.cells.next 2 = none ∧ 0 < withData.owned 0 ∧ 0 < withData.owned 1 ∧
        (∀ q ∈ [(1 : Fin 4), 2, 3], withHeader.heap q = none) ∧
          ∀ x y, withData.heap.cells.next x = some y → y ∈ [0] → x ∈ [0] := by
  decide +kernel

theorem header_packet : withData.heap.Packet 0 [0] := .last withData_facts.1

theorem data_packet : withData.heap.Packet 1 [1, 2] :=
  .link withData_facts.2.1 (.last withData_facts.2.2.1)

theorem header_rules : (start (Fin 4)).Rules header := ⟨by simp [start], by simp, fun _ => by decide⟩

theorem data_rules : withHeader.Rules data := ⟨withData_facts.2.2.2.2.2.1, by simp, nofun⟩

theorem join_rules : withData.Rules join := by
  rintro p q ⟨⟩ ⟨⟩
  obtain ⟨-, -, -, hheader, hdata, -, hwhole⟩ := withData_facts
  refine ⟨ownsWhole_of_packet hheader header_packet hwhole, hdata, fun l m hl hm => ?_⟩
  rw [hl.unique header_packet, hm.unique data_packet]
  simp

theorem exec_withHeader :
    (machine (Fin 4)).Exec Rules (start (Fin 4)) ([] ++ [header]) withHeader :=
  .snoc .nil header_rules (Option.some_get _).symm

theorem exec_withData :
    (machine (Fin 4)).Exec Rules (start (Fin 4)) ([] ++ [header] ++ [data]) withData :=
  exec_withHeader.snoc data_rules (Option.some_get _).symm

theorem exec_joinedPacket :
    (machine (Fin 4)).Exec Rules (start (Fin 4)) ([] ++ [header] ++ [data] ++ [join])
      joinedPacket :=
  exec_withData.snoc join_rules (Option.some_get _).symm

/-- The chain of the joined packet, and its first buffer. -/
theorem joinedPacket_facts :
    joinedPacket.heap.cells.next 0 = some 1 ∧ joinedPacket.heap.cells.next 1 = some 2 ∧
      joinedPacket.heap.cells.next 2 = none ∧ (joinedPacket.heap 0).isSome = true ∧
        ∀ b ∈ joinedPacket.heap 0, b.type = .ram := by
  decide +kernel

theorem first_isSome : (joinedPacket.heap 0).isSome = true := joinedPacket_facts.2.2.2.1

theorem ref_counts_joinedPacket :
    ((joinedPacket.heap 0).get first_isSome).ref =
        joinedPacket.owned 0 + (links joinedPacket.heap.cells.next 0).card ∧
      joinedPacket.Reaches 0 :=
  (ref_counts exec_joinedPacket).2.1 0 _ (Option.some_get first_isSome).symm

/-- In every such run the total length in a buffer is the sum of the lengths of the buffers from it
to the end of its packet, in 16 bits. -/
theorem totLen_exact {cs : List (PbufCall ι)} (h : (machine ι).Exec Rules (start ι) cs s) {p : ι}
    {b : StructPbuf ι} {l : List ι} (hb : s.heap p = some b) (hl : s.heap.Packet p l) :
    b.totLen = UInt16.ofNat (s.heap.lens l) := by
  have hs := sound_of_exec h
  have hpos : 0 < s.heap.cells.ref p := by
    rw [ref_of_some hb]
    exact (hs.refs p b hb).1
  refine totLen_eq_lens hs.totals hl (fun x hx => ?_) hb
  exact exists_of_ref_pos (hs.counted.ref_pos_of_chain hl hpos x hx)

theorem totLen_exact_joinedPacket :
    ((joinedPacket.heap 0).get first_isSome).totLen =
      UInt16.ofNat (joinedPacket.heap.lens [0, 1, 2]) :=
  totLen_exact exec_joinedPacket (Option.some_get first_isSome).symm
    (.link joinedPacket_facts.1 (.link joinedPacket_facts.2.1 (.last joinedPacket_facts.2.2.1)))

/-- In every such run a payload that lies in the block of its buffer lies between the end of the
buffer's own fields and the end of the block. -/
theorem payload_inside {cs : List (PbufCall ι)} (h : (machine ι).Exec Rules (start ι) cs s) {p : ι}
    {b : StructPbuf ι} (hb : s.heap p = some b) (htype : b.type = .ram ∨ b.type = .pool) :
    sizeofStructPbuf ≤ b.payload ∧ b.payload + b.len.toNat ≤ b.size := by
  obtain ⟨hfront, hend, -⟩ := (sound_of_exec h).inside p b hb htype
  exact ⟨hfront, hend⟩

theorem payload_inside_joinedPacket :
    sizeofStructPbuf ≤ ((joinedPacket.heap 0).get first_isSome).payload ∧
      ((joinedPacket.heap 0).get first_isSome).payload +
        ((joinedPacket.heap 0).get first_isSome).len.toNat ≤
          ((joinedPacket.heap 0).get first_isSome).size :=
  payload_inside exec_joinedPacket (Option.some_get first_isSome).symm
    (.inl (joinedPacket_facts.2.2.2.2 _ (Option.get_mem first_isSome)))

end PbufState

end FanGateway.Lwip
