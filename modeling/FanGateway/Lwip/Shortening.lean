import FanGateway.Lwip.Ownership

/-!
# The length of a packet is cut

The function goes along the packet as long as more than the length of a buffer is left, and takes
from every total length on its way what the packet is to lose. The buffer where it stops gets the
length that is left, a buffer in the heap gives back the memory behind it, and what comes after
it in the packet is freed.
-/

namespace FanGateway.Lwip

open Function (update)
open Lib.RefCount (Cells Chain Counted links)
open PbufHeap

variable {ι : Type*} {h h' : PbufHeap ι} {p q r t : ι} {b b' : StructPbuf ι} {l m : List ι}

namespace PbufHeap

/-- The lengths of some buffers, added up. -/
def lens (h : PbufHeap ι) (l : List ι) : ℕ := (l.map fun x => (h x).elim 0 (·.len.toNat)).sum

theorem lens_cons (hp : h p = some b) : lens h (p :: l) = b.len.toNat + lens h l := by
  rw [lens, List.map_cons, List.sum_cons, hp]
  rfl

/-- The total length of a packet is the sum of the lengths, in 16 bits. -/
theorem totLen_eq_lens (ht : h.Totals) (hl : h.Packet p l) (hused : ∀ x ∈ l, ∃ b, h x = some b)
    (hp : h p = some b) : b.totLen = UInt16.ofNat (lens h l) := by
  induction hl generalizing b with
  | last hnone =>
    rw [next_of_some hp] at hnone
    rw [ht _ b hp, hnone, lens_cons hp, lens, List.map_nil, List.sum_nil, Nat.add_zero, totNext,
      add_zero, UInt16.ofNat_toNat]
  | link hlink hq ih =>
    rw [next_of_some hp] at hlink
    obtain ⟨c, hc⟩ := hused _ (List.mem_cons_of_mem _ hq.mem_self)
    rw [ht _ b hp, hlink, totNext_of_some hc, lens_cons hp, UInt16.ofNat_add, UInt16.ofNat_toNat,
      ih (fun x hx => hused x (List.mem_cons_of_mem _ hx)) hc]

/-- `mem_trim` shrinks the block of a buffer to the end of its payload. -/
theorem memTrim_eq {newLen : UInt16} (hb : Fits b) (htype : b.type = .ram) (hle : newLen ≤ b.len) :
    memTrim (b.payload + newLen.toNat) b =
      some { b with size := lwipMemAlignSize (b.payload + newLen.toNat) } := by
  obtain ⟨hfront, hend, -, halign⟩ := hb (.inl htype)
  have hle' := UInt16.le_iff_toNat_le.mp hle
  have hmin : minSizeAligned ≤ lwipMemAlignSize (b.payload + newLen.toNat) := by
    rw [minSizeAligned, lwipMemAlignSize]
    rw [sizeofStructPbuf, lwipMemAlignSize] at hfront
    omega
  have hsize : lwipMemAlignSize (b.payload + newLen.toNat) ≤ b.size := by
    rw [lwipMemAlignSize]
    omega
  rw [memTrim, Nat.max_eq_left hmin, if_neg (Nat.not_lt.mpr hsize)]

theorem fits_trim {newLen : UInt16} (hb : Fits b) (hle : newLen ≤ b.len) {tot : UInt16}
    {next : Option ι} : Fits { b with
      size := lwipMemAlignSize (b.payload + newLen.toNat), len := newLen, totLen := tot,
      next := next } := by
  intro htype
  obtain ⟨hfront, hend, hsize, halign⟩ := hb htype
  have hle' := UInt16.le_iff_toNat_le.mp hle
  simp only [lwipMemAlignSize]
  omega

theorem fits_len {newLen : UInt16} (hb : Fits b) (hle : newLen ≤ b.len) {tot : UInt16}
    {next : Option ι} : Fits { b with len := newLen, totLen := tot, next := next } := by
  intro htype
  obtain ⟨hfront, hend, hsize, halign⟩ := hb htype
  have hle' := UInt16.le_iff_toNat_le.mp hle
  refine ⟨hfront, ?_, hsize, halign⟩
  dsimp only
  omega

theorem shrink_eq {remLen : UInt16} (hb : Fits b) (hle : remLen ≤ b.len) :
    ∃ size : ℕ, shrink remLen b = some { b with size := size } ∧
      Fits ({ b with size := size, len := remLen, totLen := remLen, next := none } :
        StructPbuf ι) := by
  rw [shrink]
  split_ifs with htype
  · exact ⟨_, memTrim_eq hb htype.1 hle, fits_trim hb hle⟩
  · exact ⟨b.size, rfl, fits_len hb hle⟩

variable [DecidableEq ι] {owned : ι → ℕ} {float : Option ι}

/-! ## The buffers that stay -/

/-- The first buffers of a packet with other total lengths. -/
def shortened (h : PbufHeap ι) (l : List ι) (grow : UInt16) : PbufHeap ι := fun x =>
  if x ∈ l then (h x).map fun b => { b with totLen := b.totLen + grow } else h x

theorem shortened_of_mem {grow : UInt16} (hx : p ∈ l) (hp : h p = some b) :
    shortened h l grow p = some { b with totLen := b.totLen + grow } := by
  rw [shortened, if_pos hx, hp, Option.map_some]

theorem shortened_of_notMem {grow : UInt16} (hx : p ∉ l) : shortened h l grow p = h p := if_neg hx

theorem forall_shortened {grow : UInt16} {P : StructPbuf ι → Prop} (hP : ∀ x b, h x = some b → P b)
    (hsame : ∀ b : StructPbuf ι, ∀ tot, P b → P { b with totLen := tot }) :
    ∀ x b, shortened h l grow x = some b → P b := by
  intro x b hb
  rw [shortened] at hb
  split_ifs at hb with hx
  · obtain ⟨c, hc, rfl⟩ := Option.map_eq_some_iff.mp hb
    exact hsame _ _ (hP x c hc)
  · exact hP x b hb

theorem cells_shortened {grow : UInt16} : (shortened h l grow).cells = h.cells := by
  have hfields (x : ι) : (shortened h l grow).cells.ref x = h.cells.ref x ∧
      (shortened h l grow).cells.next x = h.cells.next x := by
    change (shortened h l grow x).elim 0 _ = (h x).elim 0 _ ∧
      (shortened h l grow x).bind _ = (h x).bind _
    rw [shortened]
    split_ifs
    · cases h x <;> exact ⟨rfl, rfl⟩
    · exact ⟨rfl, rfl⟩
  exact congrArg₂ Cells.mk (funext fun x => (hfields x).1) (funext fun x => (hfields x).2)

theorem pbufReallocLoop_link {fuel : ℕ} {remLen grow : UInt16} (hp : h p = some b)
    (hnext : b.next = some q) (hmore : remLen > b.len) :
    pbufReallocLoop (fuel + 1) remLen grow p h =
      pbufReallocLoop fuel (remLen - b.len) grow q
        (h.store p { b with totLen := b.totLen + grow }) := by
  obtain ⟨next⟩ := b
  cases hnext
  rw [pbufReallocLoop, hp, Option.bind_eq_bind, Option.bind_some, if_pos hmore]
  rfl

theorem pbufReallocLoop_stop {fuel : ℕ} {remLen grow : UInt16} (hp : h p = some b)
    (hmore : ¬ remLen > b.len) :
    pbufReallocLoop (fuel + 1) remLen grow p h = some (h, p, remLen) := by
  rw [pbufReallocLoop, hp, Option.bind_eq_bind, Option.bind_some, if_neg hmore]

/-- The loop of `pbuf_realloc` stops at a buffer of the packet that has what is left of the length;
what it adds to the total lengths is what that buffer loses. -/
theorem pbufReallocLoop_spec {fuel : ℕ} {remLen grow : UInt16} (hl : h.Packet p l)
    (hused : ∀ x ∈ l, ∃ b, h x = some b)
    (ht : ∀ x ∈ l, ∀ b, h x = some b → b.totLen = b.len + h.totNext b.next)
    (hp : ∀ b, h p = some b → b.totLen + grow = remLen) (hlt : remLen.toNat < lens h l)
    (hfuel : l.length ≤ fuel) :
    ∃ front q back rem', l = front ++ q :: back ∧
      pbufReallocLoop fuel remLen grow p h = some (shortened h front grow, q, rem') ∧
      ∀ b, h q = some b → rem' ≤ b.len ∧ b.totLen + grow = rem' := by
  induction l generalizing h p fuel remLen with
  | nil => cases hl
  | cons y l ih =>
    obtain ⟨fuel, rfl⟩ : ∃ k, fuel = k + 1 := ⟨fuel - 1, by rw [List.length_cons] at hfuel; omega⟩
    have hy := (List.nodup_cons.mp hl.nodup).1
    obtain rfl := hl.head_eq
    obtain ⟨c, hc⟩ := hused y List.mem_cons_self
    have hnext := next_of_some hc
    rw [lens_cons hc] at hlt
    by_cases hmore : remLen > c.len
    · have hmore' : c.len.toNat < remLen.toNat := UInt16.lt_iff_toNat_lt.mp hmore
      have hsub : (remLen - c.len).toNat = remLen.toNat - c.len.toNat :=
        UInt16.toNat_sub_of_le _ _ (UInt16.le_iff_toNat_le.mpr hmore'.le)
      cases hl with
      | last =>
        rw [lens, List.map_nil, List.sum_nil] at hlt
        omega
      | @link _ q _ hlink hq =>
        rw [hlink] at hnext
        have htot := ht y List.mem_cons_self c hc
        obtain ⟨d, hd⟩ := hused q (List.mem_cons_of_mem _ hq.mem_self)
        rw [← hnext, totNext_of_some hd] at htot
        have hgrow := hp c hc
        have hself : h.store y { c with totLen := c.totLen + grow } y =
          some { c with totLen := c.totLen + grow } := store_self
        have hsame (x : ι) (hx : x ≠ y) :
            h.store y { c with totLen := c.totLen + grow } x = h x := store_of_ne hx
        have hcells : (h.store y { c with totLen := c.totLen + grow }).cells = h.cells :=
          cells_store_same hc rfl rfl
        rw [pbufReallocLoop_link hc hnext.symm hmore]
        generalize h.store y _ = h₁ at hself hsame hcells ⊢
        have hl₁ (x : ι) (hx : x ∈ l) : h₁ x = h x := hsame x fun hxy => hy (hxy ▸ hx)
        have hlens : lens h₁ l = lens h l := by
          rw [lens, lens, List.map_congr_left fun x hx => by rw [hl₁ x hx]]
        have hpacket : h₁.Packet q l := by
          rw [Packet, hcells]
          exact hq
        have hused₁ : ∀ x ∈ l, ∃ b, h₁ x = some b := fun x hx => by
          rw [hl₁ x hx]
          exact hused x (List.mem_cons_of_mem _ hx)
        have ht₁ : ∀ x ∈ l, ∀ b, h₁ x = some b → b.totLen = b.len + h₁.totNext b.next := by
          intro x hx b hb
          rw [hl₁ x hx] at hb
          rw [ht x (List.mem_cons_of_mem _ hx) b hb]
          cases hz : b.next with
          | none => rfl
          | some z => rw [totNext, totNext, hl₁ z (hq.mem_link hx ((next_of_some hb).trans hz))]
        have hq₁ : ∀ b, h₁ q = some b → b.totLen + grow = remLen - c.len := by
          intro b hb
          rw [hl₁ q hq.mem_self, hd, Option.some.injEq] at hb
          rw [← hgrow, htot, ← hb]
          abel
        obtain ⟨front, r, back, rem', hsplit, hloop, hrem⟩ := ih hpacket hused₁ ht₁ hq₁
          (by rw [hsub, hlens]; omega) (Nat.le_of_succ_le_succ hfuel)
        refine ⟨y :: front, r, back, rem', by rw [hsplit, List.cons_append], ?_, fun b hb => ?_⟩
        · rw [hloop]
          refine congrArg (fun h' => some (h', r, rem')) (funext fun x => ?_)
          by_cases hx : x = y
          · subst hx
            have hfront : x ∉ front := fun hx => hy (hsplit ▸ List.mem_append_left _ hx)
            rw [shortened_of_notMem hfront, hself, shortened_of_mem List.mem_cons_self hc]
          · rw [shortened, shortened, hsame x hx]
            simp only [List.mem_cons, hx, false_or]
        · refine hrem b ?_
          rw [hl₁ r (hsplit ▸ List.mem_append_right _ List.mem_cons_self)]
          exact hb
    · refine ⟨[], y, l, remLen, rfl, ?_, fun b hb => ?_⟩
      · have hsame : shortened h [] grow = h :=
          funext fun x => shortened_of_notMem List.not_mem_nil
        rw [pbufReallocLoop_stop hc hmore, hsame]
      · rw [hc, Option.some.injEq] at hb
        exact hb ▸ ⟨UInt16.not_lt.mp hmore, hp c hc⟩

/-- To free buffers and to write one that is not among them commute. -/
theorem pbufFreeLoop_store {fuel count : ℕ} {v : StructPbuf ι}
    (hout : ∀ p, float = some p → ∃ m, h.Packet p m ∧ q ∉ m) :
    pbufFreeLoop fuel float count (h.store q v) =
      (pbufFreeLoop fuel float count h).map fun r => (r.1.store q v, r.2) := by
  induction fuel generalizing h float count with
  | zero => cases float <;> rfl
  | succ fuel ih =>
    cases float with
    | none => rfl
    | some p =>
      obtain ⟨m, hm, hqm⟩ := hout p rfl
      have hpq : p ≠ q := fun hpq => hqm (hpq ▸ hm.mem_self)
      rw [pbufFreeLoop, pbufFreeLoop, store_of_ne hpq]
      cases hb : h p with
      | none => rfl
      | some b =>
        rw [Option.bind_eq_bind, Option.bind_some, Option.bind_some]
        dsimp only
        split_ifs
        · have hcomm : update (h.store q v) p none = store q v (update h p none) :=
            Function.update_comm hpq.symm _ _ _
          rw [hcomm]
          refine ih fun r hr => ?_
          cases hm with
          | last hnone =>
            rw [next_of_some hb, hr] at hnone
            cases hnone
          | @link _ s l hlink hs =>
            rw [next_of_some hb, hr, Option.some.injEq] at hlink
            subst hlink
            have hp := (List.nodup_cons.mp (Chain.link ((next_of_some hb).trans hr) hs).nodup).1
            refine ⟨l, ?_, fun hql => hqm (List.mem_cons_of_mem _ hql)⟩
            rw [Packet, cells_free]
            exact hs.congr fun x hx => Function.update_of_ne (by rintro rfl; exact hp hx) _ _
        · rw [Option.map_some]
          exact congrArg (fun h' => some (h', count)) (Function.update_comm hpq.symm _ _ _)

/-- What `pbuf_realloc` leaves of a packet before it frees the rest. -/
theorem totals_shortened {front back : List ι} {grow remLen : UInt16} {c : StructPbuf ι}
    (ht : h.Totals) (hl : h.Packet p (front ++ q :: back)) (hused : ∀ x ∈ front, ∃ b, h x = some b)
    (hwhole : h.Whole (front ++ q :: back)) (hq : h q = some b) (hgrow : b.totLen + grow = remLen)
    (hc : c.totLen = remLen ∧ c.len = remLen ∧ c.next = none) :
    ((shortened h front grow).store q c).Totals := by
  have hnodup := hl.nodup
  obtain ⟨-, hback, hdisj⟩ := List.nodup_append.mp hnodup
  have hqfront : q ∉ front := fun hmem => hdisj q hmem q List.mem_cons_self rfl
  -- the total lengths behind a buffer, in the new chain and in the old one
  have hfront (x : ι) (hx : x ∈ front) :
      ((shortened h front grow).store q c).totNext (some x) = h.totNext (some x) + grow := by
    obtain ⟨d, hd⟩ := hused x hx
    rw [totNext_of_some hd, totNext, store_of_ne (by rintro rfl; exact hqfront hx),
      shortened_of_mem hx hd]
    rfl
  have hlast : ((shortened h front grow).store q c).totNext (some q) =
      h.totNext (some q) + grow := by
    rw [totNext_of_some store_self, totNext_of_some hq, hc.1, hgrow]
  have hother (x : ι) (hx : x ∉ front) (hxq : x ≠ q) :
      ((shortened h front grow).store q c).totNext (some x) = h.totNext (some x) := by
    rw [totNext, totNext, store_of_ne hxq, shortened_of_notMem hx]
  intro x d hd
  by_cases hxq : x = q
  · subst hxq
    rw [store_self, Option.some.injEq] at hd
    rw [← hd, hc.1, hc.2.1, hc.2.2, totNext, add_zero]
  rw [store_of_ne hxq] at hd
  by_cases hx : x ∈ front
  · obtain ⟨e, he⟩ := hused x hx
    rw [shortened_of_mem hx he, Option.some.injEq] at hd
    obtain ⟨y, hy, hlink⟩ := hl.link_of_append hx
    rw [next_of_some he] at hlink
    have hnext : ((shortened h front grow).store q c).totNext (some y) =
        h.totNext (some y) + grow := by
      rcases List.mem_append.mp hy with hy | hy
      · exact hfront y hy
      · exact List.mem_singleton.mp hy ▸ hlast
    rw [← hd]
    dsimp only
    rw [ht x e he, hlink, hnext, add_assoc]
  · rw [shortened_of_notMem hx] at hd
    rw [ht x d hd]
    cases hlink : d.next with
    | none => rfl
    | some y =>
      have hxy := (next_of_some hd).trans hlink
      -- what points into the part that is kept is in it, and what is behind points further back
      have hkept (hy : y ∈ front ++ [q]) : x ∈ back := by
        have hmem : y ∈ front ++ q :: back := by
          rw [List.append_cons]
          exact List.mem_append_left back hy
        have hxl := hwhole x y hxy hmem
        rw [List.mem_append, List.mem_cons] at hxl
        exact (hxl.resolve_left hx).resolve_left hxq
      have hy : y ∉ front ++ [q] := by
        intro hy
        have hyback : y ∈ back := by
          cases hl.of_append with
          | last => exact absurd (hkept hy) List.not_mem_nil
          | link _ hs => exact hs.mem_link (hkept hy) hxy
        rcases List.mem_append.mp hy with hy | hy
        · exact hdisj y hy y (List.mem_cons_of_mem _ hyback) rfl
        · exact (List.nodup_cons.mp hback).1 (List.mem_singleton.mp hy ▸ hyback)
      rw [hother y (fun hmem => hy (List.mem_append_left _ hmem))
        (by rintro rfl; exact hy (List.mem_append_right _ List.mem_cons_self))]

theorem store_store {c d : StructPbuf ι} : (h.store q c).store q d = h.store q d :=
  Function.update_idem ..

/-- The rest of a packet is freed while the last buffer still points to it, and this comes to the
same as to cut the link first. -/
theorem pbufFree_before_cut [Fintype ι] {c d : StructPbuf ι}
    (hc : Counted (h.store q c).cells owned float) (hrefs : (h.store q c).Refs)
    (ht : (h.store q c).Totals) (hin : ∀ x b, h.store q c x = some b → Fits b)
    (hout : ∀ r, float = some r → ∃ m, (h.store q c).Packet r m ∧ q ∉ m) :
    ∃ (h' : PbufHeap ι) (n : ℕ), pbufFree float (h.store q d) = some (h'.store q d, n) ∧
      h'.Sound owned ∧ h'.store q c = h' := by
  obtain ⟨h', n, hfree, hs⟩ := sound_pbufFree hc hrefs ht hin
  have hcomm (v : StructPbuf ι) : pbufFree float (h.store q v) = some (h'.store q v, n) := by
    rw [← store_store (c := c), pbufFree, pbufFreeLoop_store hout]
    rw [pbufFree] at hfree
    rw [hfree, Option.map_some]
  refine ⟨h', n, hcomm d, hs, ?_⟩
  have hsame := (hcomm c).symm.trans hfree
  rw [Option.some.injEq, Prod.mk.injEq] at hsame
  exact hsame.1

theorem pbufRealloc_eq [Fintype ι] {h₁ h' : PbufHeap ι} {newLen remLen : UInt16} {n : ℕ}
    {c d : StructPbuf ι} (hb : h p = some b) (hlt : ¬ newLen ≥ b.totLen)
    (hloop : pbufReallocLoop (Fintype.card ι + 1) newLen (newLen - b.totLen) p h =
      some (h₁, q, remLen))
    (hc : h₁ q = some c) (hshrink : shrink remLen c = some d)
    (hfree : pbufFree d.next (h₁.store q { d with len := remLen, totLen := remLen }) =
      some (h'.store q { d with len := remLen, totLen := remLen }, n)) :
    pbufRealloc p newLen h =
      some (h'.store q { d with len := remLen, totLen := remLen, next := none }) := by
  rw [pbufRealloc, hb, Option.bind_eq_bind, Option.bind_some, if_neg hlt]
  simp only [hloop, Option.bind_eq_bind, Option.bind_some, hc, hshrink, hfree, store_self,
    store_store]

/-- The length of a packet that no buffer from outside points into is cut. -/
theorem Sound.realloc [Fintype ι] (hs : h.Sound owned) (hp : 0 < owned p) (hl : h.Packet p l)
    (hwhole : h.Whole l) (newLen : UInt16) :
    ∃ h', pbufRealloc p newLen h = some h' ∧ h'.Sound owned := by
  have hused := hs.used hp hl
  obtain ⟨b, hb⟩ := hused p hl.mem_self
  by_cases hle : newLen ≥ b.totLen
  · refine ⟨h, ?_, hs⟩
    rw [pbufRealloc, hb, Option.bind_eq_bind, Option.bind_some, if_pos hle]
  have hlt : newLen.toNat < lens h l := by
    have hnew := UInt16.lt_iff_toNat_lt.mp (UInt16.not_le.mp hle)
    rw [totLen_eq_lens hs.totals hl hused hb, UInt16.toNat_ofNat'] at hnew
    exact hnew.trans_le (Nat.mod_le _ _)
  have hgrow : ∀ c, h p = some c → c.totLen + (newLen - b.totLen) = newLen := by
    intro c hc
    rw [hb, Option.some.injEq] at hc
    rw [← hc, add_sub_cancel]
  obtain ⟨front, q, back, remLen, rfl, hloop, hrem⟩ := pbufReallocLoop_spec hl hused
    (fun x _ => hs.totals x) hgrow hlt (Nat.le_succ_of_le hl.length_le)
  have hqfront : q ∉ front := fun hmem =>
    (List.nodup_append.mp hl.nodup).2.2 q hmem q List.mem_cons_self rfl
  obtain ⟨c, hc⟩ := hused q (List.mem_append_right _ List.mem_cons_self)
  obtain ⟨hle', hlast⟩ := hrem c hc
  have hfits := hs.inside q c hc
  have hshort : shortened h front (newLen - b.totLen) q = some c :=
    (shortened_of_notMem hqfront).trans hc
  obtain ⟨size, hshrink, hfits'⟩ := shrink_eq hfits hle'
  have hnext := next_of_some hc
  have href := hs.refs q c hc
  -- the last buffer as it is in the end
  generalize hd : ({ c with size := size, len := remLen, totLen := remLen, next := none } :
    StructPbuf ι) = d at hfits'
  have hdnext : d.next = none := by rw [← hd]
  have hcells : ((shortened h front (newLen - b.totLen)).store q d).cells =
      h.cells.setNext q none := by
    rw [← cells_shortened (h := h) (l := front)]
    exact cells_setNext hshort (by rw [← hd]) hdnext
  have hcounted : Counted ((shortened h front (newLen - b.totLen)).store q d).cells owned
      c.next := by
    rw [hcells, ← hnext]
    exact hs.counted.detach q
  have hout : ∀ r, c.next = some r →
      ∃ m, ((shortened h front (newLen - b.totLen)).store q d).Packet r m ∧ q ∉ m := by
    intro r hr
    have hchain := hl.of_append
    have hback := (List.nodup_cons.mp hchain.nodup).1
    cases hchain with
    | last hnone =>
      rw [hnext, hr] at hnone
      cases hnone
    | @link _ s _ hlink hs =>
      rw [hnext, hr, Option.some.injEq] at hlink
      subst hlink
      refine ⟨back, ?_, hback⟩
      rw [Packet, hcells]
      exact hs.congr fun x hx => Function.update_of_ne (by rintro rfl; exact hback hx) _ _
  obtain ⟨h', n, hfree, hs', hsame⟩ := pbufFree_before_cut hcounted
    (Refs.store (forall_shortened hs.refs fun _ _ h => h) (by rw [← hd]; exact href))
    (totals_shortened hs.totals hl (fun x hx => hused x (List.mem_append_left _ hx)) hwhole hc
      hlast ⟨by rw [← hd], by rw [← hd], hdnext⟩)
    (inside_store (forall_shortened hs.inside fun _ _ h => h) hfits') hout
  refine ⟨h', ?_, hs'⟩
  rw [pbufRealloc_eq hb hle hloop hshort hshrink hfree, hd, hsame]

end PbufHeap

end FanGateway.Lwip
