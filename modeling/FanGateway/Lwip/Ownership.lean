import FanGateway.Lwip.Pbuf
import Mathlib.Tactic.Abel

/-!
# Who owns a packet buffer

The count in a buffer is the number of references the program owns to it and of the buffers that
point to it, in every run of a program that keeps the rules of the interface: it gives away only
what it owns, it joins only packets that have no buffer in common, and it changes the length of a
packet only while no buffer from outside points into it. Then no call touches a buffer that is
not there, a buffer is freed when its last reference is dropped, every total length is right,
and every payload stays inside its block.
-/

namespace FanGateway.Lwip

open Function (update)
open Lib.RefCount (Cells Chain Counted links)
open PbufHeap PbufState

variable {ι : Type*} {h h' : PbufHeap ι} {p q r t : ι} {b b' : StructPbuf ι} {l m : List ι}

namespace PbufHeap

/-! ## The counts and links of the buffers -/

/-- The buffers as counted cells. -/
def cells (h : PbufHeap ι) : Cells ι where
  ref p := (h p).elim 0 (·.ref)
  next p := (h p).bind (·.next)

/-- The chain of a buffer. -/
abbrev Packet (h : PbufHeap ι) (p : ι) (l : List ι) : Prop := Chain h.cells.next p l

theorem ref_of_some (hp : h p = some b) : h.cells.ref p = b.ref := by
  change (h p).elim 0 _ = _
  rw [hp]
  rfl

theorem next_of_some (hp : h p = some b) : h.cells.next p = b.next := by
  change (h p).bind _ = _
  rw [hp]
  rfl

/-- A count is what 16 bits hold, and is zero only in a buffer that is being freed. -/
def Refs (h : PbufHeap ι) : Prop := ∀ p b, h p = some b → 0 < b.ref ∧ b.ref < 2 ^ 16

theorem exists_of_ref_pos (hp : 0 < h.cells.ref p) : ∃ b, h p = some b := by
  cases hp' : h p with
  | none =>
    change 0 < (h p).elim 0 _ at hp
    rw [hp'] at hp
    cases hp
  | some b => exact ⟨b, rfl⟩

theorem exists_of_next (hp : h.cells.next p = some q) : ∃ b, h p = some b ∧ b.next = some q :=
  Option.bind_eq_some_iff.mp hp

theorem ref_eq_zero_iff (hrefs : h.Refs) : h.cells.ref p = 0 ↔ h p = none := by
  constructor
  · intro hzero
    by_contra hp
    obtain ⟨b, hb⟩ := Option.ne_none_iff_exists'.mp hp
    rw [ref_of_some hb] at hzero
    exact absurd hzero (hrefs p b hb).1.ne'
  · intro hp
    change (h p).elim 0 _ = 0
    rw [hp]
    rfl

/-- Some buffers are freed, and the counts of others are less. -/
def Freed (h h' : PbufHeap ι) : Prop :=
  ∀ p b', h' p = some b' → ∃ b, h p = some b ∧ 0 < b'.ref ∧ b'.ref ≤ b.ref ∧
    b' = { b with ref := b'.ref }

theorem Freed.refs (hf : Freed h h') (hrefs : h.Refs) : h'.Refs := by
  intro p b' hb'
  obtain ⟨b, hb, hpos, hle, -⟩ := hf p b' hb'
  exact ⟨hpos, hle.trans_lt (hrefs p b hb).2⟩

theorem Freed.refl (hrefs : h.Refs) : Freed h h :=
  fun p b hb => ⟨b, hb, (hrefs p b hb).1, le_rfl, rfl⟩

theorem Freed.trans {h'' : PbufHeap ι} (hf : Freed h h') (hf' : Freed h' h'') : Freed h h'' := by
  intro p b'' hb''
  obtain ⟨b', hb', hpos, hle, heq⟩ := hf' p b'' hb''
  obtain ⟨b, hb, -, hle', heq'⟩ := hf p b' hb'
  refine ⟨b, hb, hpos, hle.trans hle', ?_⟩
  rw [heq, heq']

/-! ## Lengths and payloads -/

/-- The total length behind a buffer. -/
def totNext (h : PbufHeap ι) : Option ι → UInt16
  | none => 0
  | some q => (h q).elim 0 (·.totLen)

theorem totNext_of_some (hq : h q = some b) : h.totNext (some q) = b.totLen := by
  rw [totNext, hq]
  rfl

/-- Every total length is the sum of the lengths from the buffer on. -/
def Totals (h : PbufHeap ι) : Prop := ∀ p b, h p = some b → b.totLen = b.len + h.totNext b.next

/-- A payload that lies in the block of its buffer lies behind the buffer and ends in the block. -/
def Fits (b : StructPbuf ι) : Prop :=
  b.type = .ram ∨ b.type = .pool → sizeofStructPbuf ≤ b.payload ∧
    b.payload + b.len.toNat ≤ b.size ∧ b.size < 2 ^ 16 ∧ b.size % 4 = 0

/-- What holds between the calls. -/
structure Sound (h : PbufHeap ι) [DecidableEq ι] [Fintype ι] (owned : ι → ℕ) : Prop where
  counted : Counted h.cells owned none
  refs : h.Refs
  totals : h.Totals
  inside : ∀ p b, h p = some b → Fits b

/-- Buffers are freed, and the others keep their lengths and links. -/
def Kept (h h' : PbufHeap ι) : Prop :=
  ∀ p b', h' p = some b' → ∃ b, h p = some b ∧ b'.totLen = b.totLen ∧ b'.len = b.len ∧
    b'.next = b.next

theorem Freed.kept (hf : Freed h h') : Kept h h' := by
  intro p b' hb'
  obtain ⟨b, hb, -, -, heq⟩ := hf p b' hb'
  rw [heq]
  exact ⟨b, hb, rfl, rfl, rfl⟩

theorem Freed.inside (hf : Freed h h') (hin : ∀ p b, h p = some b → Fits b) :
    ∀ p b, h' p = some b → Fits b := by
  intro p b' hb'
  obtain ⟨b, hb, -, -, heq⟩ := hf p b' hb'
  rw [heq]
  exact hin p b hb

/-- Total lengths stay right if no buffer points to one that was freed. -/
theorem Totals.kept [DecidableEq ι] [Fintype ι] {owned : ι → ℕ} {float : Option ι}
    (ht : h.Totals) (hk : Kept h h') (hc : Counted h'.cells owned float) : h'.Totals := by
  intro p b' hb'
  obtain ⟨b, hb, htot, hlen, hnext⟩ := hk p b' hb'
  rw [htot, hlen, hnext, ht p b hb]
  congr 1
  cases hq : b.next with
  | none => rfl
  | some q =>
    have hlink : h'.cells.next p = some q := by rw [next_of_some hb', hnext, hq]
    obtain ⟨c', hc'⟩ := exists_of_ref_pos (hc.ref_pos_of_link hlink)
    obtain ⟨c, hcq, htot', -, -⟩ := hk q c' hc'
    rw [totNext_of_some hc', totNext_of_some hcq, htot']

variable [DecidableEq ι]

theorem cells_update {v : Option (StructPbuf ι)} :
    cells (update h p v) =
      ⟨update h.cells.ref p (v.elim 0 (·.ref)), update h.cells.next p (v.bind (·.next))⟩ := by
  simp only [cells, Cells.mk.injEq]
  constructor <;>
    · funext q
      by_cases hqp : q = p
      · subst hqp
        simp
      · simp [hqp]

/-- Other fields than the count and the link do not matter. -/
theorem cells_store_same (hp : h p = some b) (href : b'.ref = b.ref) (hnext : b'.next = b.next) :
    (h.store p b').cells = h.cells := by
  rw [store, cells_update]
  have href' : update h.cells.ref p b'.ref = h.cells.ref := by
    rw [href, ← ref_of_some hp, Function.update_eq_self]
  have hnext' : update h.cells.next p b'.next = h.cells.next := by
    rw [hnext, ← next_of_some hp, Function.update_eq_self]
  exact congrArg₂ Cells.mk href' hnext'

theorem store_self : h.store p b p = some b := Function.update_self ..

theorem store_of_ne (hq : q ≠ p) : h.store p b q = h q := Function.update_of_ne hq _ _

theorem Refs.store (hrefs : h.Refs) (hb : 0 < b.ref ∧ b.ref < 2 ^ 16) : (h.store p b).Refs := by
  intro q c hc
  by_cases hqp : q = p
  · subst hqp
    rw [store_self, Option.some.injEq] at hc
    exact hc ▸ hb
  · rw [store_of_ne hqp] at hc
    exact hrefs q c hc

theorem cells_own (hp : h p = some b) :
    (h.store p { b with ref := b.ref + 1 }).cells = h.cells.own p := by
  rw [store, cells_update]
  have hnext : update h.cells.next p b.next = h.cells.next := by
    rw [← next_of_some hp, Function.update_eq_self]
  exact congrArg₂ Cells.mk (by rw [ref_of_some hp]; rfl) hnext

theorem kept_store (hp : h p = some b) (htot : b'.totLen = b.totLen) (hlen : b'.len = b.len)
    (hnext : b'.next = b.next) : Kept h (h.store p b') := by
  intro q c hc
  by_cases hqp : q = p
  · subst hqp
    rw [store_self, Option.some.injEq] at hc
    subst hc
    exact ⟨b, hp, htot, hlen, hnext⟩
  · rw [store_of_ne hqp] at hc
    exact ⟨c, hc, rfl, rfl, rfl⟩

theorem inside_store (hin : ∀ p b, h p = some b → Fits b) (hb : Fits b) :
    ∀ q c, h.store p b q = some c → Fits c := by
  intro q c hc
  by_cases hqp : q = p
  · subst hqp
    rw [store_self, Option.some.injEq] at hc
    exact hc ▸ hb
  · rw [store_of_ne hqp] at hc
    exact hin q c hc

/-! ## `pbuf_free` -/

theorem cells_free : cells (update h p none) = h.cells.release p := cells_update

theorem cells_drop (hp : h p = some b) :
    (h.store p { b with ref := b.ref - 1 }).cells = h.cells.drop p := by
  rw [store, cells_update]
  have hnext : update h.cells.next p b.next = h.cells.next := by
    rw [← next_of_some hp, Function.update_eq_self]
  exact congrArg₂ Cells.mk (by rw [ref_of_some hp]; rfl) hnext

variable {owned : ι → ℕ} {float : Option ι}

/-- The loop of `pbuf_free` drops the reference it is given. -/
theorem pbufFreeLoop_spec [Fintype ι] {fuel : ℕ} (count : ℕ)
    (hc : Counted h.cells owned float) (hrefs : h.Refs)
    (hfuel : Finset.card {q | 0 < h.cells.ref q} < fuel) :
    ∃ h' n, pbufFreeLoop fuel float count h = some (h', n) ∧ Counted h'.cells owned none ∧
      Freed h h' := by
  induction fuel generalizing h float count with
  | zero => exact absurd hfuel (Nat.not_lt_zero _)
  | succ fuel ih =>
    cases float with
    | none => exact ⟨h, count, rfl, hc, .refl hrefs⟩
    | some p =>
      have hpos := hc.ref_pos_of_floating
      obtain ⟨b, hb⟩ := exists_of_ref_pos hpos
      obtain ⟨hb₀, hb₁⟩ := hrefs p b hb
      have href : (b.ref + 2 ^ 16 - 1) % 2 ^ 16 = b.ref - 1 := by omega
      rw [pbufFreeLoop, hb, Option.bind_eq_bind, Option.bind_some, href]
      dsimp only
      by_cases hlast : b.ref - 1 = 0
      · rw [if_pos hlast, ← next_of_some hb]
        have hone : h.cells.ref p = 1 := by
          rw [ref_of_some hb]
          omega
        have hcard := Lib.RefCount.card_release_lt hpos
        have hfreed : Freed h (update h p none) := by
          intro q c hq
          by_cases hqp : q = p
          · subst hqp
            rw [Function.update_self] at hq
            cases hq
          · rw [Function.update_of_ne hqp] at hq
            exact Freed.refl hrefs q c hq
        rw [← cells_free] at hcard
        have hcounted : Counted (cells (update h p none)) owned (h.cells.next p) := by
          rw [cells_free]
          exact hc.release hone
        obtain ⟨h', n, hloop, hc', hf⟩ := ih ((count + 1) % 2 ^ 8) hcounted (hfreed.refs hrefs)
          (by omega)
        exact ⟨h', n, hloop, hc', hfreed.trans hf⟩
      · rw [if_neg hlast]
        refine ⟨_, _, rfl, ?_, ?_⟩
        · rw [cells_drop hb]
          refine hc.drop ?_
          rw [ref_of_some hb]
          omega
        · intro q c hq
          by_cases hqp : q = p
          · subst hqp
            rw [store_self, Option.some.injEq] at hq
            subst hq
            exact ⟨b, hb, Nat.pos_of_ne_zero hlast, Nat.sub_le _ _, rfl⟩
          · rw [store_of_ne hqp] at hq
            exact Freed.refl hrefs q c hq

/-- `pbuf_free` drops the reference it is given. -/
theorem pbufFree_spec [Fintype ι] (hc : Counted h.cells owned float) (hrefs : h.Refs) :
    ∃ h' n, pbufFree float h = some (h', n) ∧ Counted h'.cells owned none ∧ Freed h h' :=
  pbufFreeLoop_spec 0 hc hrefs (Nat.lt_succ_of_le (Finset.card_le_univ _))

theorem sound_pbufFree [Fintype ι] (hc : Counted h.cells owned float) (hrefs : h.Refs)
    (ht : h.Totals) (hin : ∀ p b, h p = some b → Fits b) :
    ∃ h' n, pbufFree float h = some (h', n) ∧ h'.Sound owned := by
  obtain ⟨h', n, hfree, hc', hf⟩ := pbufFree_spec hc hrefs
  exact ⟨h', n, hfree, hc', hf.refs hrefs, ht.kept hf.kept hc', hf.inside hin⟩

/-- The program drops a reference it owns. -/
theorem Sound.free [Fintype ι] (hs : h.Sound owned) (hp : 0 < owned p) :
    ∃ h' n, pbufFree (some p) h = some (h', n) ∧ h'.Sound (update owned p (owned p - 1)) :=
  sound_pbufFree (hs.counted.disown hp) hs.refs hs.totals hs.inside

/-! ## `pbuf_ref` -/

/-- A reference more, to a buffer in use whose count has room. -/
theorem Sound.ref [Fintype ι] (hs : h.Sound owned) (hp : h p = some b)
    (hroom : b.ref < 2 ^ 16 - 1) :
    ∃ h', pbufRef (some p) h = some h' ∧ h'.Sound (update owned p (owned p + 1)) := by
  have href : (b.ref + 1) % 2 ^ 16 = b.ref + 1 := Nat.mod_eq_of_lt (by omega)
  refine ⟨h.store p { b with ref := b.ref + 1 }, ?_, ?_⟩
  · rw [pbufRef, hp, Option.bind_eq_bind, Option.bind_some, href]
  · have hc : Counted (h.store p { b with ref := b.ref + 1 }).cells
        (update owned p (owned p + 1)) none := by
      rw [cells_own hp]
      exact hs.counted.own
    have hkept : Kept h (h.store p { b with ref := b.ref + 1 }) := kept_store hp rfl rfl rfl
    refine ⟨hc, hs.refs.store ⟨Nat.succ_pos _, by dsimp only; omega⟩, hs.totals.kept hkept hc, ?_⟩
    exact inside_store hs.inside (hs.inside p b hp)

/-! ## `pbuf_cat` -/

theorem pbufCatLoop_link {fuel : ℕ} {c : StructPbuf ι} (hp : h p = some c) (hnext : c.next = some q)
    (ht : h t = some b) : pbufCatLoop (fuel + 1) p t h =
      pbufCatLoop fuel q t (h.store p { c with totLen := c.totLen + b.totLen }) := by
  obtain ⟨next⟩ := c
  cases hnext
  rw [pbufCatLoop, hp, Option.bind_eq_bind, Option.bind_some, ht, Option.bind_some]

theorem pbufCatLoop_last {fuel : ℕ} {c : StructPbuf ι} (hp : h p = some c) (hnext : c.next = none)
    (ht : h t = some b) : pbufCatLoop (fuel + 1) p t h =
      some (h.store p { c with totLen := c.totLen + b.totLen, next := some t }) := by
  obtain ⟨next⟩ := c
  cases hnext
  rw [pbufCatLoop, hp, Option.bind_eq_bind, Option.bind_some, ht, Option.bind_some]

/-- A packet with another behind it. -/
def joined (h : PbufHeap ι) (l : List ι) (t : ι) (tot : UInt16) : PbufHeap ι := fun x =>
  if x ∈ l then (h x).map fun b => { b with totLen := b.totLen + tot, next := b.next.or (some t) }
  else h x

theorem joined_of_mem {tot : UInt16} (hx : p ∈ l) (hp : h p = some b) :
    joined h l t tot p = some { b with totLen := b.totLen + tot, next := b.next.or (some t) } := by
  rw [joined, if_pos hx, hp, Option.map_some]

theorem joined_of_notMem {tot : UInt16} (hx : p ∉ l) : joined h l t tot p = h p := if_neg hx

/-- The loop of `pbuf_cat` goes along the packet and joins it at the end. -/
theorem pbufCatLoop_eq {fuel : ℕ} (hl : h.Packet p l) (hused : ∀ x ∈ l, ∃ b, h x = some b)
    (ht : h t = some b) (htl : t ∉ l) (hfuel : l.length ≤ fuel) :
    pbufCatLoop fuel p t h = some (joined h l t b.totLen) := by
  induction l generalizing h p fuel with
  | nil => cases hl
  | cons y l ih =>
    obtain ⟨fuel, rfl⟩ : ∃ k, fuel = k + 1 := ⟨fuel - 1, by rw [List.length_cons] at hfuel; omega⟩
    have hy := (List.nodup_cons.mp hl.nodup).1
    obtain rfl := hl.head_eq
    obtain ⟨c, hc⟩ := hused y List.mem_cons_self
    have hnext := next_of_some hc
    cases hl with
    | last hnone =>
      rw [hnone] at hnext
      rw [pbufCatLoop_last hc hnext.symm ht]
      refine congrArg some (funext fun x => ?_)
      by_cases hx : x = y
      · subst hx
        rw [store_self, joined_of_mem List.mem_cons_self hc, ← hnext, Option.none_or]
      · rw [store_of_ne hx, joined_of_notMem (by simpa using hx)]
    | @link _ q _ hlink hq =>
      rw [hlink] at hnext
      have hcells : (h.store y { c with totLen := c.totLen + b.totLen }).cells = h.cells :=
        cells_store_same hc rfl rfl
      have hne (x : ι) (hx : x ∈ l) : x ≠ y := fun hxy => hy (hxy ▸ hx)
      have hty : t ≠ y := by
        rintro rfl
        exact htl List.mem_cons_self
      have hused' : ∀ x ∈ l,
          ∃ d, h.store y { c with totLen := c.totLen + b.totLen } x = some d := by
        intro x hx
        rw [store_of_ne (hne x hx)]
        exact hused x (List.mem_cons_of_mem _ hx)
      rw [pbufCatLoop_link hc hnext.symm ht, ih (by rw [Packet, hcells]; exact hq) hused'
        ((store_of_ne hty).trans ht) (fun htl' => htl (List.mem_cons_of_mem _ htl'))
        (by simpa using hfuel)]
      refine congrArg some (funext fun x => ?_)
      by_cases hx : x = y
      · subst hx
        rw [joined_of_notMem hy, store_self, joined_of_mem List.mem_cons_self hc, ← hnext,
          Option.some_or]
      · rw [joined, joined, store_of_ne hx]
        simp only [List.mem_cons, hx, false_or]

/-- The counts are as before, and the last buffer has got the link. -/
theorem cells_joined {tot : UInt16} (hused : ∀ x ∈ l, ∃ b, h x = some b) (hq : q ∈ l)
    (hnone : h.cells.next q = none) (hlast : ∀ x ∈ l, h.cells.next x = none → x = q) :
    (joined h l t tot).cells = h.cells.setNext q (some t) := by
  have hfields (x : ι) : (joined h l t tot).cells.ref x = h.cells.ref x ∧
      (joined h l t tot).cells.next x = update h.cells.next q (some t) x := by
    by_cases hx : x ∈ l
    · obtain ⟨b, hb⟩ := hused x hx
      rw [ref_of_some (joined_of_mem hx hb), next_of_some (joined_of_mem hx hb), ref_of_some hb]
      refine ⟨rfl, ?_⟩
      rw [Function.update_apply]
      split_ifs with hxq
      · subst hxq
        rw [next_of_some hb] at hnone
        rw [hnone, Option.none_or]
      · rw [next_of_some hb]
        cases hnext : b.next with
        | none => exact absurd (hlast x hx ((next_of_some hb).trans hnext)) hxq
        | some r => rw [Option.some_or]
    · have hxq : x ≠ q := by rintro rfl; exact hx hq
      rw [Function.update_of_ne hxq]
      constructor
      · change (joined h l t tot x).elim 0 _ = (h x).elim 0 _
        rw [joined_of_notMem hx]
      · change (joined h l t tot x).bind _ = (h x).bind _
        rw [joined_of_notMem hx]
  exact congrArg₂ Cells.mk (funext fun x => (hfields x).1) (funext fun x => (hfields x).2)

/-- No buffer from outside points into a packet. -/
def Whole (h : PbufHeap ι) (l : List ι) : Prop :=
  ∀ x y, h.cells.next x = some y → y ∈ l → x ∈ l

theorem totals_joined (ht : h.Totals) (hl : h.Packet p l) (hused : ∀ x ∈ l, ∃ b, h x = some b)
    (htb : h t = some b) (htl : t ∉ l) (hwhole : h.Whole l) : (joined h l t b.totLen).Totals := by
  intro x c' hc'
  by_cases hx : x ∈ l
  · obtain ⟨c, hc⟩ := hused x hx
    rw [joined_of_mem hx hc, Option.some.injEq] at hc'
    subst hc'
    dsimp only
    rw [ht x c hc, add_assoc]
    congr 1
    cases hnext : c.next with
    | none =>
      rw [Option.none_or, totNext_of_some ((joined_of_notMem htl).trans htb), totNext, zero_add]
    | some q =>
      have hq := hl.mem_link hx ((next_of_some hc).trans hnext)
      obtain ⟨d, hd⟩ := hused q hq
      rw [Option.some_or, totNext_of_some hd, totNext_of_some (joined_of_mem hq hd)]
  · rw [joined_of_notMem hx] at hc'
    rw [ht x c' hc']
    congr 1
    cases hnext : c'.next with
    | none => rfl
    | some q =>
      have hq : q ∉ l := fun hq => hx (hwhole x q ((next_of_some hc').trans hnext) hq)
      rw [totNext, totNext, joined_of_notMem hq]

/-- What is said of every buffer and does not depend on its total length and its link. -/
theorem forall_joined {tot : UInt16} {P : StructPbuf ι → Prop} (hP : ∀ x b, h x = some b → P b)
    (hsame : ∀ b : StructPbuf ι, ∀ tot next, P b → P { b with totLen := tot, next := next }) :
    ∀ x b, joined h l t tot x = some b → P b := by
  intro x b hb
  rw [joined] at hb
  split_ifs at hb with hx
  · obtain ⟨c, hc, rfl⟩ := Option.map_eq_some_iff.mp hb
    exact hsame _ _ _ (hP x c hc)
  · exact hP x b hb

theorem Sound.used [Fintype ι] (hs : h.Sound owned) (hp : 0 < owned p) (hl : h.Packet p l) :
    ∀ x ∈ l, ∃ b, h x = some b := fun x hx =>
  exists_of_ref_pos (hs.counted.ref_pos_of_chain hl (hs.counted.ref_pos_of_owned hp) x hx)

/-- Two packets that have no buffer in common are joined, and the reference to the second becomes
the link from the first. -/
theorem Sound.cat [Fintype ι] (hs : h.Sound owned) (hp : 0 < owned p) (ht : 0 < owned t)
    (hl : h.Packet p l) (hm : h.Packet t m) (hdisj : l.Disjoint m) (hwhole : h.Whole l) :
    ∃ h', pbufCat (some p) (some t) h = some h' ∧ h'.Sound (update owned t (owned t - 1)) ∧
      ∀ b, h t = some b → h' t = some b := by
  have hused := hs.used hp hl
  obtain ⟨b, hb⟩ := hs.used ht hm t hm.mem_self
  have htl : t ∉ l := fun htl => hdisj htl hm.mem_self
  obtain ⟨q, hq, hnone, hlast⟩ := hl.exists_last
  refine ⟨_, pbufCatLoop_eq hl hused hb htl (Nat.le_succ_of_le hl.length_le), ?_, fun c hc => ?_⟩
  · refine ⟨?_, forall_joined hs.refs fun _ _ _ h => h, ?_,
      forall_joined hs.inside fun _ _ _ h => h⟩
    · rw [cells_joined hused hq hnone hlast]
      refine (hs.counted.disown ht).attach hnone ?_ hm fun hqm => hdisj hq hqm
      exact hs.counted.ref_pos_of_chain hl (hs.counted.ref_pos_of_owned hp) q hq
    · exact totals_joined hs.totals hl hused hb htl hwhole
  · rw [joined_of_notMem htl]
    exact hc

/-- The same, and the program keeps its reference. -/
theorem Sound.chain [Fintype ι] (hs : h.Sound owned) (hp : 0 < owned p) (ht : 0 < owned t)
    (hl : h.Packet p l) (hm : h.Packet t m) (hdisj : l.Disjoint m) (hwhole : h.Whole l)
    (hroom : h.cells.ref t < 2 ^ 16 - 1) :
    ∃ h', pbufChain (some p) (some t) h = some h' ∧ h'.Sound owned := by
  obtain ⟨b, hb⟩ := hs.used ht hm t hm.mem_self
  obtain ⟨h₁, hcat, hs₁, hsame⟩ := hs.cat hp ht hl hm hdisj hwhole
  rw [ref_of_some hb] at hroom
  obtain ⟨h', href, hs'⟩ := hs₁.ref (hsame b hb) hroom
  refine ⟨h', ?_, ?_⟩
  · rw [pbufChain, hcat, Option.bind_some, href]
  · rwa [Function.update_self, Nat.sub_add_cancel ht, Function.update_idem,
      Function.update_eq_self] at hs'

/-! ## `pbuf_dechain` and `pbuf_header` -/

/-- A buffer to which no other points gets other lengths. -/
theorem totals_store (ht : h.Totals) (halone : ∀ x, h.cells.next x ≠ some p)
    (hself : b.next ≠ some p) (hb : b.totLen = b.len + h.totNext b.next) :
    (h.store p b).Totals := by
  have hsame (v : Option ι) (hv : v ≠ some p) : (h.store p b).totNext v = h.totNext v := by
    cases v with
    | none => rfl
    | some q => rw [totNext, totNext, store_of_ne (by rintro rfl; exact hv rfl)]
  intro x c hc
  by_cases hx : x = p
  · subst hx
    rw [store_self, Option.some.injEq] at hc
    subst hc
    rw [hsame _ hself, hb]
  · rw [store_of_ne hx] at hc
    rw [hsame c.next fun hnext => halone x ((next_of_some hc).trans hnext), ht x c hc]

theorem cells_setNext (hp : h p = some b) {v : Option ι} (href : b'.ref = b.ref)
    (hnext : b'.next = v) : (h.store p b').cells = h.cells.setNext p v := by
  rw [store, cells_update]
  have href' : update h.cells.ref p b'.ref = h.cells.ref := by
    rw [href, ← ref_of_some hp, Function.update_eq_self]
  exact congrArg₂ Cells.mk href' (by rw [← hnext]; rfl)

theorem store_same (hp : h p = some b) : h.store p b = h := by
  rw [store, ← hp, Function.update_eq_self]

/-- A buffer is taken from the front of a packet. -/
theorem Sound.dechain [Fintype ι] (hs : h.Sound owned) (hp : 0 < owned p)
    (halone : ∀ x, h.cells.next x ≠ some p) :
    ∃ h' v, pbufDechain p h = some (h', v) ∧ h'.Sound owned := by
  obtain ⟨b, hb⟩ := exists_of_ref_pos (hs.counted.ref_pos_of_owned hp)
  have hlink := next_of_some hb
  have htot := hs.totals p b hb
  rw [pbufDechain, hb, Option.bind_eq_bind, Option.bind_some]
  cases hnext : b.next with
  | none => exact ⟨h, none, rfl, hs⟩
  | some q =>
    rw [hnext] at hlink htot
    obtain ⟨c, hc⟩ := exists_of_ref_pos (hs.counted.ref_pos_of_link hlink)
    -- the total length that is written is there already
    have hrest : b.totLen - b.len = c.totLen := by
      rw [htot, totNext_of_some hc, add_sub_cancel_left]
    have hsame : h.store q { c with totLen := b.totLen - b.len } = h := by
      rw [hrest]
      exact store_same hc
    have hcells : (h.store p { b with next := none, totLen := b.len }).cells =
        h.cells.setNext p none := cells_setNext hb rfl rfl
    have hcounted : Counted (h.store p { b with next := none, totLen := b.len }).cells owned
        (some q) := by
      rw [hcells, ← hlink]
      exact hs.counted.detach p
    have htotals : (h.store p { b with next := none, totLen := b.len }).Totals :=
      totals_store hs.totals halone (fun hnone => by cases hnone) (add_zero b.len).symm
    obtain ⟨h', n, hfree, hs'⟩ := sound_pbufFree hcounted (hs.refs.store (hs.refs p b hb)) htotals
      (inside_store hs.inside (hs.inside p b hb))
    dsimp only
    rw [hc, Option.bind_some, hsame, hfree]
    exact ⟨h', _, rfl, hs'⟩

theorem toNat_add_ofInt {len : UInt16} {d : ℤ} (h₀ : 0 ≤ len.toNat + d)
    (h₁ : len.toNat + d < 2 ^ 16) : ((len + UInt16.ofInt d).toNat : ℤ) = len.toNat + d := by
  rw [UInt16.toNat_add, UInt16.ofInt, UInt16.toNat_ofNat']
  omega

/-- A header is hidden or revealed. -/
theorem Sound.header [Fintype ι] (hs : h.Sound owned) (hp : 0 < owned p)
    (halone : ∀ x, h.cells.next x ≠ some p) (d : ℤ) :
    ∃ h' e, pbufHeader (some p) d h = some (h', e) ∧ h'.Sound owned := by
  obtain ⟨b, hb⟩ := exists_of_ref_pos (hs.counted.ref_pos_of_owned hp)
  have hself : b.next ≠ some p := fun hnext => halone p ((next_of_some hb).trans hnext)
  have hfits := hs.inside p b hb
  have hmoved {payload : ℕ} (hfits : Fits { b with
        payload := payload
        len := b.len + UInt16.ofInt d
        totLen := b.totLen + UInt16.ofInt d }) :
      (h.store p { b with
        payload := payload
        len := b.len + UInt16.ofInt d
        totLen := b.totLen + UInt16.ofInt d }).Sound owned := by
    have hcells : (h.store p { b with
        payload := payload
        len := b.len + UInt16.ofInt d
        totLen := b.totLen + UInt16.ofInt d }).cells = h.cells := cells_store_same hb rfl rfl
    refine ⟨?_, hs.refs.store (hs.refs p b hb), totals_store hs.totals halone hself ?_,
      inside_store hs.inside hfits⟩
    · rw [hcells]
      exact hs.counted
    · dsimp only
      rw [hs.totals p b hb]
      abel
  rw [pbufHeader]
  dsimp only
  split_ifs with hzero
  · exact ⟨h, 0, rfl, hs⟩
  rw [hb, Option.bind_eq_bind, Option.bind_some]
  split_ifs with hhide htype hroom hext
  · exact ⟨h, 1, rfl, hs⟩
  · exact ⟨h, 1, rfl, hs⟩
  · refine ⟨_, 0, rfl, hmoved fun _ => ?_⟩
    obtain ⟨hfront, hend, hsize, halign⟩ := hfits htype
    have hlen : ((b.len + UInt16.ofInt d).toNat : ℤ) = b.len.toNat + d := toNat_add_ofInt
      (by omega) (by omega)
    refine ⟨?_, ?_, hsize, halign⟩ <;> dsimp only <;> omega
  · refine ⟨_, 0, rfl, hmoved fun htype' => absurd htype' htype⟩
  · exact ⟨h, 1, rfl, hs⟩

end PbufHeap

end FanGateway.Lwip
