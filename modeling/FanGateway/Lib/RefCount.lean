import Mathlib.Data.Fintype.Card
import Mathlib.Data.Finset.Max
import Mathlib.Logic.Function.Basic
import Mathlib.Tactic.SplitIfs

/-!
# Counted references

Cells hold a count and a link to at most one other cell. A program owns references to cells; the
count of a cell is the number of references the program owns and of the links to the cell, and a
cell whose count is zero is free. Dropping a reference takes one off the count. If nothing is
left, the cell is freed and the reference it held, its link, is dropped in turn.

If no cell reaches itself along the links, every cell in use is reached from one the program owns
a reference to, so a program that has dropped all it owned has freed all cells.
-/

namespace Lib.RefCount

open Function (update)

variable {ι : Type*} {next : ι → Option ι} {p q r : ι} {l m : List ι}

/-! ## Chains -/

/-- The cells from one to the end of its chain. -/
inductive Chain (next : ι → Option ι) : ι → List ι → Prop
  | last {p : ι} (h : next p = none) : Chain next p [p]
  | link {p q : ι} {l : List ι} (h : next p = some q) (hq : Chain next q l) : Chain next p (p :: l)

theorem Chain.unique (hl : Chain next p l) (hm : Chain next p m) : l = m := by
  induction hl generalizing m with
  | last h =>
    cases hm with
    | last _ => rfl
    | link h' _ => rw [h] at h'; cases h'
  | link h _ ih =>
    cases hm with
    | last h' => rw [h] at h'; cases h'
    | link h' hq' =>
      rw [h, Option.some.injEq] at h'
      rw [ih (h' ▸ hq')]

theorem Chain.mem_self (h : Chain next p l) : p ∈ l := by
  cases h <;> exact List.mem_cons_self

theorem Chain.head_eq (h : Chain next p (q :: l)) : q = p := by
  cases h <;> rfl

/-- The chain of a cell in a chain is the end of that chain. -/
theorem Chain.suffix (h : Chain next p l) (hq : q ∈ l) : ∃ m, Chain next q m ∧ m <:+ l := by
  induction h with
  | last h =>
    rw [List.mem_singleton.mp hq]
    exact ⟨_, .last h, List.suffix_refl _⟩
  | @link p r l h hr ih =>
    rcases List.mem_cons.mp hq with rfl | hq
    · exact ⟨_, .link h hr, List.suffix_refl _⟩
    · obtain ⟨m, hm, hsuffix⟩ := ih hq
      exact ⟨m, hm, hsuffix.trans (List.suffix_cons p l)⟩

/-- No cell is behind itself. -/
theorem Chain.nodup (h : Chain next p l) : l.Nodup := by
  induction h with
  | last => exact List.nodup_singleton _
  | @link p q l h hq ih =>
    refine List.nodup_cons.mpr ⟨fun hmem => ?_, ih⟩
    obtain ⟨m, hm, hsuffix⟩ := hq.suffix hmem
    have hlen := hsuffix.length_le
    rw [hm.unique (.link h hq), List.length_cons] at hlen
    omega

theorem Chain.mem_link (h : Chain next p l) (hq : q ∈ l) (hr : next q = some r) : r ∈ l := by
  obtain ⟨m, hm, hsuffix⟩ := h.suffix hq
  cases hm with
  | last h' => rw [h'] at hr; cases hr
  | link h' hq' =>
    rw [h', Option.some.injEq] at hr
    exact hsuffix.subset (List.mem_cons_of_mem _ (hr ▸ hq'.mem_self))

/-- Before a cell of a chain stand the cells that lead to it. -/
theorem Chain.link_of_append {front : List ι} (h : Chain next p (front ++ q :: l))
    (hr : r ∈ front) : ∃ s ∈ front ++ [q], next r = some s := by
  induction front generalizing p with
  | nil => cases hr
  | cons x front ih =>
    rw [List.cons_append] at h
    generalize hrest : front ++ q :: l = rest at h
    cases h with
    | last => exact absurd hrest (List.append_ne_nil_of_right_ne_nil _ (List.cons_ne_nil _ _))
    | @link _ s _ hlink hs =>
      subst hrest
      rcases List.mem_cons.mp hr with rfl | hr
      · refine ⟨s, List.mem_cons_of_mem _ ?_, hlink⟩
        cases front with
        | nil => exact hs.head_eq ▸ List.mem_cons_self
        | cons y front => exact hs.head_eq ▸ List.mem_cons_self
      · obtain ⟨t, ht, htr⟩ := ih hs hr
        exact ⟨t, List.mem_cons_of_mem _ ht, htr⟩

theorem Chain.of_append {front : List ι} (h : Chain next p (front ++ q :: l)) :
    Chain next q (q :: l) := by
  induction front generalizing p with
  | nil => exact h.head_eq ▸ h
  | cons x front ih =>
    rw [List.cons_append] at h
    generalize hrest : front ++ q :: l = rest at h
    cases h with
    | last => exact absurd hrest (List.append_ne_nil_of_right_ne_nil _ (List.cons_ne_nil _ _))
    | link _ hs => exact ih (hrest ▸ hs)

/-- One cell of a chain has no link, the last. -/
theorem Chain.exists_last (h : Chain next p l) :
    ∃ q ∈ l, next q = none ∧ ∀ x ∈ l, next x = none → x = q := by
  induction h with
  | last h => exact ⟨_, List.mem_cons_self, h, fun x hx _ => List.mem_singleton.mp hx⟩
  | link h _ ih =>
    obtain ⟨q, hq, hnone, hlast⟩ := ih
    refine ⟨q, List.mem_cons_of_mem _ hq, hnone, fun x hx hx_none => ?_⟩
    rcases List.mem_cons.mp hx with rfl | hx
    · rw [h] at hx_none
      cases hx_none
    · exact hlast x hx hx_none

theorem Chain.length_le [Fintype ι] (h : Chain next p l) : l.length ≤ Fintype.card ι :=
  h.nodup.length_le_card

/-- A chain depends on the links of its cells. -/
theorem Chain.congr {next' : ι → Option ι} (h : Chain next p l)
    (hsame : ∀ x ∈ l, next' x = next x) :
    Chain next' p l := by
  induction h with
  | last h => exact .last ((hsame _ List.mem_cons_self).trans h)
  | link h _ ih =>
    exact .link ((hsame _ List.mem_cons_self).trans h)
      (ih fun x hx => hsame x (List.mem_cons_of_mem _ hx))

section Update

variable [DecidableEq ι]

/-- Without one of the links, the chains are shorter. -/
theorem Chain.cut (h : Chain next p l) (q : ι) : ∃ m, Chain (update next q none) p m := by
  induction h with
  | @last p h =>
    refine ⟨[p], .last ?_⟩
    rw [Function.update_apply]
    split_ifs
    · rfl
    · exact h
  | @link p r l h _ ih =>
    obtain ⟨m, hm⟩ := ih
    by_cases hpq : p = q
    · subst hpq
      exact ⟨[p], .last (Function.update_self ..)⟩
    · exact ⟨p :: m, .link ((Function.update_of_ne hpq _ _).trans h) hm⟩

/-- With a link from the end of a chain to another that does not lead back, the chains are
longer. -/
theorem Chain.join (hq : next q = none) (hr : Chain next r m) (hqm : q ∉ m) (h : Chain next p l) :
    Chain (update next q (some r)) p (if q ∈ l then l ++ m else l) := by
  have hr' : Chain (update next q (some r)) r m :=
    hr.congr fun x hx => Function.update_of_ne (by rintro rfl; exact hqm hx) _ _
  induction h with
  | @last p h =>
    by_cases hpq : p = q
    · subst hpq
      rw [if_pos List.mem_cons_self]
      exact .link (Function.update_self ..) hr'
    · rw [if_neg (by simpa using Ne.symm hpq)]
      exact .last ((Function.update_of_ne hpq _ _).trans h)
  | @link p s l h _ ih =>
    have hpq : p ≠ q := fun hpq => by
      rw [hpq, hq] at h
      cases h
    have hmem : q ∈ p :: l ↔ q ∈ l := by simp [Ne.symm hpq]
    have hlink : update next q (some r) p = some s := (Function.update_of_ne hpq _ _).trans h
    by_cases hql : q ∈ l
    · rw [if_pos hql] at ih
      rw [if_pos (hmem.mpr hql)]
      exact .link hlink ih
    · rw [if_neg hql] at ih
      rw [if_neg (mt hmem.mp hql)]
      exact .link hlink ih

end Update

/-! ## Counts -/

/-- The cells: a count and a link. A cell is free if its count is zero. -/
structure Cells (ι : Type*) where
  ref : ι → ℕ
  next : ι → Option ι

variable [DecidableEq ι]

/-- A reference in the hands of the function that drops it. -/
def floating (float : Option ι) (q : ι) : ℕ := if float = some q then 1 else 0

@[simp] theorem floating_none : floating none q = 0 := rfl

@[simp] theorem floating_self : floating (some q) q = 1 := if_pos rfl

theorem floating_of_ne (h : r ≠ q) : floating (some q) r = 0 :=
  if_neg fun heq => h (Option.some.inj heq).symm

variable [Fintype ι]

/-- The links to a cell. -/
def links (next : ι → Option ι) (q : ι) : Finset ι := {p | next p = some q}

@[simp] theorem mem_links : p ∈ links next q ↔ next p = some q := by simp [links]

/-- Every count is the number of references, free cells have no link, and all chains end. -/
structure Counted (c : Cells ι) (owned : ι → ℕ) (float : Option ι) : Prop where
  count : ∀ q, c.ref q = owned q + (links c.next q).card + floating float q
  free : ∀ q, c.ref q = 0 → c.next q = none
  ends : ∀ q, ∃ l, Chain c.next q l

variable {c d : Cells ι} {owned : ι → ℕ} {float : Option ι}

/-- What is owned, linked or dropped is in use. -/
theorem Counted.ref_pos_of_owned (h : Counted c owned float) (hq : 0 < owned q) : 0 < c.ref q := by
  rw [h.count]
  omega

theorem Counted.ref_pos_of_link (h : Counted c owned float) (hp : c.next p = some q) :
    0 < c.ref q := by
  have hcard := Finset.card_pos.mpr ⟨p, mem_links.mpr hp⟩
  rw [h.count]
  omega

theorem Counted.ref_pos_of_floating (h : Counted c owned (some q)) : 0 < c.ref q := by
  rw [h.count, floating_self]
  omega

theorem Counted.ref_pos_of_chain (h : Counted c owned float) (hl : Chain c.next p l)
    (hp : 0 < c.ref p) : ∀ q ∈ l, 0 < c.ref q := by
  induction hl with
  | last => exact fun q hq => List.mem_singleton.mp hq ▸ hp
  | link hlink _ ih =>
    intro q hq
    rcases List.mem_cons.mp hq with rfl | hq
    · exact hp
    · exact ih (h.ref_pos_of_link hlink) q hq

/-- A free cell has no reference. -/
theorem Counted.of_free (h : Counted c owned float) (hq : c.ref q = 0) :
    owned q = 0 ∧ links c.next q = ∅ := by
  have hcount := h.count q
  exact ⟨by omega, Finset.card_eq_zero.mp (by omega)⟩

/-! ## What is done to the cells -/

/-- One more reference to a cell, and one less. -/
def Cells.own (c : Cells ι) (q : ι) : Cells ι := { c with ref := update c.ref q (c.ref q + 1) }
def Cells.drop (c : Cells ι) (q : ι) : Cells ι := { c with ref := update c.ref q (c.ref q - 1) }

/-- A cell gets another link, or none. -/
def Cells.setNext (c : Cells ι) (p : ι) (next : Option ι) : Cells ι :=
  { c with next := update c.next p next }

/-- A cell is freed. -/
def Cells.release (c : Cells ι) (q : ι) : Cells ι := ⟨update c.ref q 0, update c.next q none⟩

theorem card_links_update {v : Option ι} :
    (links (update next p v) q).card + floating (next p) q =
      (links next q).card + floating v q := by
  have hsplit (f : ι → Option ι) :
      (links f q).card = ((links f q).erase p).card + floating (f p) q := by
    rw [floating]
    split_ifs with hp
    · exact (Finset.card_erase_add_one (mem_links.mpr hp)).symm
    · rw [Finset.erase_eq_of_notMem (mt mem_links.mp hp), Nat.add_zero]
  have hrest : (links (update next p v) q).erase p = (links next q).erase p := by
    ext r
    rw [Finset.mem_erase, Finset.mem_erase, mem_links, mem_links]
    refine and_congr_right fun hrp => ?_
    rw [Function.update_of_ne hrp]
  have hbefore := hsplit next
  have hafter := hsplit (update next p v)
  rw [Function.update_self, hrest] at hafter
  omega

/-- The program owns one more reference, to a cell in use or one that was free. -/
theorem Counted.own (h : Counted c owned float) :
    Counted (c.own q) (update owned q (owned q + 1)) float := by
  refine ⟨fun r => ?_, fun r hr => ?_, h.ends⟩
  · have hcount := h.count r
    simp only [Cells.own, Function.update_apply]
    split_ifs with hrq
    · subst hrq
      omega
    · exact hcount
  · by_cases hrq : r = q
    · subst hrq
      simp only [Cells.own, Function.update_self] at hr
      omega
    · simp only [Cells.own, Function.update_of_ne hrq] at hr
      exact h.free r hr

/-- The program gives a reference out of its hands. -/
theorem Counted.disown (h : Counted c owned none) (hq : 0 < owned q) :
    Counted c (update owned q (owned q - 1)) (some q) := by
  refine ⟨fun r => ?_, h.free, h.ends⟩
  have hcount := h.count r
  rw [floating_none] at hcount
  by_cases hrq : r = q
  · subst hrq
    rw [floating_self, Function.update_self]
    omega
  · rw [floating_of_ne hrq, Function.update_of_ne hrq]
    exact hcount

/-- A reference is dropped and others are left. -/
theorem Counted.drop (h : Counted c owned (some q)) (hq : 1 < c.ref q) :
    Counted (c.drop q) owned none := by
  refine ⟨fun r => ?_, fun r hr => ?_, h.ends⟩
  · have hcount := h.count r
    simp only [Cells.drop, floating_none]
    by_cases hrq : r = q
    · subst hrq
      rw [floating_self] at hcount
      rw [Function.update_self]
      omega
    · rw [floating_of_ne hrq] at hcount
      rw [Function.update_of_ne hrq]
      exact hcount
  · by_cases hrq : r = q
    · subst hrq
      simp only [Cells.drop, Function.update_self] at hr
      omega
    · simp only [Cells.drop, Function.update_of_ne hrq] at hr
      exact h.free r hr

/-- The last reference is dropped: the cell is freed, and the reference it holds is to be
dropped. -/
theorem Counted.release (h : Counted c owned (some q)) (hq : c.ref q = 1) :
    Counted (c.release q) owned (c.next q) := by
  refine ⟨fun r => ?_, fun r hr => ?_, fun r => ?_⟩
  · have hcount := h.count r
    have hlinks := @card_links_update _ c.next q r _ _ none
    rw [floating_none] at hlinks
    simp only [Cells.release]
    by_cases hrq : r = q
    · subst hrq
      rw [floating_self] at hcount
      rw [Function.update_self]
      omega
    · rw [floating_of_ne hrq] at hcount
      rw [Function.update_of_ne hrq]
      omega
  · by_cases hrq : r = q
    · subst hrq
      exact Function.update_self ..
    · simp only [Cells.release, Function.update_of_ne hrq] at hr
      exact (Function.update_of_ne hrq _ _).trans (h.free r hr)
  · obtain ⟨l, hl⟩ := h.ends r
    exact hl.cut q

/-- Fewer cells are in use when one is freed. -/
theorem card_release_lt (hq : 0 < c.ref q) :
    Finset.card {r | 0 < (c.release q).ref r} < Finset.card {r | 0 < c.ref r} := by
  have hself : (c.release q).ref q = 0 := Function.update_self ..
  refine Finset.card_lt_card ((Finset.ssubset_iff_of_subset fun r hr => ?_).mpr ⟨q, ?_, ?_⟩)
  · rw [Finset.mem_filter_univ] at hr ⊢
    by_cases hrq : r = q
    · exact hrq ▸ hq
    · exact hr.trans_eq (Function.update_of_ne hrq _ _)
  · exact (Finset.mem_filter_univ q).mpr hq
  · rw [Finset.mem_filter_univ, hself]
    exact Nat.lt_irrefl 0

/-- A cell takes over a reference as its link. -/
theorem Counted.attach (h : Counted c owned (some q)) (hp : c.next p = none) (hused : 0 < c.ref p)
    (hm : Chain c.next q m) (hpm : p ∉ m) : Counted (c.setNext p (some q)) owned none := by
  refine ⟨fun r => ?_, fun r hr => ?_, fun r => ?_⟩
  · have hcount := h.count r
    have hlinks := @card_links_update _ c.next p r _ _ (some q)
    rw [hp, floating_none] at hlinks
    simp only [Cells.setNext, floating_none]
    omega
  · refine (Function.update_of_ne ?_ _ _).trans (h.free r hr)
    rintro rfl
    exact absurd hr hused.ne'
  · obtain ⟨l, hl⟩ := h.ends r
    exact ⟨_, .join hp hm hpm hl⟩

/-- The link of a cell is taken from it. -/
theorem Counted.detach (h : Counted c owned none) (p : ι) :
    Counted (c.setNext p none) owned (c.next p) := by
  refine ⟨fun r => ?_, fun r hr => ?_, fun r => ?_⟩
  · have hcount := h.count r
    have hlinks := @card_links_update _ c.next p r _ _ none
    rw [floating_none] at hcount hlinks
    simp only [Cells.setNext]
    omega
  · by_cases hrp : r = p
    · subst hrp
      exact Function.update_self ..
    · exact (Function.update_of_ne hrp _ _).trans (h.free r hr)
  · obtain ⟨l, hl⟩ := h.ends r
    exact hl.cut p

/-! ## What is in use -/

/-- Every cell in use is in the chain of a cell to which the program owns a reference. -/
theorem Counted.reached (h : Counted c owned none) (hp : 0 < c.ref p) :
    ∃ q l, 0 < owned q ∧ Chain c.next q l ∧ p ∈ l := by
  choose chain hchain using h.ends
  -- of the cells in use whose chain has the cell, one with the longest chain
  obtain ⟨q, hq, hmax⟩ := ({q | 0 < c.ref q ∧ p ∈ chain q} : Finset ι).exists_max_image
    (fun q => (chain q).length) ⟨p, by simp [hp, (hchain p).mem_self]⟩
  rw [Finset.mem_filter_univ] at hq
  refine ⟨q, chain q, Nat.pos_of_ne_zero fun hzero => ?_, hchain q, hq.2⟩
  have hcount := h.count q
  have hlinked : 0 < (links c.next q).card := by
    rw [floating_none] at hcount
    omega
  obtain ⟨r, hr⟩ := Finset.card_pos.mp hlinked
  have hrq := mem_links.mp hr
  have hr_pos : 0 < c.ref r := Nat.pos_of_ne_zero fun hfree => by
    rw [h.free r hfree] at hrq
    cases hrq
  have hlonger := (hchain r).unique (.link hrq (hchain q))
  have hle := hmax r (by
    rw [Finset.mem_filter_univ, hlonger]
    exact ⟨hr_pos, List.mem_cons_of_mem r hq.2⟩)
  rw [hlonger, List.length_cons] at hle
  omega

/-- A program that owns nothing has freed all cells. -/
theorem Counted.no_leak (h : Counted c owned none) (hnone : ∀ q, owned q = 0) : c.ref p = 0 := by
  by_contra hp
  obtain ⟨q, _, hq, -⟩ := h.reached (Nat.pos_of_ne_zero hp)
  exact absurd (hnone q) hq.ne'

end Lib.RefCount
