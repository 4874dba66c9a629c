import Mathlib.Data.List.Basic
import Mathlib.Logic.Function.Basic

/-!
# Stocks and threads

A stock keeps cells of several kinds. Each cell is either free, and stands on the list of its kind
once, or used, and holds something. A cell is taken from the front of a list and given back there.

A list of free cells needs no room of its own if each cell says where the next one is: it is then
threaded through its own cells, and only the first is kept elsewhere.
-/

namespace Lib

open Function (update)

/-! ## Threads -/

section Threads

variable {α : Type*} {next next' : α → α} {none p a : α} {l : List α}

/-- The cells from one on, each of which says where the next is. -/
def Threaded (next : α → α) (none : α) : α → List α → Prop
  | p, [] => p = none
  | p, a :: l => p = a ∧ a ≠ none ∧ Threaded next none (next a) l

/-- Only the cells of a thread matter to it. -/
theorem Threaded.congr (h : Threaded next none p l) (hsame : ∀ a ∈ l, next' a = next a) :
    Threaded next' none p l := by
  induction l generalizing p with
  | nil => exact h
  | cons a l ih =>
    obtain ⟨rfl, hne, htail⟩ := h
    refine ⟨rfl, hne, ?_⟩
    rw [hsame p List.mem_cons_self]
    exact ih htail fun a ha => hsame a (List.mem_cons_of_mem _ ha)

theorem Threaded.push (h : Threaded next none p l) (hne : a ≠ none) (hnext : next a = p) :
    Threaded next none a (a :: l) := ⟨rfl, hne, hnext ▸ h⟩

theorem Threaded.eq_nil (h : Threaded next none none l) : l = [] := by
  cases l with
  | nil => rfl
  | cons a l => exact absurd h.1.symm h.2.1

theorem Threaded.exists_cons (h : Threaded next none p l) (hp : p ≠ none) :
    ∃ m, l = p :: m ∧ Threaded next none (next p) m := by
  cases l with
  | nil => exact absurd h hp
  | cons a l =>
    obtain ⟨rfl, -, htail⟩ := h
    exact ⟨l, rfl, htail⟩

end Threads

/-! ## Stocks -/

/-- The free cells of each kind, and the kind and the content of those in use. -/
structure Stock (ι α δ : Type*) where
  free : ι → List α
  used : α → Option (ι × δ)

namespace Stock

variable {ι α δ : Type*} {home : ι → α → Prop} {s : Stock ι α δ} {i : ι} {a : α} {l : List α}
  {d d' : δ}

/-- Each cell that a kind is home to is either free, once, or used. -/
structure Complete (home : ι → α → Prop) (s : Stock ι α δ) : Prop where
  nodup : ∀ i, (s.free i).Nodup
  home_iff : ∀ i a, home i a ↔ a ∈ s.free i ∨ ∃ d, s.used a = some (i, d)
  unused : ∀ i, ∀ a ∈ s.free i, s.used a = none

theorem Complete.of_used (h : s.Complete home) (hused : s.used a = some (i, d)) : home i a :=
  (h.home_iff i a).mpr (.inr ⟨d, hused⟩)

theorem Complete.of_free (h : s.Complete home) (hfree : a ∈ s.free i) : home i a :=
  (h.home_iff i a).mpr (.inl hfree)

/-- A free cell is not one that is used. -/
theorem Complete.ne_of_used {b : α} {j : ι} (h : s.Complete home) (hused : s.used b = some (i, d))
    (hfree : a ∈ s.free j) : a ≠ b := by
  rintro rfl
  exact Option.some_ne_none _ (hused.symm.trans (h.unused j a hfree))

/-- A list runs out exactly when all cells of its kind are used. -/
theorem Complete.free_eq_nil_iff (h : s.Complete home) :
    s.free i = [] ↔ ∀ a, home i a → ∃ d, s.used a = some (i, d) := by
  constructor
  · intro hnil a ha
    rcases (h.home_iff i a).mp ha with hfree | hused
    · rw [hnil] at hfree
      exact absurd hfree List.not_mem_nil
    · exact hused
  · intro hall
    refine List.eq_nil_iff_forall_not_mem.mpr fun a ha => ?_
    obtain ⟨d, hd⟩ := hall a (h.of_free ha)
    rw [h.unused i a ha] at hd
    exact Option.some_ne_none _ hd.symm

/-- What a used cell holds can change. -/
theorem Complete.refill [DecidableEq α] (h : s.Complete home) (hused : s.used a = some (i, d)) :
    Complete home ⟨s.free, update s.used a (some (i, d'))⟩ := by
  refine ⟨h.nodup, fun j b => ?_, fun j b hb => ?_⟩
  · rw [h.home_iff]
    refine or_congr_right ?_
    by_cases hba : b = a
    · subst hba
      simp only [Function.update_self, hused, Option.some.injEq, Prod.mk.injEq, exists_and_left,
        exists_eq']
    · simp only [Function.update_of_ne hba]
  · exact (Function.update_of_ne (h.ne_of_used hused hb) _ _).trans (h.unused j b hb)

section Moves

variable [DecidableEq ι] [DecidableEq α] (hhome : ∀ i j a, home i a → home j a → i = j)

include hhome

/-- The first free cell of a kind is taken. -/
theorem Complete.take (h : s.Complete home) (hfree : s.free i = a :: l) :
    Complete home ⟨update s.free i l, update s.used a (some (i, d))⟩ := by
  have ha : a ∈ s.free i := hfree ▸ List.mem_cons_self
  have hnodup : (a :: l).Nodup := hfree ▸ h.nodup i
  have hold {j : ι} {b : α} (hb : b ∈ update s.free i l j) : b ≠ a ∧ b ∈ s.free j := by
    by_cases hj : j = i
    · subst hj
      rw [Function.update_self] at hb
      refine ⟨?_, hfree ▸ List.mem_cons_of_mem _ hb⟩
      rintro rfl
      exact (List.nodup_cons.mp hnodup).1 hb
    · rw [Function.update_of_ne hj] at hb
      refine ⟨?_, hb⟩
      rintro rfl
      exact hj (hhome j i b (h.of_free hb) (h.of_free ha))
  refine ⟨fun j => ?_, fun j b => ?_, fun j b hb => ?_⟩
  · dsimp only
    by_cases hj : j = i
    · rw [hj, Function.update_self]
      exact (List.nodup_cons.mp hnodup).2
    · rw [Function.update_of_ne hj]
      exact h.nodup j
  · dsimp only
    by_cases hba : b = a
    · subst hba
      rw [Function.update_self]
      constructor
      · intro hb
        obtain rfl := hhome j i b hb (h.of_free ha)
        exact .inr ⟨d, rfl⟩
      · rintro (hb | ⟨d', hd'⟩)
        · exact absurd rfl (hold hb).1
        · obtain rfl : i = j := congrArg Prod.fst (Option.some.inj hd')
          exact h.of_free ha
    · rw [Function.update_of_ne hba, h.home_iff]
      refine or_congr_left ⟨fun hb => ?_, fun hb => (hold hb).2⟩
      by_cases hj : j = i
      · subst hj
        rw [Function.update_self]
        rw [hfree] at hb
        exact (List.mem_cons.mp hb).resolve_left hba
      · rwa [Function.update_of_ne hj]
  · obtain ⟨hne, hb'⟩ := hold hb
    exact (Function.update_of_ne hne _ _).trans (h.unused j b hb')

/-- A used cell is given back to its kind. -/
theorem Complete.give (h : s.Complete home) (hused : s.used a = some (i, d)) :
    Complete home ⟨update s.free i (a :: s.free i), update s.used a none⟩ := by
  have hnot {j : ι} : a ∉ s.free j := fun ha => h.ne_of_used hused ha rfl
  have hmem {j : ι} {b : α} :
      b ∈ update s.free i (a :: s.free i) j ↔ (j = i ∧ b = a) ∨ b ∈ s.free j := by
    by_cases hj : j = i
    · subst hj
      rw [Function.update_self, List.mem_cons, eq_self, true_and]
    · rw [Function.update_of_ne hj]
      exact (or_iff_right fun hji => hj hji.1).symm
  refine ⟨fun j => ?_, fun j b => ?_, fun j b hb => ?_⟩
  · dsimp only
    by_cases hj : j = i
    · subst hj
      rw [Function.update_self]
      exact List.nodup_cons.mpr ⟨hnot, h.nodup j⟩
    · rw [Function.update_of_ne hj]
      exact h.nodup j
  · dsimp only
    rw [hmem]
    by_cases hba : b = a
    · subst hba
      rw [Function.update_self]
      constructor
      · exact fun hb => .inl (.inl ⟨hhome j i b hb (h.of_used hused), rfl⟩)
      · rintro ((⟨rfl, -⟩ | hb) | ⟨d', hd'⟩)
        · exact h.of_used hused
        · exact absurd hb hnot
        · exact absurd hd'.symm (Option.some_ne_none _)
    · rw [Function.update_of_ne hba, h.home_iff]
      exact or_congr_left (or_iff_right fun hji => hba hji.2).symm
  · rcases hmem.mp hb with ⟨-, rfl⟩ | hb'
    · exact Function.update_self ..
    · exact (Function.update_of_ne (h.ne_of_used hused hb') _ _).trans (h.unused j b hb')

end Moves

end Stock

end Lib
