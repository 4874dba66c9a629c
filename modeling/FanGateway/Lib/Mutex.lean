import Mathlib.Data.Set.Subsingleton

/-!
# A lock and the threads inside it

The state of a lock says only whether it is taken. Which threads are between a
lock and the matching unlock is known from their program points. The two agree as
long as threads enter a free lock only and leave a lock they are inside of; putting
the lock back to free keeps them in agreement only while no thread is inside.
-/

namespace Lib

/-- A lock and the threads between its lock and unlock operations. -/
structure Mutex (θ : Type*) where
  locked : Bool
  inside : Set θ

namespace Mutex

variable {θ : Type*} {m : Mutex θ} {t u : θ}

/-- At most one thread is inside, and the lock is taken exactly when one is. -/
structure Sound (m : Mutex θ) : Prop where
  exclusive : m.inside.Subsingleton
  locked_iff : m.locked = true ↔ m.inside.Nonempty

/-- A free lock has nobody inside. -/
theorem Sound.inside_eq_empty (h : m.Sound) (hfree : m.locked = false) : m.inside = ∅ := by
  rw [← Set.not_nonempty_iff_eq_empty, ← h.locked_iff, hfree]
  exact Bool.false_ne_true

/-- Entering a free lock. -/
theorem Sound.lock (h : m.Sound) (hfree : m.locked = false) (t : θ) :
    Sound ⟨true, insert t m.inside⟩ := by
  rw [h.inside_eq_empty hfree, insert_empty_eq]
  exact ⟨Set.subsingleton_singleton, iff_of_true rfl (Set.singleton_nonempty t)⟩

/-- Leaving a lock one is inside of. -/
theorem Sound.unlock (h : m.Sound) (ht : t ∈ m.inside) : Sound ⟨false, m.inside \ {t}⟩ := by
  have hempty : m.inside \ {t} = ∅ := by
    ext u
    simp only [Set.mem_sdiff, Set.mem_singleton_iff, Set.mem_empty_iff_false, iff_false, not_and,
      not_not]
    exact fun hu => h.exclusive hu ht
  rw [hempty]
  exact ⟨Set.subsingleton_empty, iff_of_false Bool.false_ne_true Set.not_nonempty_empty⟩

/-- Initialising a lock nobody is inside of, whatever it says. -/
theorem sound_init (hempty : m.inside = ∅) : Sound ⟨false, m.inside⟩ := by
  rw [hempty]
  exact ⟨Set.subsingleton_empty, iff_of_false Bool.false_ne_true Set.not_nonempty_empty⟩

end Mutex

end Lib
