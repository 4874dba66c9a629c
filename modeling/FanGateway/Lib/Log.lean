import FanGateway.Lib.Buffer
import Mathlib.Control.Monad.Writer

/-!
# Programs that keep a log

A program that writes a log computes a value and lists, in order, what it did on the way.
The value of a sequence of two programs is that of the second, run on the value of the
first; their logs are appended.

A counting loop over such a program has the value of the loop over the values, and the
logs of its rounds one after the other. A condition on all that is written goes through
sequences and loops part by part.
-/

namespace Lib

/-- A program with a log. -/
abbrev Log (ω : Type) := Writer (List ω)

namespace Log

variable {ω α β σ : Type}

/-- What is computed. -/
def value (x : Log ω α) : α := x.run.1

/-- What is written. -/
def entries (x : Log ω α) : List ω := x.run.2

@[simp] theorem value_pure (a : α) : (pure a : Log ω α).value = a := rfl

@[simp] theorem entries_pure (a : α) : (pure a : Log ω α).entries = [] := rfl

@[simp] theorem value_bind (x : Log ω α) (f : α → Log ω β) :
    (x >>= f).value = (f x.value).value := rfl

@[simp] theorem entries_bind (x : Log ω α) (f : α → Log ω β) :
    (x >>= f).entries = x.entries ++ (f x.value).entries := rfl

@[simp] theorem value_ite (c : Prop) [Decidable c] (x y : Log ω α) :
    (if c then x else y).value = if c then x.value else y.value := apply_ite value c x y

/-- `for (t = lo; t < hi; t++) s = body(t, s)`. -/
def forRange (lo hi : ℕ) (body : ℕ → σ → Log ω σ) (s : σ) : Log ω σ :=
  Lib.forRange lo hi (fun t x => x >>= body t) (pure s)

variable {lo hi : ℕ} {body : ℕ → σ → Log ω σ} {s : σ}

/-- The value of a loop is that of the loop over the values. -/
theorem value_forRange {g : ℕ → σ → σ} (h : ∀ t s, (body t s).value = g t s) :
    (forRange lo hi body s).value = Lib.forRange lo hi g s :=
  forRange_map value g fun t x => h t x.value

/-- What a loop writes, if what a round writes is settled by its number. -/
theorem entries_forRange {f : ℕ → List ω} (h : ∀ t s, (body t s).entries = f t) :
    (forRange lo hi body s).entries = (List.range' lo (hi - lo)).flatMap f := by
  rw [forRange, forRange_map entries (fun t ws => ws ++ f t) fun t x => by
    rw [entries_bind, h], entries_pure, Lib.forRange]
  generalize List.range' lo (hi - lo) = ts
  -- induction on the rounds, the last one split off
  induction ts using List.reverseRecOn with
  | nil => rfl
  | append_singleton ts t ih =>
    rw [List.foldl_append, ih, List.flatMap_append, List.flatMap_singleton]
    rfl

/-- `for (t = lo; test(t, s); t++) s = body(t, s)`, for so many rounds at most. -/
def forWhile (test : ℕ → σ → Log ω Bool) (body : ℕ → σ → Log ω σ) : ℕ → ℕ → σ → Log ω σ
  | 0, _, s => pure s
  | fuel + 1, lo, s => do
    let again ← test lo s
    if again then do
      let s ← body lo s
      forWhile test body fuel (lo + 1) s
    else pure s

/-- The value of such a loop is that of the loop over the values. -/
theorem value_forWhile {test : ℕ → σ → Log ω Bool} {test' : ℕ → σ → Bool} {g : ℕ → σ → σ}
    (htest : ∀ t s, (test t s).value = test' t s) (hbody : ∀ t s, (body t s).value = g t s)
    {fuel : ℕ} : (forWhile test body fuel lo s).value = Lib.forWhile test' g fuel lo s := by
  -- induction on the rounds that are allowed
  induction fuel generalizing lo s with
  | zero => rfl
  | succ fuel ih =>
    rw [forWhile, Lib.forWhile, value_bind, htest, value_ite, value_bind, hbody, ih, value_pure]

/-- Cells read one after the other are a slice. -/
theorem value_slice [Inhabited α] {n len : ℕ} {b : Buffer α n} {read : ℕ → Log ω α}
    (h : ∀ t, (read t).value = b.peek t) :
    (forRange 0 len (fun t xs => do
      let x ← read t
      pure (xs ++ [x])) []).value = b.slice 0 len := by
  have hround (t : ℕ) (xs : List α) :
      (read t >>= fun x => (pure (xs ++ [x]) : Log ω (List α))).value = xs ++ [b.peek t] := by
    rw [value_bind, h, value_pure]
  rw [value_forRange hround]
  -- induction on the number of cells
  induction len with
  | zero => rfl
  | succ len ih => rw [forRange_succ (Nat.zero_le _), ih, Buffer.slice_succ, Nat.zero_add]

/-! ## A condition on all that is written -/

/-- Everything the program writes meets a condition. -/
def All (P : ω → Prop) (x : Log ω α) : Prop := ∀ w ∈ x.entries, P w

section All

variable {P : ω → Prop}

@[simp] theorem all_pure (a : α) : (pure a : Log ω α).All P := fun _ hw =>
  absurd hw List.not_mem_nil

@[simp] theorem all_bind (x : Log ω α) (f : α → Log ω β) :
    (x >>= f).All P ↔ x.All P ∧ (f x.value).All P := List.forall_mem_append

@[simp] theorem all_tell (w : ω) : (tell [w] : Log ω PUnit).All P ↔ P w :=
  List.forall_mem_singleton

/-- A loop meets a condition that all its rounds meet. -/
theorem all_forRange (hle : lo ≤ hi) (h : ∀ t s, lo ≤ t → t < hi → (body t s).All P) :
    (forRange lo hi body s).All P := by
  refine forRange_induction (P := fun _ x => All P x) hle (all_pure s) ?_
  intro t x hlo hhi hx
  exact (all_bind x (body t)).mpr ⟨hx, h t x.value hlo hhi⟩

/-- A loop that looks at its bound again meets a condition if its tests do, and exactly if the rounds
that are made do. -/
theorem all_forWhile_iff {test : ℕ → σ → Log ω Bool} {g : ℕ → σ → σ} {Q : ℕ → Prop} {n fuel : ℕ}
    (hbody : ∀ t s, (body t s).value = g t s) (hsafe : ∀ t s, (test t s).All P)
    (hround : ∀ t s, (body t s).All P ↔ Q t) (hfuel : n < fuel)
    (htest : ∀ t < n, (test (lo + t) (Lib.forRange lo (lo + t) g s)).value = true)
    (hend : (test (lo + n) (Lib.forRange lo (lo + n) g s)).value = false) :
    (forWhile test body fuel lo s).All P ↔ ∀ t < n, Q (lo + t) := by
  -- induction on the rounds, the first one split off
  induction n generalizing lo s fuel with
  | zero =>
    obtain ⟨fuel, rfl⟩ := Nat.exists_eq_add_one.mpr hfuel
    have hnone : Lib.forRange lo (lo + 0) g s = s := forRange_of_le le_rfl
    rw [hnone] at hend
    rw [forWhile, all_bind, and_iff_right (hsafe lo s)]
    refine iff_of_true ?_ fun t ht => absurd ht (Nat.not_lt_zero t)
    rw [show (test lo s).value = false from hend]
    exact all_pure s
  | succ n ih =>
    obtain ⟨fuel, rfl⟩ := Nat.exists_eq_add_one.mpr (Nat.zero_lt_of_lt hfuel)
    have hfirst := htest 0 (Nat.succ_pos n)
    have hnone : Lib.forRange lo (lo + 0) g s = s := forRange_of_le le_rfl
    rw [hnone] at hfirst
    have hshift (t : ℕ) : lo + (t + 1) = lo + 1 + t := by omega
    have hrest : (forWhile test body fuel (lo + 1) (g lo s)).All P ↔
        ∀ t < n, Q (lo + 1 + t) := by
      refine ih (Nat.lt_of_succ_lt_succ hfuel) (fun t ht => ?_) ?_
      · rw [← forRange_add_succ, ← hshift]
        exact htest (t + 1) (Nat.succ_lt_succ ht)
      · rw [← forRange_add_succ, ← hshift]
        exact hend
    rw [forWhile, all_bind, and_iff_right (hsafe lo s),
      show (test lo s).value = true from hfirst, if_pos rfl, all_bind, hround, hbody, hrest]
    constructor
    · rintro ⟨hlo, hall⟩ t ht
      cases t with
      | zero => exact hlo
      | succ t =>
        rw [hshift]
        exact hall t (Nat.lt_of_succ_lt_succ ht)
    · intro hall
      refine ⟨hall 0 (Nat.succ_pos n), fun t ht => ?_⟩
      rw [← hshift]
      exact hall (t + 1) (Nat.succ_lt_succ ht)

end All

end Log

end Lib
