import Mathlib.Data.List.Count
import Mathlib.Data.List.Basic
import Mathlib.Data.Set.Insert
import Mathlib.Order.BooleanAlgebra.Set

/-!
# The lifetime of resources

A program acquires resources, uses them and releases them. What it has done so far is a
log, and a log is disciplined if nothing is acquired twice, and nothing is used or
released that is not held at that moment. After a disciplined log every resource that was
acquired is still held or has been released exactly once.

The calls of a program do more than one thing at a time and with more than one kind of
resource. Each kind has a log of its own, which is read off the calls.
-/

namespace Lib

/-! ## A relation to all that came before -/

section AtEach

variable {α : Type*} {P : List α → α → Prop} {xs : List α} {x : α}

/-- Every element of a list stands in a relation to the elements before it. -/
def AtEach (P : List α → α → Prop) (xs : List α) : Prop :=
  ∀ before x after, xs = before ++ x :: after → P before x

@[simp] theorem atEach_nil : AtEach P [] := fun _ _ _ h => absurd h (by simp)

@[simp] theorem atEach_append_singleton : AtEach P (xs ++ [x]) ↔ AtEach P xs ∧ P xs x := by
  constructor
  · intro h
    refine ⟨fun before y after hsplit => h before y (after ++ [x]) ?_, h xs x [] rfl⟩
    rw [hsplit, List.append_assoc, List.cons_append]
  · rintro ⟨hinit, hlast⟩ before y after hsplit
    rcases List.eq_nil_or_concat after with rfl | ⟨rest, z, rfl⟩
    · obtain ⟨rfl, hxy⟩ := List.append_inj' hsplit rfl
      cases hxy
      exact hlast
    · rw [List.concat_eq_append, ← List.cons_append, ← List.append_assoc] at hsplit
      exact hinit before y rest (List.append_inj' hsplit rfl).1

theorem AtEach.of_append {ys : List α} (h : AtEach P (xs ++ ys)) : AtEach P xs := by
  intro before x after hsplit
  exact h before x (after ++ ys) (by rw [hsplit, List.append_assoc, List.cons_append])

end AtEach

/-! ## Disciplined logs -/

namespace Lifetime

variable {ι : Type*}

/-- What is done with a resource. -/
inductive Op (ι : Type*)
  | acquire (i : ι)
  | use (i : ι)
  | release (i : ι)
  deriving DecidableEq

/-- A log of operations, all of them on new or held resources, after which exactly the
resources of a set are held. -/
inductive Holds : Set ι → List (Op ι) → Prop
  | nil : Holds ∅ []
  | acquire {live : Set ι} {ops : List (Op ι)} {i : ι} :
      Holds live ops → .acquire i ∉ ops → Holds (insert i live) (ops ++ [.acquire i])
  | use {live : Set ι} {ops : List (Op ι)} {i : ι} :
      Holds live ops → i ∈ live → Holds live (ops ++ [.use i])
  | release {live : Set ι} {ops : List (Op ι)} {i : ι} :
      Holds live ops → i ∈ live → Holds (live \ {i}) (ops ++ [.release i])

/-- Every resource that was acquired has been released exactly once. -/
def Settled [DecidableEq ι] (ops : List (Op ι)) : Prop :=
  ∀ i, .acquire i ∈ ops → ops.count (.release i) = 1

/-- What an operation may be done to after others. -/
def Op.Allowed (before : List (Op ι)) : Op ι → Prop
  | .acquire i => .acquire i ∉ before
  | .use i => .acquire i ∈ before ∧ .release i ∉ before
  | .release i => .acquire i ∈ before ∧ .release i ∉ before

/-- Every operation is allowed where it stands. -/
def Disciplined (ops : List (Op ι)) : Prop := AtEach (fun before op => op.Allowed before) ops

namespace Holds

variable {live : Set ι} {ops : List (Op ι)} {i : ι}

/-- What is held has been acquired. -/
theorem acquired (h : Holds live ops) (hi : i ∈ live) : .acquire i ∈ ops := by
  induction h with
  | nil => exact absurd hi (Set.notMem_empty i)
  | acquire _ _ ih =>
    rcases Set.mem_insert_iff.mp hi with rfl | hi
    · exact List.mem_append_right _ (List.mem_singleton_self _)
    · exact List.mem_append_left _ (ih hi)
  | use _ _ ih => exact List.mem_append_left _ (ih hi)
  | release _ _ ih => exact List.mem_append_left _ (ih hi.1)

/-- What has been released was acquired before. -/
theorem acquired_of_released (h : Holds live ops) (hi : .release i ∈ ops) :
    .acquire i ∈ ops := by
  induction h with
  | nil => exact absurd hi List.not_mem_nil
  | acquire _ _ ih => exact List.mem_append_left _ (ih (by simpa using hi))
  | use _ _ ih => exact List.mem_append_left _ (ih (by simpa using hi))
  | release h hlive ih =>
    rcases List.mem_append.mp hi with hi | hi
    · exact List.mem_append_left _ (ih hi)
    · obtain rfl : i = _ := by simpa using hi
      exact List.mem_append_left _ (h.acquired hlive)

/-- What is held has not been released. -/
theorem unreleased (h : Holds live ops) (hi : i ∈ live) : .release i ∉ ops := by
  induction h with
  | nil => exact List.not_mem_nil
  | acquire h hnew ih =>
    intro hreleased
    rcases Set.mem_insert_iff.mp hi with rfl | hi
    · exact hnew (h.acquired_of_released (by simpa using hreleased))
    · exact ih hi (by simpa using hreleased)
  | use _ _ ih =>
    intro hreleased
    exact ih hi (by simpa using hreleased)
  | release _ _ ih =>
    intro hreleased
    rcases List.mem_append.mp hreleased with hbefore | hlast
    · exact ih hi.1 hbefore
    · exact hi.2 (by simpa using hlast)

theorem disciplined (h : Holds live ops) : Disciplined ops := by
  induction h with
  | nil => exact atEach_nil
  | acquire _ hnew ih => exact atEach_append_singleton.mpr ⟨ih, hnew⟩
  | use h hlive ih =>
    exact atEach_append_singleton.mpr ⟨ih, h.acquired hlive, h.unreleased hlive⟩
  | release h hlive ih =>
    exact atEach_append_singleton.mpr ⟨ih, h.acquired hlive, h.unreleased hlive⟩

variable [DecidableEq ι]

/-- What was acquired and is not held has been released once. -/
theorem count_release (h : Holds live ops) (hi : .acquire i ∈ ops) (hnot : i ∉ live) :
    ops.count (.release i) = 1 := by
  induction h with
  | nil => exact absurd hi List.not_mem_nil
  | acquire _ _ ih =>
    rw [Set.mem_insert_iff, not_or] at hnot
    rw [List.count_append, ih (by simpa [hnot.1] using hi) hnot.2]
    simp
  | use _ _ ih =>
    rw [List.count_append, ih (by simpa using hi) hnot]
    simp
  | @release live ops j h hlive ih =>
    by_cases hij : i = j
    · subst hij
      rw [List.count_append, List.count_eq_zero.mpr (h.unreleased hlive)]
      simp
    · have hnot' : i ∉ live := fun hmem => hnot ⟨hmem, hij⟩
      rw [List.count_append, ih (by simpa using hi) hnot']
      simp [Ne.symm hij]

/-- A log after which nothing is held is settled. -/
theorem settled (h : Holds ∅ ops) : Settled ops :=
  fun i hi => h.count_release hi (Set.notMem_empty i)

end Holds

/-! ## One resource from its beginning to its end -/

/-- What an operation is done to. -/
def Op.resource : Op ι → ι
  | .acquire i => i
  | .use i => i
  | .release i => i

/-- A resource has been acquired and not been released. -/
def InUse (i : ι) (ops : List (Op ι)) : Prop := .acquire i ∈ ops ∧ .release i ∉ ops

section InUse

variable {ops : List (Op ι)} {i : ι}

/-- A resource that was never seen before is acquired. -/
theorem inUse_acquire (hnew : ∀ op ∈ ops, op.resource ≠ i) : InUse i (ops ++ [.acquire i]) := by
  refine ⟨List.mem_append_right _ (List.mem_singleton_self _), fun hmem => ?_⟩
  rcases List.mem_append.mp hmem with hmem | hmem
  · exact hnew _ hmem rfl
  · exact absurd (List.mem_singleton.mp hmem) (by simp)

theorem InUse.use (h : InUse i ops) : InUse i (ops ++ [.use i]) := by
  refine ⟨List.mem_append_left _ h.1, fun hmem => ?_⟩
  rcases List.mem_append.mp hmem with hmem | hmem
  · exact h.2 hmem
  · exact absurd (List.mem_singleton.mp hmem) (by simp)

theorem Disciplined.acquire (h : Disciplined ops) (hnew : ∀ op ∈ ops, op.resource ≠ i) :
    Disciplined (ops ++ [.acquire i]) :=
  atEach_append_singleton.mpr ⟨h, fun hmem => hnew _ hmem rfl⟩

theorem Disciplined.use (h : Disciplined ops) (hi : InUse i ops) :
    Disciplined (ops ++ [.use i]) :=
  atEach_append_singleton.mpr ⟨h, hi⟩

theorem Disciplined.release (h : Disciplined ops) (hi : InUse i ops) :
    Disciplined (ops ++ [.release i]) :=
  atEach_append_singleton.mpr ⟨h, hi⟩

/-- Nothing is released twice. -/
theorem not_disciplined_of_release_release :
    ¬ Disciplined (ops ++ [.release i] ++ [.release i]) := fun h =>
  (atEach_append_singleton.mp h).2.2 (List.mem_append_right _ (List.mem_singleton_self _))

end InUse

/-! ## Pointers that may be null -/

/-- The resource a pointer points to, if there is one. -/
def heldBy (p : Option ι) : Set ι := {i | p = some i}

@[simp] theorem heldBy_none : heldBy (none : Option ι) = ∅ :=
  Set.eq_empty_of_forall_notMem fun _ hi => absurd hi (by simp [heldBy])

theorem heldBy_some (i : ι) : heldBy (some i) = {i} :=
  Set.ext fun _ => ⟨fun h => (Option.some.inj h).symm, fun h => congrArg some h.symm⟩

section Pointer

variable {p : Option ι} {ops : List (Op ι)}

/-- A call that may return a null pointer acquires what it returns. -/
theorem Holds.acquire_pointer (h : Holds ∅ ops) (hnew : ∀ i ∈ p, .acquire i ∉ ops) :
    Holds (heldBy p) (ops ++ (p.map Op.acquire).toList) := by
  cases p with
  | none => simpa using h
  | some i =>
    have hinsert : heldBy (some i) = insert i ∅ := by simp [heldBy_some]
    rw [hinsert]
    exact h.acquire (hnew i rfl)

theorem Holds.use_pointer (h : Holds (heldBy p) ops) :
    Holds (heldBy p) (ops ++ (p.map Op.use).toList) := by
  cases p with
  | none => simpa using h
  | some i => exact h.use rfl

theorem Holds.release_pointer (h : Holds (heldBy p) ops) :
    Holds ∅ (ops ++ (p.map Op.release).toList) := by
  cases p with
  | none => simpa using h
  | some i =>
    have hempty : heldBy (some i) \ {i} = ∅ := by simp [heldBy_some]
    rw [← hempty]
    exact h.release rfl

end Pointer

end Lifetime

end Lib
