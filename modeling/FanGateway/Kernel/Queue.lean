import FanGateway.Lib.Ring

/-!
# Queue control blocks

A queue of the kernel is a ring of message cells that its creator provides. Messages are
stored where `OSQIn` points and taken where `OSQOut` points; both go from the last cell
on to the first. A message may also be stored in front of the others.

Seen from outside it is a list of messages of bounded length.
-/

namespace FanGateway.Kernel

open Lib

/-- A queue control block. Positions count the cells from `OSQStart` on; that of `OSQEnd` is the
size. Messages lie in the `osqEntries` cells from `osqOut` on. -/
structure OsQ (β : Type*) where
  osqStart : ℕ → β
  osqIn : ℕ
  osqOut : ℕ
  osqSize : ℕ
  osqEntries : ℕ
  out_mod : osqOut % osqSize = osqOut
  in_eq : osqIn = (osqOut + osqEntries) % osqSize
  entries_le : osqEntries ≤ osqSize

namespace OsQ

variable {β : Type*}

/-- The position after another one, which after the last cell is the first. -/
def next (q : OsQ β) (i : ℕ) : ℕ := if i + 1 = q.osqSize then 0 else i + 1

theorem next_eq_mod {q : OsQ β} {i : ℕ} (h : i < q.osqSize) :
    q.next i = (i + 1) % q.osqSize := by
  rw [next]
  split_ifs with hend
  · rw [hend, Nat.mod_self]
  · rw [Nat.mod_eq_of_lt (Nat.lt_of_le_of_ne h hend)]

theorem out_lt {q : OsQ β} (h : 0 < q.osqSize) : q.osqOut < q.osqSize :=
  q.out_mod ▸ Nat.mod_lt _ h

theorem in_lt {q : OsQ β} (h : 0 < q.osqSize) : q.osqIn < q.osqSize :=
  q.in_eq ▸ Nat.mod_lt _ h

/-- The position before the oldest message, which before the first cell is the last. -/
def prev (q : OsQ β) : ℕ := (if q.osqOut = 0 then q.osqSize else q.osqOut) - 1

theorem prev_lt {q : OsQ β} (h : 0 < q.osqSize) : q.prev < q.osqSize := by
  have hout := out_lt h
  rw [prev]
  split_ifs <;> omega

theorem prev_add_one_mod {q : OsQ β} (h : 0 < q.osqSize) :
    (q.prev + 1) % q.osqSize = q.osqOut := by
  rw [prev]
  split_ifs with hzero
  · rw [Nat.sub_add_cancel h, Nat.mod_self, hzero]
  · rw [Nat.sub_add_cancel (Nat.pos_of_ne_zero hzero), q.out_mod]

/-- The part of `OSQCreate` that concerns the control block. -/
def osqCreate (start : ℕ → β) (size : ℕ) : OsQ β where
  osqStart := start
  osqIn := 0
  osqOut := 0
  osqSize := size
  osqEntries := 0
  out_mod := Nat.zero_mod _
  in_eq := (Nat.zero_mod _).symm
  entries_le := Nat.zero_le _

/-- `OSQPost` to a queue no task waits for; `none` if it is full. -/
def osqPost (msg : β) (q : OsQ β) : Option (OsQ β) :=
  if h : q.osqEntries ≥ q.osqSize then none
  else some { q with
    osqStart := Function.update q.osqStart q.osqIn msg
    osqIn := q.next q.osqIn
    osqEntries := q.osqEntries + 1
    in_eq := by
      have hsize : 0 < q.osqSize := Nat.zero_lt_of_lt (Nat.lt_of_not_ge h)
      rw [next_eq_mod (in_lt hsize), q.in_eq, Nat.mod_add_mod, Nat.add_assoc]
    entries_le := Nat.lt_of_not_ge h }

/-- `OSQPostFront` to a queue no task waits for. -/
def osqPostFront (msg : β) (q : OsQ β) : Option (OsQ β) :=
  if h : q.osqEntries ≥ q.osqSize then none
  else some { q with
    osqStart := Function.update q.osqStart q.prev msg
    osqOut := q.prev
    osqEntries := q.osqEntries + 1
    out_mod := Nat.mod_eq_of_lt (prev_lt (Nat.zero_lt_of_lt (Nat.lt_of_not_ge h)))
    in_eq := by
      have hsize : 0 < q.osqSize := Nat.zero_lt_of_lt (Nat.lt_of_not_ge h)
      rw [q.in_eq, Nat.add_comm q.osqEntries, ← Nat.add_assoc, ← Nat.mod_add_mod (q.prev + 1),
        prev_add_one_mod hsize]
    entries_le := Nat.lt_of_not_ge h }

/-- `OSQAccept`, and `OSQPend` where there is a message: it and the queue without it. -/
def osqAccept (q : OsQ β) : Option (β × OsQ β) :=
  if h : q.osqEntries > 0 then
    some (q.osqStart q.osqOut, { q with
      osqOut := q.next q.osqOut
      osqEntries := q.osqEntries - 1
      out_mod := by
        rw [next_eq_mod (out_lt (h.trans_le q.entries_le)), Nat.mod_mod]
      in_eq := by
        rw [next_eq_mod (out_lt (h.trans_le q.entries_le)), q.in_eq, Nat.mod_add_mod,
          Nat.add_assoc, Nat.add_sub_cancel' h]
      entries_le := (Nat.sub_le _ _).trans q.entries_le })
  else none

/-- `OSQFlush`. -/
def osqFlush (q : OsQ β) : OsQ β := { osqCreate q.osqStart q.osqSize with }

/-- The message, the number of messages and the size that `OSQQuery` reports. -/
def osqQuery (q : OsQ β) : Option β × ℕ × ℕ :=
  (if q.osqEntries > 0 then some (q.osqStart q.osqOut) else none, q.osqEntries, q.osqSize)

/-- The messages, oldest first. -/
def contents (q : OsQ β) : List β := Ring.load q.osqSize q.osqStart q.osqOut q.osqEntries

variable {q q' : OsQ β} {msg : β}

@[simp] theorem length_contents : q.contents.length = q.osqEntries := Ring.length_load

@[simp] theorem contents_osqCreate (start : ℕ → β) (size : ℕ) :
    (osqCreate start size).contents = [] := rfl

theorem osqPost_eq_none_iff : q.osqPost msg = none ↔ q.contents.length ≥ q.osqSize := by
  simp [osqPost]

/-- A message is stored behind the others. -/
theorem contents_osqPost (h : q.osqPost msg = some q') :
    q'.contents = q.contents ++ [msg] ∧ q'.osqSize = q.osqSize := by
  simp only [osqPost, Option.dite_none_left_eq_some, Option.some.injEq] at h
  obtain ⟨hroom, rfl⟩ := h
  have hold : Ring.Holds q.osqSize q.osqStart q.osqOut q.contents := by
    rw [Ring.Holds, length_contents, contents]
  have hroom' : q.contents.length + [msg].length ≤ q.osqSize := by
    rw [length_contents]
    exact Nat.lt_of_not_ge hroom
  have hnew := hold.append hroom'
  rw [Ring.store, Ring.store, length_contents, ← q.in_eq, Ring.Holds, List.length_append,
    length_contents] at hnew
  exact ⟨hnew, rfl⟩

theorem osqPostFront_eq_none_iff : q.osqPostFront msg = none ↔ q.contents.length ≥ q.osqSize := by
  simp [osqPostFront]

/-- A message is stored before the others. -/
theorem contents_osqPostFront (h : q.osqPostFront msg = some q') :
    q'.contents = msg :: q.contents ∧ q'.osqSize = q.osqSize := by
  simp only [osqPostFront, Option.dite_none_left_eq_some, Option.some.injEq] at h
  obtain ⟨hroom, rfl⟩ := h
  refine ⟨?_, rfl⟩
  have hsize : 0 < q.osqSize := Nat.zero_lt_of_lt (Nat.lt_of_not_ge hroom)
  have hlt := prev_lt hsize
  have hnext := prev_add_one_mod hsize
  change Ring.load q.osqSize (Function.update q.osqStart q.prev msg) q.prev (q.osqEntries + 1) = _
  rw [Ring.load_succ, Nat.mod_eq_of_lt hlt, Function.update_self, ← Ring.load_mod, hnext]
  -- the cells of the other messages come before the new one in the ring
  refine congrArg (msg :: ·) (List.map_congr_left fun i hi => ?_)
  have hi' : i < q.osqEntries := List.mem_range.mp hi
  refine Function.update_of_ne ?_ _ _
  have hcell : (q.osqOut + i) % q.osqSize = (q.prev + (i + 1)) % q.osqSize := by
    rw [← hnext, Nat.mod_add_mod, Nat.add_assoc, Nat.add_comm 1 i]
  rw [hcell]
  nth_rewrite 2 [← Nat.mod_eq_of_lt hlt]
  exact Ring.mod_add_ne (j := 0) (by omega) hsize (Nat.succ_ne_zero i)

theorem osqAccept_eq_none_iff : q.osqAccept = none ↔ q.contents = [] := by
  rw [← List.length_eq_zero_iff, length_contents, osqAccept]
  simp

/-- The oldest message is taken. -/
theorem contents_osqAccept (h : q.osqAccept = some (msg, q')) :
    q.contents = msg :: q'.contents ∧ q'.osqSize = q.osqSize := by
  simp only [osqAccept, Option.dite_none_right_eq_some, Option.some.injEq, Prod.mk.injEq] at h
  obtain ⟨hsome, rfl, rfl⟩ := h
  refine ⟨?_, rfl⟩
  have hout := out_lt (hsome.trans_le q.entries_le)
  change _ = q.osqStart q.osqOut ::
    Ring.load q.osqSize q.osqStart (q.next q.osqOut) (q.osqEntries - 1)
  rw [contents, next_eq_mod hout, Ring.load_mod]
  obtain ⟨n, hn⟩ := Nat.exists_eq_add_one.mpr hsome
  rw [hn, Ring.load_succ, q.out_mod, Nat.add_sub_cancel]

@[simp] theorem contents_osqFlush : q.osqFlush.contents = [] := rfl

theorem osqQuery_eq : q.osqQuery = (q.contents.head?, q.contents.length, q.osqSize) := by
  rw [osqQuery, length_contents]
  refine congrArg (·, _) ?_
  split_ifs with h
  · obtain ⟨n, hn⟩ := Nat.exists_eq_add_one.mpr h
    rw [contents, hn, Ring.load_succ, q.out_mod]
    rfl
  · rw [contents, Nat.eq_zero_of_not_pos h]
    rfl

end OsQ

/-! ## Queues are bounded lists -/

/-- A use of a queue. -/
inductive QueueUse (β : Type*)
  | post (msg : β)
  | postFront (msg : β)
  | accept
  | flush
  | query

/-- What a use of a queue returns: whether it succeeded, the message, the numbers of a query. -/
structure QueueAnswer (β : Type*) where
  success : Bool
  msg : Option β
  counts : ℕ × ℕ

section Refinement

variable {β : Type*}

namespace OsQ

def use (q : OsQ β) : QueueUse β → QueueAnswer β × OsQ β
  | .post msg => (⟨(q.osqPost msg).isSome, none, 0, 0⟩, (q.osqPost msg).getD q)
  | .postFront msg => (⟨(q.osqPostFront msg).isSome, none, 0, 0⟩, (q.osqPostFront msg).getD q)
  | .accept => (⟨q.osqAccept.isSome, q.osqAccept.map Prod.fst, 0, 0⟩,
      (q.osqAccept.map Prod.snd).getD q)
  | .flush => (⟨true, none, 0, 0⟩, q.osqFlush)
  | .query => (⟨true, q.osqQuery.1, q.osqQuery.2⟩, q)

/-- The answers to a sequence of uses. -/
def answers (q : OsQ β) : List (QueueUse β) → List (QueueAnswer β)
  | [] => []
  | u :: us => (q.use u).1 :: answers (q.use u).2 us

end OsQ

/-- The use of a list of at most `size` messages. -/
def listUse (size : ℕ) (msgs : List β) : QueueUse β → QueueAnswer β × List β
  | .post msg =>
    if msgs.length < size then (⟨true, none, 0, 0⟩, msgs ++ [msg]) else (⟨false, none, 0, 0⟩, msgs)
  | .postFront msg =>
    if msgs.length < size then (⟨true, none, 0, 0⟩, msg :: msgs) else (⟨false, none, 0, 0⟩, msgs)
  | .accept => (⟨!msgs.isEmpty, msgs.head?, 0, 0⟩, msgs.tail)
  | .flush => (⟨true, none, 0, 0⟩, [])
  | .query => (⟨true, msgs.head?, msgs.length, size⟩, msgs)

def listAnswers (size : ℕ) (msgs : List β) : List (QueueUse β) → List (QueueAnswer β)
  | [] => []
  | u :: us => (listUse size msgs u).1 :: listAnswers size (listUse size msgs u).2 us

/-- One use of a queue is the use of the list of its messages. -/
theorem use_eq_listUse (q : OsQ β) (u : QueueUse β) :
    (q.use u).1 = (listUse q.osqSize q.contents u).1 ∧
      (q.use u).2.contents = (listUse q.osqSize q.contents u).2 ∧
      (q.use u).2.osqSize = q.osqSize := by
  cases u with
  | post msg =>
    rw [OsQ.use, listUse]
    cases h : q.osqPost msg with
    | none =>
      rw [if_neg (Nat.not_lt.mpr (OsQ.osqPost_eq_none_iff.mp h))]
      exact ⟨rfl, rfl, rfl⟩
    | some q' =>
      have hroom : q.contents.length < q.osqSize := by
        rw [← Nat.not_le, ← ge_iff_le, ← OsQ.osqPost_eq_none_iff, h]
        exact Option.some_ne_none q'
      rw [if_pos hroom]
      exact ⟨rfl, OsQ.contents_osqPost h⟩
  | postFront msg =>
    rw [OsQ.use, listUse]
    cases h : q.osqPostFront msg with
    | none =>
      rw [if_neg (Nat.not_lt.mpr (OsQ.osqPostFront_eq_none_iff.mp h))]
      exact ⟨rfl, rfl, rfl⟩
    | some q' =>
      have hroom : q.contents.length < q.osqSize := by
        rw [← Nat.not_le, ← ge_iff_le, ← OsQ.osqPostFront_eq_none_iff, h]
        exact Option.some_ne_none q'
      rw [if_pos hroom]
      exact ⟨rfl, OsQ.contents_osqPostFront h⟩
  | accept =>
    rw [OsQ.use, listUse]
    cases h : q.osqAccept with
    | none =>
      rw [OsQ.osqAccept_eq_none_iff.mp h]
      exact ⟨rfl, OsQ.osqAccept_eq_none_iff.mp h, rfl⟩
    | some taken =>
      obtain ⟨hcontents, hsize⟩ := OsQ.contents_osqAccept h
      rw [hcontents]
      exact ⟨rfl, rfl, hsize⟩
  | flush => exact ⟨rfl, rfl, rfl⟩
  | query =>
    rw [OsQ.use, listUse, OsQ.osqQuery_eq]
    exact ⟨rfl, rfl, rfl⟩

/-- **Queues are bounded lists.** Whatever is done to a queue, it answers like the list of its
messages. -/
theorem answers_eq_listAnswers (q : OsQ β) (us : List (QueueUse β)) :
    q.answers us = listAnswers q.osqSize q.contents us := by
  induction us generalizing q with
  | nil => rfl
  | cons u us ih =>
    obtain ⟨hanswer, hcontents, hsize⟩ := use_eq_listUse q u
    rw [OsQ.answers, listAnswers, hanswer, ih, hcontents, hsize]

end Refinement

end FanGateway.Kernel
