import FanGateway.Lib.Machine
import Mathlib.Logic.Function.Basic

/-!
# Mailboxes of the network stack

A mailbox variable holds a pointer to a descriptor, the descriptor a pointer to an
event block, and the event block a queue of the kernel. Creation may fail at either
allocation; if the queue is not available the descriptor is given back, but the
variable keeps pointing to it.

A mailbox is valid from a successful creation until it is freed or set invalid. The
port computes validity from the fill level of the queue instead: it wants a queue to
be there and to have room.
-/

namespace FanGateway.Port

open Lib

/-! ## Queues of the kernel -/

/-- A queue control block. The entries are the messages, oldest first; `none` is the null
message, which travels as the address of `pvNullPointer`. -/
structure OsQ (α : Type*) where
  osqSize : ℕ
  osqEntries : List (Option α)
  /-- The tasks that wait for a message. -/
  waiting : ℕ
  deriving DecidableEq

namespace OsQ

variable {α : Type*}

/-- `OSQPost`: 0 for success, 30 for a full queue. A waiting task gets the message
without it being queued. -/
def osqPost (msg : Option α) (q : OsQ α) : ℕ × OsQ α :=
  if 0 < q.waiting then (0, { q with waiting := q.waiting - 1 })
  else if q.osqEntries.length ≥ q.osqSize then (30, q)
  else (0, { q with osqEntries := q.osqEntries ++ [msg] })

/-- `OSQPend`, up to the moment the task has its message or waits for one. -/
def osqPend (q : OsQ α) : OsQ α :=
  if 0 < q.osqEntries.length then { q with osqEntries := q.osqEntries.tail }
  else { q with waiting := q.waiting + 1 }

/-- The number of messages and the size that `OSQQuery` reports, with its error code. Of
anything but a queue it reports nothing, and the caller has cleared the record. -/
def osqQuery : Option (OsQ α) → ℕ × ℕ × ℕ
  | some q => (0, q.osqEntries.length, q.osqSize)
  | none => (1, 0, 0)

end OsQ

/-! ## Mailboxes -/

/-- The mailbox variables `V`, the descriptors `D` and the event blocks `E` of the port. -/
structure State (V D E α : Type*) where
  /-- What a variable points to; `none` is the null pointer. -/
  mbox : V → Option D
  /-- The `pQ` field of a descriptor, also of one that has been given back. -/
  pQ : D → Option E
  allocated : D → Bool
  /-- The queue of an event block that is one. -/
  queue : E → Option (OsQ α)
  /-- The mailbox has been created and neither freed nor set invalid since. -/
  live : V → Bool

inductive Op (V D E α : Type*)
  /-- A creation, with what the two allocations return. -/
  | new (m : V) (size : ℕ) (block : Option D) (event : Option E)
  | free (m : V)
  | setInvalid (m : V)
  | post (m : V) (msg : Option α)
  | trypost (m : V) (msg : Option α)
  | fetch (m : V)
  /-- The wait of a fetch ends without a message. -/
  | timeout (m : V)

variable {V D E α : Type*}

namespace State

/-- The queue a variable leads to. The null pointer leads to none: what is found at address 0
is not the address of a queue. -/
def queueOf (s : State V D E α) (m : V) : Option (OsQ α) :=
  ((s.mbox m).bind s.pQ).bind s.queue

variable [DecidableEq V] [DecidableEq D] [DecidableEq E]

/-- Change the queue a variable leads to. -/
def withQueue (s : State V D E α) (m : V) (f : OsQ α → Option (OsQ α)) :
    Option (State V D E α) :=
  (s.mbox m).bind fun d => (s.pQ d).bind fun e => (s.queue e).bind fun q => (f q).map fun q' =>
    { s with queue := Function.update s.queue e (some q') }

/-- `sys_mbox_new`. -/
def sysMboxNew (s : State V D E α) (m : V) (size : ℕ) (block : Option D) (event : Option E) :
    State V D E α :=
  match block with
  | none => { s with mbox := Function.update s.mbox m none, live := Function.update s.live m false }
  | some d =>
    -- the variable is set before the queue is created, and stays set if that fails
    let s := { s with mbox := Function.update s.mbox m (some d) }
    -- `MAX_QUEUE_ENTRIES`
    let size := if size > 20 then 20 else size
    match event with
    | some e =>
      { s with
        pQ := Function.update s.pQ d (some e)
        allocated := Function.update s.allocated d true
        queue := Function.update s.queue e (some ⟨size, [], 0⟩)
        live := Function.update s.live m true }
    | none =>
      { s with
        pQ := Function.update s.pQ d none
        live := Function.update s.live m false }

/-- `sys_mbox_set_invalid`. -/
def sysMboxSetInvalid (s : State V D E α) (m : V) : State V D E α :=
  { s with mbox := Function.update s.mbox m none, live := Function.update s.live m false }

/-- `sys_mbox_free`. -/
def sysMboxFree (s : State V D E α) (m : V) : Option (State V D E α) :=
  (s.mbox m).bind fun d => (s.pQ d).map fun e =>
    sysMboxSetInvalid { s with
      queue := Function.update s.queue e none
      allocated := Function.update s.allocated d false } m

/-- `sys_mbox_post` waits for room. -/
def sysMboxPost (s : State V D E α) (m : V) (msg : Option α) : Option (State V D E α) :=
  s.withQueue m fun q =>
    let (err, q') := q.osqPost msg
    if err = 0 then some q' else none

/-- `sys_mbox_trypost`. -/
def sysMboxTrypost (s : State V D E α) (m : V) (msg : Option α) : Option (State V D E α) :=
  s.withQueue m fun q => some (q.osqPost msg).2

/-- `sys_arch_mbox_fetch`. -/
def sysArchMboxFetch (s : State V D E α) (m : V) : Option (State V D E α) :=
  s.withQueue m fun q => some q.osqPend

/-- The end of a wait without a message. -/
def endWait (s : State V D E α) (m : V) : Option (State V D E α) :=
  s.withQueue m fun q =>
    if 0 < q.waiting then some { q with waiting := q.waiting - 1 } else none

end State

/-- `sys_mbox_valid`. -/
def sysMboxValid (s : State V D E α) (m : V) : ℕ :=
  let (ucErr, osNMsgs, osqSize) := OsQ.osqQuery (s.queueOf m)
  if ucErr < 2 ∧ osNMsgs < osqSize then 1 else 0

section Machine

variable [DecidableEq V] [DecidableEq D] [DecidableEq E]

/-- The mailboxes from boot on. An allocation returns what is not in use; only live mailboxes
are freed, posted to and fetched from. -/
def mailboxes (V D E α : Type*) [DecidableEq V] [DecidableEq D] [DecidableEq E] :
    Machine (State V D E α) (Op V D E α) where
  init := ⟨fun _ => none, fun _ => none, fun _ => false, fun _ => none, fun _ => false⟩
  step s
    | .new m size block event =>
      if block.all (fun d => !s.allocated d) ∧ event.all (fun e => (s.queue e).isNone) then
        some (s.sysMboxNew m size block event)
      else none
    | .free m => if s.live m then s.sysMboxFree m else none
    | .setInvalid m => some (s.sysMboxSetInvalid m)
    | .post m msg => if s.live m then s.sysMboxPost m msg else none
    | .trypost m msg => if s.live m then s.sysMboxTrypost m msg else none
    | .fetch m => if s.live m then s.sysArchMboxFetch m else none
    | .timeout m => if s.live m then s.endWait m else none

/-! ## Live mailboxes have their own queues -/

/-- A live mailbox with its descriptor and its event block. -/
structure Owns (s : State V D E α) (m : V) (d : D) (e : E) : Prop where
  live : s.live m = true
  mbox : s.mbox m = some d
  pQ : s.pQ d = some e
  allocated : s.allocated d = true
  queue : (s.queue e).isSome = true

/-- Every live mailbox has a descriptor and a queue, and shares neither with another. -/
structure Inv (s : State V D E α) : Prop where
  owned : ∀ m, s.live m = true → ∃ d e, Owns s m d e
  apart : ∀ m n d d' e e', Owns s m d e → Owns s n d' e' → d = d' ∨ e = e' → m = n

theorem inv_init : Inv (mailboxes V D E α).init where
  owned _ h := absurd h Bool.false_ne_true
  apart _ _ _ _ _ _ h := absurd h.live Bool.false_ne_true

end Machine

section Ownership

variable {s t : State V D E α} {m n : V} {d d' : D} {e e' : E}

theorem Owns.queueOf (h : Owns s m d e) : s.queueOf m = s.queue e := by
  simp [State.queueOf, h.mbox, h.pQ]

/-- A mailbox owns one descriptor and one event block. -/
theorem Owns.unique (h : Owns s m d e) (h' : Owns s m d' e') : d' = d ∧ e' = e := by
  have hd : d' = d := Option.some.inj (h'.mbox.symm.trans h.mbox)
  subst hd
  exact ⟨rfl, Option.some.inj (h'.pQ.symm.trans h.pQ)⟩

theorem Inv.ne_of_owns (h : Inv s) (hn : n ≠ m) (hown : Owns s n d' e') (hm : Owns s m d e) :
    d' ≠ d ∧ e' ≠ e :=
  ⟨fun hd => hn (h.apart n m d' d e' e hown hm (.inl hd)),
    fun he => hn (h.apart n m d' d e' e hown hm (.inr he))⟩

/-- A step on `m` after which the other mailboxes own what they owned, and `m`, if it is live,
owns what none of them does. -/
theorem Inv.of_replace (h : Inv s) (hlive : ∀ n, n ≠ m → t.live n = s.live n)
    (hkeep : ∀ n d e, n ≠ m → Owns s n d e → Owns t n d e)
    (hown : t.live m = true → ∃ d e, Owns t m d e ∧
      ∀ n d' e', n ≠ m → Owns s n d' e' → d' ≠ d ∧ e' ≠ e) : Inv t := by
  have howned (n : V) (hn : n ≠ m) (hl : t.live n = true) :
      ∃ d e, Owns s n d e ∧ Owns t n d e := by
    obtain ⟨d, e, hs⟩ := h.owned n ((hlive n hn).symm.trans hl)
    exact ⟨d, e, hs, hkeep n d e hn hs⟩
  -- what another mailbox owns afterwards it owned before, as it owns only one thing
  have hback (n : V) (d : D) (e : E) (hn : n ≠ m) (ht : Owns t n d e) : Owns s n d e := by
    obtain ⟨d', e', hs, ht'⟩ := howned n hn ht.live
    obtain ⟨rfl, rfl⟩ := ht.unique ht'
    exact hs
  have hfresh (n : V) (d d' : D) (e e' : E) (hn : n ≠ m) (hm : Owns t m d e)
      (ht : Owns t n d' e') : d' ≠ d ∧ e' ≠ e := by
    obtain ⟨d₀, e₀, hm₀, hne⟩ := hown hm.live
    obtain ⟨rfl, rfl⟩ := hm.unique hm₀
    exact hne n d' e' hn (hback n d' e' hn ht)
  -- a live mailbox is `m` or was live before; two that share something are not both old
  refine ⟨fun n hl => ?_, fun n k d d' e e' hn hk hshare => ?_⟩
  · by_cases hn : n = m
    · subst hn
      obtain ⟨d, e, hm, -⟩ := hown hl
      exact ⟨d, e, hm⟩
    · obtain ⟨d, e, -, ht⟩ := howned n hn hl
      exact ⟨d, e, ht⟩
  · by_cases hnm : n = m
    · by_cases hkm : k = m
      · exact hnm.trans hkm.symm
      · subst hnm
        obtain ⟨hd, he⟩ := hfresh k d d' e e' hkm hn hk
        exact hshare.elim (fun h => absurd h.symm hd) fun h => absurd h.symm he
    · by_cases hkm : k = m
      · subst hkm
        obtain ⟨hd, he⟩ := hfresh n d' d e' e hnm hk hn
        exact hshare.elim (fun h => absurd h hd) fun h => absurd h he
      · exact h.apart n k d d' e e' (hback n d e hnm hn) (hback k d' e' hkm hk) hshare

/-- Nothing is left of `m`, and the other mailboxes keep what they own. -/
theorem Inv.of_cleared (h : Inv s) (hm : t.live m = false)
    (hother : ∀ n, n ≠ m → t.live n = s.live n ∧ t.mbox n = s.mbox n)
    (hkeep : ∀ n d e, n ≠ m → Owns s n d e →
      t.pQ d = some e ∧ t.allocated d = true ∧ (t.queue e).isSome = true) : Inv t := by
  refine h.of_replace (fun n hn => (hother n hn).1) (fun n d e hn hown => ?_) fun hlive => ?_
  · obtain ⟨hpQ, hallocated, hqueue⟩ := hkeep n d e hn hown
    obtain ⟨hlive, hmbox⟩ := hother n hn
    exact ⟨hlive.trans hown.live, hmbox.trans hown.mbox, hpQ, hallocated, hqueue⟩
  · exact absurd (hm.symm.trans hlive) Bool.false_ne_true

end Ownership

/-! ## Every operation keeps that -/

section Steps

variable {s t : State V D E α} {m : V} {d : D} {e : E}

theorem Inv.withQueue [DecidableEq E] (h : Inv s) {f : OsQ α → Option (OsQ α)}
    (hlive : s.live m = true) (hstep : s.withQueue m f = some t) : Inv t := by
  obtain ⟨d, e, hm⟩ := h.owned m hlive
  simp only [State.withQueue, hm.mbox, hm.pQ, Option.bind_some, Option.bind_eq_some_iff,
    Option.map_eq_some_iff] at hstep
  obtain ⟨q, -, q', -, rfl⟩ := hstep
  refine h.of_replace (m := m) (fun n _ => rfl) (fun n d' e' hn hown => ?_)
    fun _ => ⟨d, e, ?_, ?_⟩
  · obtain ⟨-, he⟩ := h.ne_of_owns hn hown hm
    exact ⟨hown.live, hown.mbox, hown.pQ, hown.allocated,
      (congrArg _ (Function.update_of_ne he _ _)).trans hown.queue⟩
  · exact ⟨hm.live, hm.mbox, hm.pQ, hm.allocated, by simp⟩
  · intro n d' e' hn hown
    exact h.ne_of_owns hn hown hm

/-- The kernel's part of an operation leaves the variables as they are. -/
theorem withQueue_mbox [DecidableEq E] {f : OsQ α → Option (OsQ α)}
    (hstep : s.withQueue m f = some t) : t.mbox = s.mbox ∧ t.live = s.live := by
  simp only [State.withQueue, Option.bind_eq_some_iff, Option.map_eq_some_iff] at hstep
  obtain ⟨d, -, e, -, q, -, q', -, rfl⟩ := hstep
  exact ⟨rfl, rfl⟩

variable [DecidableEq V]

/-- The variable and the life of one mailbox change; the others keep theirs. -/
theorem update_other (s : State V D E α) {b : Bool} {o : Option D} {n : V} (hn : n ≠ m) :
    Function.update s.live m b n = s.live n ∧ Function.update s.mbox m o n = s.mbox n :=
  ⟨Function.update_of_ne hn _ _, Function.update_of_ne hn _ _⟩

theorem Inv.setInvalid (h : Inv s) (m : V) : Inv (s.sysMboxSetInvalid m) :=
  h.of_cleared (Function.update_self ..) (fun _ hn => update_other s hn)
    fun _ _ _ _ hown => ⟨hown.pQ, hown.allocated, hown.queue⟩

variable [DecidableEq D] [DecidableEq E]

theorem Inv.free (h : Inv s) (hlive : s.live m = true) (hstep : s.sysMboxFree m = some t) :
    Inv t := by
  obtain ⟨d, e, hm⟩ := h.owned m hlive
  simp only [State.sysMboxFree, hm.mbox, hm.pQ, Option.bind_some, Option.map_some,
    Option.some.injEq] at hstep
  subst hstep
  refine h.of_cleared (Function.update_self ..) (fun _ hn => update_other s hn)
    fun n d' e' hn hown => ?_
  obtain ⟨hd, he⟩ := h.ne_of_owns hn hown hm
  exact ⟨hown.pQ, (Function.update_of_ne hd _ _).trans hown.allocated,
    (congrArg _ (Function.update_of_ne he _ _)).trans hown.queue⟩

theorem Inv.new (h : Inv s) {size : ℕ} {block : Option D} {event : Option E}
    (hblock : ∀ d, block = some d → s.allocated d = false)
    (hevent : ∀ e, event = some e → s.queue e = none) :
    Inv (s.sysMboxNew m size block event) := by
  cases block with
  | none =>
    exact h.of_cleared (Function.update_self ..) (fun _ hn => update_other s hn)
      fun _ _ _ _ hown => ⟨hown.pQ, hown.allocated, hown.queue⟩
  | some d =>
    -- what is handed out was not in use
    have hd (n : V) (d' : D) (e' : E) (hown : Owns s n d' e') : d' ≠ d := by
      intro hd
      have := hown.allocated
      rw [hd, hblock d rfl] at this
      exact Bool.false_ne_true this
    cases event with
    | none =>
      refine h.of_cleared (Function.update_self ..) (fun _ hn => update_other s hn)
        fun n d' e' _ hown => ⟨?_, hown.allocated, hown.queue⟩
      exact (Function.update_of_ne (hd n d' e' hown) _ _).trans hown.pQ
    | some e =>
      have he (n : V) (d' : D) (e' : E) (hown : Owns s n d' e') : e' ≠ e := by
        intro he
        have := hown.queue
        rw [he, hevent e rfl] at this
        exact Bool.false_ne_true this
      refine h.of_replace (fun _ hn => Function.update_of_ne hn _ _)
        (fun n d' e' hn hown => ?_) fun _ => ⟨d, e, ?_, ?_⟩
      · exact ⟨(Function.update_of_ne hn _ _).trans hown.live,
          (Function.update_of_ne hn _ _).trans hown.mbox,
          (Function.update_of_ne (hd n d' e' hown) _ _).trans hown.pQ,
          (Function.update_of_ne (hd n d' e' hown) _ _).trans hown.allocated,
          (congrArg _ (Function.update_of_ne (he n d' e' hown) _ _)).trans hown.queue⟩
      · constructor <;> simp [State.sysMboxNew]
      · exact fun n d' e' _ hown => ⟨hd n d' e' hown, he n d' e' hown⟩

/-- Every operation keeps the live mailboxes apart. -/
theorem Inv.step (h : Inv s) (op : Op V D E α) (hstep : (mailboxes V D E α).step s op = some t) :
    Inv t := by
  cases op with
  | new m size block event =>
    simp only [mailboxes, Option.ite_none_right_eq_some, Option.some.injEq] at hstep
    obtain ⟨⟨hblock, hevent⟩, rfl⟩ := hstep
    refine h.new (fun d hd => ?_) fun e he => ?_
    · simpa [hd] using hblock
    · simpa [he] using hevent
  | free m =>
    simp only [mailboxes, Option.ite_none_right_eq_some] at hstep
    exact h.free hstep.1 hstep.2
  | setInvalid m =>
    cases hstep
    exact h.setInvalid m
  | post m msg =>
    simp only [mailboxes, Option.ite_none_right_eq_some] at hstep
    exact h.withQueue hstep.1 hstep.2
  | trypost m msg =>
    simp only [mailboxes, Option.ite_none_right_eq_some] at hstep
    exact h.withQueue hstep.1 hstep.2
  | fetch m =>
    simp only [mailboxes, Option.ite_none_right_eq_some] at hstep
    exact h.withQueue hstep.1 hstep.2
  | timeout m =>
    simp only [mailboxes, Option.ite_none_right_eq_some] at hstep
    exact h.withQueue hstep.1 hstep.2

theorem inv_of_reachable (h : (mailboxes V D E α).Reachable s) : Inv s :=
  h.invariant inv_init fun _ op _ hinv hstep => hinv.step op hstep

end Steps

/-! ## When validity is liveness -/

section Validity

variable {s : State V D E α} {m : V}

/-- The port answers 1 when the variable leads to a queue with room. -/
theorem sysMboxValid_eq_one_iff :
    sysMboxValid s m = 1 ↔ ∃ q, s.queueOf m = some q ∧ q.osqEntries.length < q.osqSize := by
  unfold sysMboxValid
  cases hq : s.queueOf m with
  | none => simp [OsQ.osqQuery]
  | some q => simp [OsQ.osqQuery]

/-- A step on `m` that leaves `m` live or null keeps the variables of mailboxes that are not
live null. -/
theorem null_of_replace {t : State V D E α} (hnull : ∀ n, s.live n = false → s.mbox n = none)
    (hother : ∀ n, n ≠ m → t.live n = s.live n ∧ t.mbox n = s.mbox n)
    (hm : t.live m = false → t.mbox m = none) (n : V) (hn : t.live n = false) :
    t.mbox n = none := by
  by_cases hnm : n = m
  · subst hnm
    exact hm hn
  · rw [(hother n hnm).2]
    exact hnull n ((hother n hnm).1.symm.trans hn)

/-- The fill levels at which the answer of the port says whether the mailbox is live. -/
structure Clear (s : State V D E α) (m : V) : Prop where
  /-- The queue of a live mailbox is not full. -/
  room : s.live m = true → ∀ q, s.queueOf m = some q → q.osqEntries.length < q.osqSize
  /-- The pointer that a failed creation left behind leads to no queue with room. -/
  stale : s.live m = false → ∀ q, s.queueOf m = some q → q.osqSize ≤ q.osqEntries.length

/-- The port answers 1 for the live mailboxes and for no others, if and only if live mailboxes are
not full and pointers left behind lead to no queue with room. -/
theorem Inv.valid_iff_live_iff (h : Inv s) (m : V) :
    (sysMboxValid s m = 1 ↔ s.live m = true) ↔ Clear s m := by
  rw [sysMboxValid_eq_one_iff]
  constructor
  · -- an answer that tells who is live shows room in live mailboxes and nowhere else
    intro hvalid
    refine ⟨fun hlive q hq => ?_, fun hlive q hq => ?_⟩
    · obtain ⟨q', hq', hroom⟩ := hvalid.2 hlive
      cases hq.symm.trans hq'
      exact hroom
    · by_contra hroom
      have hm := hvalid.1 ⟨q, hq, Nat.lt_of_not_le hroom⟩
      exact Bool.false_ne_true (hlive.symm.trans hm)
  · intro hclear
    constructor
    · rintro ⟨q, hq, hroom⟩
      by_contra hlive
      exact Nat.not_lt_of_le (hclear.stale (Bool.eq_false_iff.2 hlive) q hq) hroom
    · intro hlive
      -- a live mailbox has a queue, which is not full
      obtain ⟨d, e, hown⟩ := h.owned m hlive
      obtain ⟨q, hq⟩ := Option.isSome_iff_exists.1 hown.queue
      have hqueue := hown.queueOf.trans hq
      exact ⟨q, hqueue, hclear.room hlive q hqueue⟩

variable [DecidableEq V] [DecidableEq D] [DecidableEq E]

/-- In every reachable state the port answers 1 for the live mailboxes and for no others, if
and only if live mailboxes are not full and pointers left behind lead to no queue with room. -/
theorem sysMboxValid_iff (h : (mailboxes V D E α).Reachable s) (m : V) :
    (sysMboxValid s m = 1 ↔ s.live m = true) ↔ Clear s m :=
  (inv_of_reachable h).valid_iff_live_iff m

/-- The creation of a mailbox fails and leaves a pointer to a descriptor, which another mailbox
gets. That one is posted four messages, of which one is fetched. -/
def leftBehind : List (Op ℕ ℕ ℕ ℕ) :=
  [.new 1 20 (some 0) none, .new 0 20 (some 0) (some 0), .post 0 (some 5), .post 0 none, .fetch 0,
    .trypost 0 (some 6), .trypost 0 (some 7)]

theorem sysMboxValid_iff_of_new :
    ∃ s, (mailboxes ℕ ℕ ℕ ℕ).run (mailboxes ℕ ℕ ℕ ℕ).init leftBehind = some s ∧
      s.queueOf 0 = some ⟨20, [none, some 6, some 7], 0⟩ ∧ s.queueOf 1 = s.queueOf 0 ∧
      ((sysMboxValid s 0 = 1 ↔ s.live 0 = true) ↔ Clear s 0) ∧
      ((sysMboxValid s 1 = 1 ↔ s.live 1 = true) ↔ Clear s 1) := by
  refine ⟨_, rfl, rfl, rfl, ?_, ?_⟩
  · exact sysMboxValid_iff ⟨leftBehind, Machine.exec_of_run rfl⟩ 0
  · exact sysMboxValid_iff ⟨leftBehind, Machine.exec_of_run rfl⟩ 1

/-- Twenty messages that nobody fetches make a live mailbox invalid. -/
theorem full_mailbox_not_valid :
    ∃ s : State ℕ ℕ ℕ ℕ, (mailboxes ℕ ℕ ℕ ℕ).run (mailboxes ℕ ℕ ℕ ℕ).init
        (.new 0 20 (some 0) (some 0) :: List.replicate 20 (.trypost 0 none)) = some s ∧
      ¬(sysMboxValid s 0 = 1 ↔ s.live 0 = true) := by
  refine ⟨_, rfl, ?_⟩
  decide

/-! ## Pointers left behind -/

/-- A creation that gets a descriptor gets a queue. -/
def Complete (_ : State V D E α) : Op V D E α → Prop
  | .new _ _ block event => block.isSome = true → event.isSome = true
  | _ => True

/-- Unless a creation fails between its two allocations, the variables of mailboxes that are
not live are null. -/
theorem null_of_complete {es : List (Op V D E α)}
    (h : (mailboxes V D E α).Exec Complete (mailboxes V D E α).init es s) :
    ∀ m, s.live m = false → s.mbox m = none := by
  refine h.invariant (P := fun s => ∀ m, s.live m = false → s.mbox m = none) (fun _ _ => rfl) ?_
  intro s op t hnull hcomplete hstep
  have hqueue {m : V} {f : OsQ α → Option (OsQ α)} (hf : s.withQueue m f = some t) :
      ∀ m, t.live m = false → t.mbox m = none := by
    obtain ⟨hmbox, hlive⟩ := withQueue_mbox hf
    rwa [hmbox, hlive]
  cases op with
  | new m size block event =>
    simp only [mailboxes, Option.ite_none_right_eq_some, Option.some.injEq] at hstep
    obtain ⟨-, rfl⟩ := hstep
    cases block with
    | none =>
      exact null_of_replace hnull (fun n hn => update_other s hn) fun _ => Function.update_self ..
    | some d =>
      obtain ⟨e, rfl⟩ := Option.isSome_iff_exists.1 (hcomplete rfl)
      apply null_of_replace hnull (fun n hn => update_other s hn)
      intro hm
      exact absurd (hm.symm.trans (Function.update_self ..)) Bool.false_ne_true
  | free m =>
    simp only [mailboxes, Option.ite_none_right_eq_some, State.sysMboxFree,
      Option.bind_eq_some_iff, Option.map_eq_some_iff] at hstep
    obtain ⟨-, d, -, e, -, rfl⟩ := hstep
    exact null_of_replace hnull (fun n hn => update_other s hn) fun _ => Function.update_self ..
  | setInvalid m =>
    cases hstep
    exact null_of_replace hnull (fun n hn => update_other s hn) fun _ => Function.update_self ..
  | post m msg =>
    simp only [mailboxes, Option.ite_none_right_eq_some] at hstep
    exact hqueue hstep.2
  | trypost m msg =>
    simp only [mailboxes, Option.ite_none_right_eq_some] at hstep
    exact hqueue hstep.2
  | fetch m =>
    simp only [mailboxes, Option.ite_none_right_eq_some] at hstep
    exact hqueue hstep.2
  | timeout m =>
    simp only [mailboxes, Option.ite_none_right_eq_some] at hstep
    exact hqueue hstep.2

/-- In such runs only live mailboxes are reported valid. -/
theorem live_of_valid {es : List (Op V D E α)}
    (h : (mailboxes V D E α).Exec Complete (mailboxes V D E α).init es s)
    (hvalid : sysMboxValid s m = 1) : s.live m = true := by
  obtain ⟨q, hq, -⟩ := sysMboxValid_eq_one_iff.1 hvalid
  by_contra hlive
  have hnull := null_of_complete h m (Bool.eq_false_iff.2 hlive)
  rw [State.queueOf, hnull] at hq
  cases hq

end Validity

end FanGateway.Port
