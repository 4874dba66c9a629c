import FanGateway.Kernel.Refinement

/-!
# The mailboxes of the network stack over the kernel

The functions of the port call the kernel, while its other tasks and its interrupts go on.
Whatever the variables, the descriptors and the queues do in such a run, the mailboxes of
the port can do as well, so that what is known of them holds on the kernel. The two may
differ in how many tasks wait for a queue that no live mailbox leads to: its mailbox has
been set invalid while they wait.

A call of the port and its call of the kernel are one step.
-/

namespace FanGateway

open Lib

namespace Port.OsQ

variable {α : Type*}

/-- The queue with the messages that a fetch hands out: the address of `pvNullPointer` becomes the
null pointer again. -/
def fetched (q : OsQ (Option α)) : OsQ α :=
  ⟨q.osqSize, q.osqEntries.map Option.join, q.waiting⟩

theorem fetched_osqPost (q : OsQ (Option α)) (msg : Option α) :
    (q.osqPost (some msg)).2.fetched = (q.fetched.osqPost msg).2 := by
  rw [osqPost, osqPost]
  simp only [fetched, List.length_map]
  split_ifs
  · rfl
  · rfl
  · rw [List.map_append]
    rfl

theorem fetched_osqPend (q : OsQ (Option α)) : q.osqPend.fetched = q.fetched.osqPend := by
  rw [osqPend, osqPend]
  simp only [fetched, List.length_map]
  split_ifs
  · rw [List.map_tail]
  · rfl

/-- The size and the messages, without the tasks that wait. -/
def level (q : OsQ α) : ℕ × List (Option α) := ⟨q.osqSize, q.osqEntries⟩

end Port.OsQ

namespace Kernel

/-! ## The port over the kernel -/

/-- Who calls the kernel: the main program before multitasking, the running task, or an
interrupt. -/
inductive Caller
  | main
  | task
  | isr
  deriving DecidableEq

def Caller.step {α : Type*} (c : Call α) : Caller → Step α
  | main => .main c
  | task => .call c
  | isr => .isr c

/-- `OSQQuery`: its error code, the number of messages and the size. -/
def State.osqQuery {α : Type*} (s : State α) (e : EventId) : OsErr × ℕ × ℕ :=
  match (s.osEventTbl e).content with
  | .q pq => (.none, pq.osqQuery.2)
  | _ => (.eventType, 0, 0)

/-- The kernel with the mailbox variables `V` and the descriptors `D` of the port. Its messages
are pointers that are not null, of which `none` is the address of `pvNullPointer`. -/
structure Ported (V D α : Type*) where
  os : State (Option α)
  /-- What a variable points to; `none` is the null pointer. -/
  mbox : V → Option D
  /-- The `pQ` field of a descriptor, also of one that has been given back. -/
  pQ : D → Option EventId
  allocated : D → Bool
  /-- The mailbox has been created and neither freed nor set invalid since. -/
  live : V → Bool

/-- A step of the kernel, or a function of the port. A creation comes with the descriptor that the
allocation returns; `trypost` is also a round of `sys_mbox_post`. -/
inductive Act (V D α : Type*)
  | os (a : Step (Option α))
  | new (who : Caller) (m : V) (size : ℕ) (block : Option D)
  | free (who : Caller) (m : V)
  | setInvalid (m : V)
  | trypost (who : Caller) (m : V) (msg : Option α)
  | fetch (m : V) (timeout : ℕ)

variable {V D α : Type*}

namespace Ported

def call (s : Ported V D α) (who : Caller) (c : Call (Option α)) : Option (Ported V D α) :=
  (s.os.step (who.step c)).map fun os => { s with os := os }

/-- The event block a variable leads to. -/
def eventOf (s : Ported V D α) (m : V) : Option EventId := (s.mbox m).bind s.pQ

/-- `sys_mbox_trypost`. -/
def sysMboxTrypost (s : Ported V D α) (who : Caller) (m : V) (msg : Option α) :
    Option (Ported V D α) :=
  (s.eventOf m).bind fun e => s.call who (.osqPost e (some msg))

/-- The `OSQPend` of `sys_arch_mbox_fetch`. -/
def sysArchMboxFetch (s : Ported V D α) (m : V) (timeout : ℕ) : Option (Ported V D α) :=
  (s.eventOf m).bind fun e => s.call .task (.osqPend e timeout)

/-- `sys_mbox_valid`. At the address 0 there is no queue. -/
def sysMboxValid (s : Ported V D α) (m : V) : ℕ :=
  let (ucErr, osNMsgs, osqSize) := ((s.eventOf m).map s.os.osqQuery).getD (.eventType, 0, 0)
  if (ucErr = .none ∨ ucErr = .eventType) ∧ osNMsgs < osqSize then 1 else 0

variable [DecidableEq V] [DecidableEq D]

/-- `sys_mbox_new`. -/
def sysMboxNew (s : Ported V D α) (who : Caller) (m : V) (size : ℕ) (block : Option D) :
    Option (Ported V D α) :=
  match block with
  | none =>
    some { s with
      mbox := Function.update s.mbox m none
      live := Function.update s.live m false }
  | some d =>
    let s := { s with mbox := Function.update s.mbox m (some d) }
    -- `MAX_QUEUE_ENTRIES`
    let size := if size > 20 then 20 else size
    (s.call who (.osqCreate (fun _ => none) size)).map fun t =>
      match (s.os.osqCreate (fun _ => none) size).2 with
      | some e =>
        { t with
          pQ := Function.update t.pQ d (some e)
          allocated := Function.update t.allocated d true
          live := Function.update t.live m true }
      | none =>
        { t with
          pQ := Function.update t.pQ d none
          live := Function.update t.live m false }

/-- `sys_mbox_set_invalid`. -/
def sysMboxSetInvalid (s : Ported V D α) (m : V) : Ported V D α :=
  { s with mbox := Function.update s.mbox m none, live := Function.update s.live m false }

/-- `sys_mbox_free`. -/
def sysMboxFree (s : Ported V D α) (who : Caller) (m : V) : Option (Ported V D α) :=
  (s.mbox m).bind fun d => (s.pQ d).bind fun e => (s.call who (.osqDel e)).map fun t =>
    sysMboxSetInvalid { t with allocated := Function.update t.allocated d false } m

end Ported

/-- The kernel and the port from boot on. No other code calls the kernel's queues, and interrupts do
not free mailboxes. An allocation returns what is not in use; only live mailboxes are freed, posted
to and fetched from. -/
def ported (V D α : Type*) [DecidableEq V] [DecidableEq D] :
    Machine (Ported V D α) (Act V D α) where
  init := ⟨State.osInit (Option α), fun _ => none, fun _ => none, fun _ => false, fun _ => false⟩
  step s
    | .os a => if a.onQueue then none else (s.os.step a).map fun os => { s with os := os }
    | .new who m size block =>
      if block.all (fun d => !s.allocated d) then s.sysMboxNew who m size block else none
    | .free who m => if s.live m ∧ who ≠ .isr then s.sysMboxFree who m else none
    | .setInvalid m => some (s.sysMboxSetInvalid m)
    | .trypost who m msg => if s.live m then s.sysMboxTrypost who m msg else none
    | .fetch m timeout => if s.live m then s.sysArchMboxFetch m timeout else none

/-! ## The kernel's part of a call -/

namespace State

variable {s t : State α} {who : Caller} {c : Call α}

/-- A call of the kernel changes the event blocks as its first critical section does. -/
theorem osEventTbl_step (h : s.step (who.step c) = some t) :
    t.osEventTbl = (s.call c).1.osEventTbl := by
  cases who with
  | main =>
    cases steps_of_step h with
    | main => rfl
  | task =>
    cases steps_of_step h with
    | call => rfl
  | isr =>
    cases steps_of_step h with
    | isr => rfl

theorem osIntNesting_of_step (hsched : Sched s) (h : s.step (who.step c) = some t)
    (hwho : who ≠ .isr) : s.osIntNesting = 0 := by
  cases who with
  | main =>
    cases steps_of_step h with
    | main hstopped => exact (hsched.stopped hstopped).1
  | task =>
    cases steps_of_step h with
    | call hat => exact hat.2.1
  | isr => exact absurd rfl hwho

/-- The queue in an event block as the functions of the port use it. -/
def toMbox (s : State (Option α)) (e : EventId) : Option (Port.OsQ α) :=
  (s.toPort e).map Port.OsQ.fetched

theorem toMbox_of_toPort {s t : State (Option α)} (h : t.toPort = s.toPort) :
    t.toMbox = s.toMbox := by
  funext e
  rw [toMbox, toMbox, h]

theorem toMbox_update {s t : State (Option α)} {e : EventId}
    {q : Option (Port.OsQ (Option α))} (h : t.toPort = Function.update s.toPort e q) :
    t.toMbox = Function.update s.toMbox e (q.map Port.OsQ.fetched) := by
  funext e'
  rw [toMbox, h]
  by_cases he : e' = e
  · rw [he, Function.update_self, Function.update_self]
  · rw [Function.update_of_ne he, Function.update_of_ne he, toMbox]

end State

/-! ## The mailboxes follow -/

namespace Ported

/-- The state of the port with these queues. -/
def port (s : Ported V D α) (queue : EventId → Option (Port.OsQ α)) : Port.State V D EventId α :=
  ⟨s.mbox, s.pQ, s.allocated, queue, s.live⟩

/-- The queues have the sizes and the messages of the kernel's, and those of live mailboxes are the
kernel's. -/
structure Tracks (s : Ported V D α) (queue : EventId → Option (Port.OsQ α)) : Prop where
  level : ∀ e, (queue e).map Port.OsQ.level = (s.os.toMbox e).map Port.OsQ.level
  owned : ∀ m d e, Port.Owns (s.port queue) m d e → queue e = s.os.toMbox e

variable {s t : Ported V D α} {queue : EventId → Option (Port.OsQ α)} {m : V} {d : D} {e : EventId}

theorem Tracks.of_same (h : Tracks s queue) (hos : t.os.toMbox = s.os.toMbox)
    (hvars : ∀ m d e, Port.Owns (t.port queue) m d e → Port.Owns (s.port queue) m d e) :
    Tracks t queue where
  level e := by rw [hos, h.level]
  owned m d e hown := by rw [hos, h.owned m d e (hvars m d e hown)]

/-- A queue changes on both sides, and the other live mailboxes are as before. -/
theorem Tracks.update {q : Option (Port.OsQ α)} (h : Tracks s queue)
    (hos : t.os.toMbox = Function.update s.os.toMbox e q)
    (hvars : ∀ m d e', e' ≠ e → Port.Owns (t.port (Function.update queue e q)) m d e' →
      Port.Owns (s.port queue) m d e') : Tracks t (Function.update queue e q) := by
  refine ⟨fun e' => ?_, fun m d e' hown => ?_⟩
  · rw [hos]
    by_cases he : e' = e
    · rw [he, Function.update_self, Function.update_self]
    · rw [Function.update_of_ne he, Function.update_of_ne he, h.level]
  · rw [hos]
    by_cases he : e' = e
    · rw [he, Function.update_self, Function.update_self]
    · rw [Function.update_of_ne he, Function.update_of_ne he]
      exact h.owned m d e' (hvars m d e' he hown)

/-- What a live mailbox leads to on either side. -/
theorem Tracks.queue_eq (h : Tracks s queue) (hinv : Port.Inv (s.port queue))
    (hlive : s.live m = true) :
    ∃ d e q, Port.Owns (s.port queue) m d e ∧ s.eventOf m = some e ∧ queue e = some q ∧
      s.os.toMbox e = some q := by
  obtain ⟨d, e, hown⟩ := hinv.owned m hlive
  obtain ⟨q, hq⟩ := Option.isSome_iff_exists.mp hown.queue
  have hevent : s.eventOf m = some e := by
    rw [eventOf, show s.mbox m = some d from hown.mbox]
    exact hown.pQ
  exact ⟨d, e, q, hown, hevent, hq, (h.owned m d e hown).symm.trans hq⟩

/-- Changes of the queue of a live mailbox. -/
theorem withQueue_port {f : Port.OsQ α → Option (Port.OsQ α)} {q q' : Port.OsQ α}
    (hown : Port.Owns (s.port queue) m d e) (hq : queue e = some q) (hf : f q = some q') :
    (s.port queue).withQueue m f = some (s.port (Function.update queue e (some q'))) := by
  have hqueue : (s.port queue).queue e = some q := hq
  rw [Port.State.withQueue, hown.mbox, Option.bind_some, hown.pQ, Option.bind_some, hqueue,
    Option.bind_some, hf]
  rfl

/-- Nothing is left of `m`, and the other variables are as before. -/
theorem owns_of_cleared {queue' : EventId → Option (Port.OsQ α)} {n : V} {d' : D} {e' : EventId}
    (hm : t.live m = false)
    (hother : ∀ n, n ≠ m → t.live n = s.live n ∧ t.mbox n = s.mbox n) (hpQ : t.pQ d' = s.pQ d')
    (hallocated : t.allocated d' = true → s.allocated d' = true) (hqueue : queue' e' = queue e')
    (hown : Port.Owns (t.port queue') n d' e') : Port.Owns (s.port queue) n d' e' := by
  have hn : n ≠ m := by
    rintro rfl
    exact Bool.false_ne_true (hm.symm.trans hown.live)
  obtain ⟨hlive, hmbox⟩ := hother n hn
  exact ⟨hlive.symm.trans hown.live, hmbox.symm.trans hown.mbox, hpQ.symm.trans hown.pQ,
    hallocated hown.allocated, (congrArg _ hqueue).symm.trans hown.queue⟩

/-- The variable and the life of one mailbox change; the others keep theirs. -/
theorem update_other [DecidableEq V] (s : Ported V D α) {b : Bool} {o : Option D} {n : V}
    (hn : n ≠ m) :
    Function.update s.live m b n = s.live n ∧ Function.update s.mbox m o n = s.mbox n :=
  ⟨Function.update_of_ne hn _ _, Function.update_of_ne hn _ _⟩

theorem os_call {who : Caller} {c : Call (Option α)} (h : s.call who c = some t) :
    ∃ a, s.os.step a = some t.os := by
  obtain ⟨os, hos, rfl⟩ := Option.map_eq_some_iff.mp h
  exact ⟨_, hos⟩

variable [DecidableEq V] [DecidableEq D]

/-- The mailboxes of the port do the same. -/
def Follows (s t : Ported V D α) (queue : EventId → Option (Port.OsQ α)) : Prop :=
  ∃ ops queue', (Port.mailboxes V D EventId α).run (s.port queue) ops = some (t.port queue') ∧
    Tracks t queue'

/-- A step of the kernel that is no call of a queue. The mailboxes do something only if it ends a
wait for a queue that a live mailbox leads to. -/
theorem Tracks.os (h : Tracks s queue) (hsched : State.Sched s.os) {a : Step (Option α)}
    {os : State (Option α)} (ha : a.onQueue = false) (hstep : s.os.step a = some os) :
    Follows s { s with os := os } queue := by
  rcases State.toPort_step hsched hstep ha with hsame | ⟨e, q, hq, hwaiting, hless⟩
  · exact ⟨[], queue, rfl, h.of_same (State.toMbox_of_toPort hsame) fun _ _ _ => id⟩
  · have hmbox := State.toMbox_update hless
    by_cases howned : ∃ m d, Port.Owns (s.port queue) m d e
    · obtain ⟨m, d, hown⟩ := howned
      have hkernel : queue e = some q.fetched := by
        rw [h.owned m d e hown, State.toMbox, hq]
        rfl
      refine ⟨[.timeout m], _, ?_, h.update hmbox fun m' d' e' he hown' => ?_⟩
      · rw [Machine.run_singleton]
        exact (if_pos hown.live).trans (withQueue_port hown hkernel (if_pos hwaiting))
      · exact ⟨hown'.live, hown'.mbox, hown'.pQ, hown'.allocated,
          (congrArg _ (Function.update_of_ne he _ _)).symm.trans hown'.queue⟩
    · refine ⟨[], queue, rfl, fun e' => ?_, fun m d e' hown => ?_⟩
      · rw [h.level, hmbox]
        by_cases he : e' = e
        · rw [he, Function.update_self, State.toMbox, hq]
          rfl
        · rw [Function.update_of_ne he]
      · have he : e' ≠ e := by
          rintro rfl
          exact howned ⟨m, d, hown⟩
        rw [hmbox, Function.update_of_ne he]
        exact h.owned m d e' hown

theorem Tracks.sysMboxTrypost (h : Tracks s queue) (hinv : Port.Inv (s.port queue))
    {who : Caller} {msg : Option α} (hlive : s.live m = true)
    (hstep : s.sysMboxTrypost who m msg = some t) : Follows s t queue := by
  obtain ⟨d, e, q, hown, hevent, hq, hkernel⟩ := h.queue_eq hinv hlive
  simp only [Ported.sysMboxTrypost, hevent, Option.bind_some, Ported.call,
    Option.map_eq_some_iff] at hstep
  obtain ⟨os, hos, rfl⟩ := hstep
  have hport : os.toPort = (s.os.osqPost e (some msg)).1.toPort :=
    State.toPort_of_osEventTbl (State.osEventTbl_step hos)
  obtain ⟨q₀, hq₀, rfl⟩ := Option.map_eq_some_iff.mp hkernel
  have hmbox := State.toMbox_update (hport.trans State.toPort_osqPost_update)
  rw [hq₀, Option.map_some, Option.map_some, Port.OsQ.fetched_osqPost] at hmbox
  refine ⟨[.trypost m msg], _, ?_, h.update hmbox fun m' d' e' he hown' => ?_⟩
  · rw [Machine.run_singleton]
    exact (if_pos hown.live).trans
      (withQueue_port (f := fun q => some (q.osqPost msg).2) hown hq rfl)
  · exact ⟨hown'.live, hown'.mbox, hown'.pQ, hown'.allocated,
      (congrArg _ (Function.update_of_ne he _ _)).symm.trans hown'.queue⟩

theorem Tracks.sysArchMboxFetch (h : Tracks s queue) (hinv : Port.Inv (s.port queue))
    (hsched : State.Sched s.os) {timeout : ℕ} (hlive : s.live m = true)
    (hstep : s.sysArchMboxFetch m timeout = some t) : Follows s t queue := by
  obtain ⟨d, e, q, hown, hevent, hq, hkernel⟩ := h.queue_eq hinv hlive
  simp only [Ported.sysArchMboxFetch, hevent, Option.bind_some, Ported.call,
    Option.map_eq_some_iff] at hstep
  obtain ⟨os, hos, rfl⟩ := hstep
  have hport : os.toPort = (s.os.osqPend e timeout).1.toPort :=
    State.toPort_of_osEventTbl (State.osEventTbl_step hos)
  have hcalls : s.os.Steps (.call (.osqPend e timeout)) os := State.steps_of_step hos
  obtain ⟨hat, hpc⟩ : s.os.AtTask ∧ s.os.pc s.os.osPrioCur = .user := by
    cases hcalls with
    | call hat _ hpc => exact ⟨hat, hpc⟩
  by_cases hlock : s.os.osLockNesting = 0
  · obtain ⟨q₀, hq₀, rfl⟩ := Option.map_eq_some_iff.mp hkernel
    have hmbox := State.toMbox_update
      (hport.trans (State.toPort_osqPend_update hsched.core hat.2.1 hlock hpc))
    rw [hq₀, Option.map_some, Option.map_some, Port.OsQ.fetched_osqPend] at hmbox
    refine ⟨[.fetch m], _, ?_, h.update hmbox fun m' d' e' he hown' => ?_⟩
    · rw [Machine.run_singleton]
      exact (if_pos hown.live).trans
        (withQueue_port (f := fun q => some q.osqPend) hown hq rfl)
    · exact ⟨hown'.live, hown'.mbox, hown'.pQ, hown'.allocated,
        (congrArg _ (Function.update_of_ne he _ _)).symm.trans hown'.queue⟩
  · -- with the scheduler locked the pend fails
    rw [State.osqPend_of_locked hlock] at hport
    exact ⟨[], queue, rfl, h.of_same (State.toMbox_of_toPort hport) fun _ _ _ => id⟩

theorem Tracks.sysMboxSetInvalid (h : Tracks s queue) (m : V) :
    Follows s (s.sysMboxSetInvalid m) queue := by
  refine ⟨[.setInvalid m], queue, rfl, h.of_same rfl fun n d e hown => ?_⟩
  exact owns_of_cleared (t := s.sysMboxSetInvalid m) (Function.update_self ..)
    (fun _ hn => update_other s hn) rfl id rfl hown

theorem Tracks.sysMboxFree (h : Tracks s queue) (hinv : Port.Inv (s.port queue))
    (hsched : State.Sched s.os) {who : Caller} (hlive : s.live m = true) (hwho : who ≠ .isr)
    (hstep : s.sysMboxFree who m = some t) : Follows s t queue := by
  obtain ⟨d, e, hown⟩ := hinv.owned m hlive
  have hd : s.mbox m = some d := hown.mbox
  have he : s.pQ d = some e := hown.pQ
  simp only [Ported.sysMboxFree, hd, he, Option.bind_some, Ported.call, Option.map_map,
    Option.map_eq_some_iff, Function.comp] at hstep
  obtain ⟨os, hos, rfl⟩ := hstep
  have hport : os.toPort = (s.os.osqDel e).1.toPort :=
    State.toPort_of_osEventTbl (State.osEventTbl_step hos)
  have hmbox := State.toMbox_update
    (hport.trans (State.toPort_osqDel (State.osIntNesting_of_step hsched hos hwho)))
  refine ⟨[.free m], _, ?_, h.update hmbox fun n d' e' hne hown' => ?_⟩
  · rw [Machine.run_singleton]
    refine (if_pos hown.live).trans ?_
    rw [Port.State.sysMboxFree, hown.mbox, Option.bind_some, hown.pQ]
    rfl
  · refine owns_of_cleared (t := Ported.sysMboxSetInvalid { s with
      os := os, allocated := Function.update s.allocated d false } m) (Function.update_self ..)
      (fun _ hn => update_other s hn) rfl ?_ (Function.update_of_ne hne _ _) hown'
    intro hallocated
    change Function.update s.allocated d false d' = true at hallocated
    have hd' : d' ≠ d := by
      rintro rfl
      rw [Function.update_self] at hallocated
      cases hallocated
    rwa [Function.update_of_ne hd'] at hallocated

theorem Tracks.sysMboxNew (h : Tracks s queue) (hinv : Port.Inv (s.port queue))
    (hsched : State.Sched s.os) {who : Caller} {size : ℕ} {block : Option D}
    (hblock : block.all fun d => !s.allocated d)
    (hstep : s.sysMboxNew who m size block = some t) : Follows s t queue := by
  cases block with
  | none =>
    obtain rfl := Option.some.inj hstep
    refine ⟨[.new m size none none], queue, rfl, h.of_same rfl fun n d e hown => ?_⟩
    exact owns_of_cleared (t := s.sysMboxSetInvalid m) (Function.update_self ..)
      (fun _ hn => update_other s hn) rfl id rfl hown
  | some d =>
    have hd : s.allocated d = false := by simpa using hblock
    have hne {d' : D} (hallocated : s.allocated d' = true) : d' ≠ d := by
      rintro rfl
      rw [hd] at hallocated
      cases hallocated
    simp only [Ported.sysMboxNew, Ported.call, Option.map_map, Option.map_eq_some_iff,
      Function.comp] at hstep
    obtain ⟨os, hos, rfl⟩ := hstep
    have hport := State.toPort_of_osEventTbl (State.osEventTbl_step hos)
    change os.toPort = (s.os.osqCreate _ (if size > 20 then 20 else size)).1.toPort at hport
    rcases State.toPort_osqCreate hsched.core (fun _ => none) (if size > 20 then 20 else size) with
      ⟨hnone, hsame⟩ | ⟨e, he, hunused, hnew⟩
    · -- the descriptor is given back, and the variable keeps pointing to it
      rw [hnone]
      refine ⟨[.new m size (some d) none], queue, ?_,
        h.of_same (State.toMbox_of_toPort (hport.trans hsame)) fun n d' e' hown => ?_⟩
      · rw [Machine.run_singleton]
        exact if_pos ⟨hblock, rfl⟩
      · refine owns_of_cleared (m := m) ?_ ?_ ?_ ?_ ?_ hown
        · exact Function.update_self ..
        · exact fun _ hn => update_other s hn
        · exact Function.update_of_ne (hne hown.allocated) _ _
        · exact id
        · rfl
    · rw [he]
      have hqueue : queue e = none := by
        have hlevel := h.level e
        rw [State.toMbox, hunused] at hlevel
        exact Option.map_eq_none_iff.mp hlevel
      refine ⟨[.new m size (some d) (some e)], _, ?_,
        h.update (State.toMbox_update (hport.trans hnew)) fun n d' e' hother hown => ?_⟩
      · rw [Machine.run_singleton]
        refine if_pos ⟨hblock, ?_⟩
        rw [Option.all_some, show (s.port queue).queue e = none from hqueue]
        rfl
      · -- what else is live was live before, and `m` leads to the new queue only
        have hn : n ≠ m := by
          rintro rfl
          have hd' : Function.update s.mbox n (some d) n = some d' := hown.mbox
          rw [Function.update_self, Option.some.injEq] at hd'
          have he' : Function.update s.pQ d (some e) d' = some e' := hown.pQ
          rw [← hd', Function.update_self, Option.some.injEq] at he'
          exact hother he'.symm
        have hlive : s.live n = true := (Function.update_of_ne hn _ _).symm.trans hown.live
        obtain ⟨d'', e'', hold⟩ := hinv.owned n hlive
        have hmbox : s.mbox n = some d' := (Function.update_of_ne hn _ _).symm.trans hown.mbox
        obtain rfl : d'' = d' := Option.some.inj (hold.mbox.symm.trans hmbox)
        have hpQ : s.pQ d'' = some e' :=
          (Function.update_of_ne (hne hold.allocated) _ _).symm.trans hown.pQ
        obtain rfl : e'' = e' := Option.some.inj (hold.pQ.symm.trans hpQ)
        exact hold

/-! ## Every run -/

/-- The mailboxes of the port follow every step. -/
theorem Tracks.step {a : Act V D α} (h : Tracks s queue) (hinv : Port.Inv (s.port queue))
    (hsched : State.Sched s.os) (hstep : (ported V D α).step s a = some t) :
    Follows s t queue := by
  cases a with
  | os a =>
    simp only [ported, Option.ite_none_left_eq_some, Option.map_eq_some_iff] at hstep
    obtain ⟨ha, os, hos, rfl⟩ := hstep
    exact h.os hsched (Bool.eq_false_iff.mpr ha) hos
  | new who m size block =>
    simp only [ported, Option.ite_none_right_eq_some] at hstep
    exact h.sysMboxNew hinv hsched hstep.1 hstep.2
  | free who m =>
    simp only [ported, Option.ite_none_right_eq_some] at hstep
    exact h.sysMboxFree hinv hsched hstep.1.1 hstep.1.2 hstep.2
  | setInvalid m =>
    obtain rfl := Option.some.inj hstep
    exact h.sysMboxSetInvalid m
  | trypost who m msg =>
    simp only [ported, Option.ite_none_right_eq_some] at hstep
    exact h.sysMboxTrypost hinv hstep.1 hstep.2
  | fetch m timeout =>
    simp only [ported, Option.ite_none_right_eq_some] at hstep
    exact h.sysArchMboxFetch hinv hsched hstep.1 hstep.2

/-- Every step is a step of the kernel or leaves the kernel alone. -/
theorem os_step {a : Act V D α} (hstep : (ported V D α).step s a = some t) :
    t.os = s.os ∨ ∃ b, s.os.step b = some t.os := by
  cases a with
  | os a =>
    simp only [ported, Option.ite_none_left_eq_some, Option.map_eq_some_iff] at hstep
    obtain ⟨-, os, hos, rfl⟩ := hstep
    exact .inr ⟨a, hos⟩
  | new who m size block =>
    simp only [ported, Option.ite_none_right_eq_some] at hstep
    cases block with
    | none => exact .inl (Option.some.inj hstep.2 ▸ rfl)
    | some d =>
      obtain ⟨u, hu, hcreated⟩ := Option.map_eq_some_iff.mp hstep.2
      obtain ⟨b, hb⟩ := os_call hu
      have hos : t.os = u.os := by
        rw [← hcreated]
        split <;> rfl
      exact .inr ⟨b, hos ▸ hb⟩
  | free who m =>
    simp only [ported, Option.ite_none_right_eq_some, sysMboxFree, Option.bind_eq_some_iff,
      Option.map_eq_some_iff] at hstep
    obtain ⟨-, d, -, e, -, u, hu, rfl⟩ := hstep
    obtain ⟨b, hb⟩ := os_call hu
    exact .inr ⟨b, hb⟩
  | setInvalid m => exact .inl (Option.some.inj hstep ▸ rfl)
  | trypost who m msg =>
    simp only [ported, Option.ite_none_right_eq_some, sysMboxTrypost,
      Option.bind_eq_some_iff] at hstep
    obtain ⟨-, e, -, hu⟩ := hstep
    exact .inr (os_call hu)
  | fetch m timeout =>
    simp only [ported, Option.ite_none_right_eq_some, sysArchMboxFetch,
      Option.bind_eq_some_iff] at hstep
    obtain ⟨-, e, -, hu⟩ := hstep
    exact .inr (os_call hu)

theorem reachable_os (h : (ported V D α).Reachable s) : (kernel (Option α)).Reachable s.os := by
  refine h.invariant (P := fun s => (kernel (Option α)).Reachable s.os) ⟨[], .nil⟩ ?_
  intro s a t hs hstep
  rcases os_step hstep with hsame | ⟨b, hb⟩
  · rwa [hsame]
  · have hrun : (kernel (Option α)).run s.os [b] = some t.os :=
      (Machine.run_singleton ..).trans hb
    exact hs.run hrun

theorem tracks_init : Tracks (ported V D α).init fun _ => none where
  level e := by
    have hnone : (State.osInit (Option α)).toPort = (State.cleared (Option α)).toPort :=
      (State.toPort_call (c := .osTaskCreate osTaskStatPrio)
        State.core_cleared.osTaskCreate rfl).trans
          (State.toPort_call (c := .osTaskCreate osTaskIdlePrio) State.core_cleared rfl)
    change none = ((State.osInit (Option α)).toMbox e).map Port.OsQ.level
    rw [State.toMbox, hnone]
    rfl
  owned m d e hown := absurd hown.live Bool.false_ne_true

theorem tracks_of_reachable (h : (ported V D α).Reachable s) :
    ∃ queue, (Port.mailboxes V D EventId α).Reachable (s.port queue) ∧ Tracks s queue := by
  have hsimulated : ∃ t, (Port.mailboxes V D EventId α).Reachable t ∧ State.Sched s.os ∧
      ∃ queue, t = s.port queue ∧ Tracks s queue := by
    have hinit : State.Sched (ported V D α).init.os ∧ ∃ queue,
        (Port.mailboxes V D EventId α).init = (ported V D α).init.port queue ∧
          Tracks (ported V D α).init queue :=
      ⟨State.sched_osInit, _, rfl, tracks_init⟩
    refine h.simulated (R := fun s t => State.Sched s.os ∧
      ∃ queue, t = s.port queue ∧ Tracks s queue) hinit ?_
    rintro s a t _ ⟨hsched, queue, rfl, htracks⟩ hreachable hstep
    have hsched' : State.Sched t.os := by
      rcases os_step hstep with hsame | ⟨b, hb⟩
      · rwa [hsame]
      · exact hsched.step hb
    obtain ⟨ops, queue', hrun, htracks'⟩ :=
      htracks.step (Port.inv_of_reachable hreachable) hsched hstep
    exact ⟨ops, _, hrun, hsched', queue', rfl, htracks'⟩
  obtain ⟨_, hreachable, -, queue, rfl, htracks⟩ := hsimulated
  exact ⟨queue, hreachable, htracks⟩

end Ported

/-! ## Results -/

namespace Ported

variable {s : Ported V D α} {queue : EventId → Option (Port.OsQ α)} {m : V} {e : EventId}

theorem Tracks.isSome (h : Tracks s queue) (e : EventId) :
    (queue e).isSome = (s.os.toMbox e).isSome := by
  rw [← Option.isSome_map (f := Port.OsQ.level), h.level, Option.isSome_map]

/-- The live mailboxes have queues of the kernel of their own. -/
theorem Tracks.inv (h : Tracks s queue) (hinv : Port.Inv (s.port queue)) :
    Port.Inv (s.port s.os.toMbox) := by
  have howns (m : V) (d : D) (e : EventId) :
      Port.Owns (s.port s.os.toMbox) m d e ↔ Port.Owns (s.port queue) m d e := by
    constructor
    · intro hown
      exact ⟨hown.live, hown.mbox, hown.pQ, hown.allocated, (h.isSome e).trans hown.queue⟩
    · intro hown
      exact ⟨hown.live, hown.mbox, hown.pQ, hown.allocated, (h.isSome e).symm.trans hown.queue⟩
  refine ⟨fun m hlive => ?_, fun m n d d' e e' hm hn => ?_⟩
  · obtain ⟨d, e, hown⟩ := hinv.owned m hlive
    exact ⟨d, e, (howns m d e).mpr hown⟩
  · exact hinv.apart m n d d' e e' ((howns m d e).mp hm) ((howns n d' e').mp hn)

/-- On the kernel the port computes validity as on its own queues. -/
theorem sysMboxValid_eq : s.sysMboxValid m = Port.sysMboxValid (s.port s.os.toMbox) m := by
  have hqueue : (s.port s.os.toMbox).queueOf m = (s.eventOf m).bind s.os.toMbox := rfl
  rw [sysMboxValid, Port.sysMboxValid, hqueue]
  cases s.eventOf m with
  | none => simp [Port.OsQ.osqQuery]
  | some e =>
    rw [Option.map_some, Option.getD_some, Option.bind_some, State.osqQuery, State.toMbox,
      State.toPort]
    cases (s.os.osEventTbl e).content with
    | q pq => simp [Port.OsQ.osqQuery, Port.OsQ.fetched, OsQ.osqQuery]
    | _ => simp [Port.OsQ.osqQuery]

/-- Calls of the kernel's queue `e` answer as the queue `q` does. -/
structure Answers (s : Ported V D α) (e : EventId) (q : Port.OsQ α) : Prop where
  /-- A post succeeds if there is room or a task waits. -/
  posted : ∀ msg, (s.os.osqPost e (some msg)).2.1 =
    if (q.osqPost msg).1 = 0 then .none else .qFull
  /-- A task that waits is given the message. -/
  handed : 0 < q.waiting → ∀ msg, ∃ p τ, p ∈ (s.os.osEventTbl e).wait ∧
    (s.os.osqPost e (some msg)).1.osTcbPrioTbl p = some τ ∧ τ.osTcbStatPend = .ok ∧
      τ.osTcbMsg = some msg
  /-- A fetch from a queue with messages returns the first. -/
  fetched : ∀ msg rest, q.osqEntries = msg :: rest → s.os.osIntNesting = 0 →
    s.os.osLockNesting = 0 → ∀ timeout, ∃ taken, Option.join taken = msg ∧
      (s.os.osqPend e timeout).1.ledger.returned s.os.osPrioCur =
        s.os.ledger.returned s.os.osPrioCur ++ [(e, taken)]

theorem answers (hcore : State.Core s.os) {q : Port.OsQ α} (hq : s.os.toMbox e = some q) :
    Answers s e q := by
  obtain ⟨q₀, hq₀, rfl⟩ := Option.map_eq_some_iff.mp hq
  refine ⟨fun msg => ?_, fun hwaiting msg => State.handed_osqPost hcore hq₀ hwaiting, ?_⟩
  · rw [(State.toPort_osqPost hq₀).2, Port.OsQ.osqPost, Port.OsQ.osqPost]
    simp only [Port.OsQ.fetched, List.length_map]
    split_ifs <;> rfl
  · intro msg rest hmsgs hint hlock timeout
    cases hentries : q₀.osqEntries with
    | nil =>
      rw [Port.OsQ.fetched, hentries] at hmsgs
      cases hmsgs
    | cons taken more =>
      rw [Port.OsQ.fetched, hentries, List.map_cons, List.cons.injEq] at hmsgs
      exact ⟨taken, hmsgs.1, State.returned_osqPend hq₀ hint hlock hentries⟩

end Ported

section Results

variable {V D α : Type*} [DecidableEq V] [DecidableEq D] {s : Ported V D α}

/-- Wherever the port over the kernel goes, the kernel is in a state of its own runs, and the
mailboxes of the port can follow; the answers that calls of a queue give are those of the queue
they keep; and the port reports a mailbox valid exactly if it is live, if and only if live mailboxes
are not full and pointers left behind lead to no queue with room. -/
theorem queue_refines (h : (ported V D α).Reachable s) :
    (kernel (Option α)).Reachable s.os ∧
    (∃ queue, (Port.mailboxes V D EventId α).Reachable (s.port queue) ∧ s.Tracks queue) ∧
    (∀ e q, s.os.toMbox e = some q → s.Answers e q) ∧
    ∀ m, (s.sysMboxValid m = 1 ↔ s.live m = true) ↔ Port.Clear (s.port s.os.toMbox) m := by
  have hkernel := Ported.reachable_os h
  obtain ⟨queue, hreachable, htracks⟩ := Ported.tracks_of_reachable h
  refine ⟨hkernel, ⟨queue, hreachable, htracks⟩, fun e q hq => ?_, fun m => ?_⟩
  · exact Ported.answers (State.sched_of_reachable hkernel).core hq
  · rw [Ported.sysMboxValid_eq]
    exact (htracks.inv (Port.inv_of_reachable hreachable)).valid_iff_live_iff m

/-- The first task waits for a mailbox of four messages; the second one has made a mailbox of
twenty and posted a null message and another one to it. -/
def twoMailboxes : List (Act ℕ ℕ ℕ) :=
  [.new .main 0 4 (some 0), .os (.main (.osTaskCreate 5)), .os (.main (.osTaskCreate 7)),
    .os .start, .os .pendSv, .fetch 0 0, .os .sched, .os .pendSv, .new .task 1 100 (some 1),
    .trypost .task 1 none, .trypost .task 1 (some 9)]

theorem twoMailboxes_isSome :
    ((ported ℕ ℕ ℕ).run (ported ℕ ℕ ℕ).init twoMailboxes).isSome = true := by
  decide +kernel

def twoMailboxesEnd : Ported ℕ ℕ ℕ :=
  ((ported ℕ ℕ ℕ).run (ported ℕ ℕ ℕ).init twoMailboxes).get twoMailboxes_isSome

theorem twoMailboxesEnd_queues :
    twoMailboxesEnd.os.toMbox 0 = some ⟨4, [], 1⟩ ∧
    twoMailboxesEnd.os.toMbox 1 = some ⟨20, [none, some 9], 0⟩ := by
  decide +kernel

theorem queue_refines_twoMailboxes :
    (twoMailboxesEnd.os.toMbox 0 = some ⟨4, [], 1⟩ ∧
      twoMailboxesEnd.os.toMbox 1 = some ⟨20, [none, some 9], 0⟩) ∧
    (∃ queue, (Port.mailboxes ℕ ℕ EventId ℕ).Reachable (twoMailboxesEnd.port queue) ∧
      twoMailboxesEnd.Tracks queue) ∧
    twoMailboxesEnd.Answers 0 ⟨4, [], 1⟩ ∧ twoMailboxesEnd.Answers 1 ⟨20, [none, some 9], 0⟩ ∧
    ∀ m, (twoMailboxesEnd.sysMboxValid m = 1 ↔ twoMailboxesEnd.live m = true) ↔
      Port.Clear (twoMailboxesEnd.port twoMailboxesEnd.os.toMbox) m := by
  obtain ⟨-, hfollows, hanswers, hvalid⟩ := queue_refines
    ⟨twoMailboxes, Machine.exec_of_run (Option.some_get twoMailboxes_isSome).symm⟩
  have hqueues := twoMailboxesEnd_queues
  exact ⟨hqueues, hfollows, hanswers 0 _ hqueues.1, hanswers 1 _ hqueues.2, hvalid⟩

end Results

end Kernel

end FanGateway
