import FanGateway.Kernel.Queue
import FanGateway.Lib.PriorityTable

/-!
# Tasks and event blocks of the kernel

Every task has a priority of its own, by which it is known. The kernel keeps a task
control block for each task, a table of the priorities that are ready, and event blocks:
semaphores, mailboxes and queues, each with a table of the priorities that wait on it.

A call of the kernel consists of critical sections with gaps in between, in which
interrupts may come. Where in such a call a task is belongs to the state.
-/

namespace FanGateway.Kernel

open Lib

/-! ## The table of lowest bits -/

def osUnMapTbl : Array (Fin 8) := #[
  0, 0, 1, 0, 2, 0, 1, 0, 3, 0, 1, 0, 2, 0, 1, 0, 4, 0, 1, 0, 2, 0, 1, 0, 3, 0, 1, 0, 2, 0, 1, 0,
  5, 0, 1, 0, 2, 0, 1, 0, 3, 0, 1, 0, 2, 0, 1, 0, 4, 0, 1, 0, 2, 0, 1, 0, 3, 0, 1, 0, 2, 0, 1, 0,
  6, 0, 1, 0, 2, 0, 1, 0, 3, 0, 1, 0, 2, 0, 1, 0, 4, 0, 1, 0, 2, 0, 1, 0, 3, 0, 1, 0, 2, 0, 1, 0,
  5, 0, 1, 0, 2, 0, 1, 0, 3, 0, 1, 0, 2, 0, 1, 0, 4, 0, 1, 0, 2, 0, 1, 0, 3, 0, 1, 0, 2, 0, 1, 0,
  7, 0, 1, 0, 2, 0, 1, 0, 3, 0, 1, 0, 2, 0, 1, 0, 4, 0, 1, 0, 2, 0, 1, 0, 3, 0, 1, 0, 2, 0, 1, 0,
  5, 0, 1, 0, 2, 0, 1, 0, 3, 0, 1, 0, 2, 0, 1, 0, 4, 0, 1, 0, 2, 0, 1, 0, 3, 0, 1, 0, 2, 0, 1, 0,
  6, 0, 1, 0, 2, 0, 1, 0, 3, 0, 1, 0, 2, 0, 1, 0, 4, 0, 1, 0, 2, 0, 1, 0, 3, 0, 1, 0, 2, 0, 1, 0,
  5, 0, 1, 0, 2, 0, 1, 0, 3, 0, 1, 0, 2, 0, 1, 0, 4, 0, 1, 0, 2, 0, 1, 0, 3, 0, 1, 0, 2, 0, 1, 0]

/-- Every entry of the table is the lowest bit of its index. -/
theorem osUnMapTbl_entries : ∀ w < 256, w ≠ 0 →
    w.testBit (osUnMapTbl.getD w 0) = true ∧
      ∀ i < 8, w.testBit i = true → (osUnMapTbl.getD w 0 : ℕ) ≤ i := by
  decide +kernel

def osUnMap : UnMap 8 where
  lowestBit w := osUnMapTbl.getD w.toNat 0
  getLsbD_lowestBit w h := by
    have hw : w.toNat ≠ 0 := fun hzero => h (BitVec.eq_of_toNat_eq hzero)
    exact (osUnMapTbl_entries w.toNat w.isLt hw).1
  lowestBit_le w i h := by
    have hw : w.toNat ≠ 0 := by
      intro hzero
      rw [BitVec.eq_of_toNat_eq (y := 0#8) hzero, BitVec.getLsbD_zero] at h
      exact Bool.false_ne_true h
    exact (osUnMapTbl_entries w.toNat w.isLt hw).2 i i.isLt h

/-! ## Tasks -/

/-- A priority, up to `OS_LOWEST_PRIO`. -/
abbrev Prio := Fin (8 * 8)

instance prioNeZero : NeZero (8 * 8) := ⟨by decide⟩

/-- `OS_TASK_IDLE_PRIO`. -/
def osTaskIdlePrio : Prio := 63

/-- `OS_TASK_STAT_PRIO`. -/
def osTaskStatPrio : Prio := 62

/-- An event control block, by its place in the table of `OS_MAX_EVENTS` blocks. -/
abbrev EventId := Fin 15

instance eventIdNeZero : NeZero 15 := ⟨by decide⟩

inductive EventType
  | sem
  | mbox
  | q
  deriving DecidableEq

/-- `OSTCBStat`: the kind of event a task pends on, if any, and `OS_STAT_SUSPEND`. -/
@[ext] structure Stat where
  pend : Option EventType
  suspend : Bool
  deriving DecidableEq

/-- `OS_STAT_RDY`. -/
def Stat.rdy : Stat := ⟨none, false⟩

/-- `OSTCBStatPend`. -/
inductive StatPend
  | ok
  | timeout
  deriving DecidableEq

/-- A task control block. A null message is `none`. -/
structure Tcb (α : Type*) where
  osTcbStat : Stat
  osTcbStatPend : StatPend
  osTcbDly : ℕ
  osTcbMsg : Option α
  osTcbEventPtr : Option EventId

/-- Where a task is: in code of its own, before the `OS_Sched` at the end of a call, or in a pend
before or after the `OS_Sched` there. -/
inductive Pc
  | user
  | sched
  | pendSched (e : EventId)
  | pending (e : EventId)
  deriving DecidableEq

namespace Pc

/-- The event block of the pend a task is in. -/
def pends : Pc → Option EventId
  | pendSched e | pending e => some e
  | user | sched => none

/-- `OS_Sched` is called next. -/
def calling : Pc → Bool
  | sched | pendSched _ => true
  | user | pending _ => false

end Pc

/-! ## Event blocks -/

/-- What an event block is used for, with the count, the message or the queue it leads to. -/
inductive Content (α : Type*)
  | unused
  | sem (osEventCnt : ℕ)
  | mbox (osEventPtr : Option α)
  | q (pq : OsQ (Option α))

namespace Content

variable {α : Type*}

/-- `OSEventType`. -/
def osEventType : Content α → Option EventType
  | unused => none
  | sem _ => some .sem
  | mbox _ => some .mbox
  | q _ => some .q

/-- What a pend takes that need not wait: the count goes down, the message out. -/
def take : Content α → Option (Option α × Content α)
  | unused => none
  | sem cnt => if cnt > 0 then some (none, sem (cnt - 1)) else none
  | mbox msg => if msg ≠ none then some (msg, mbox none) else none
  | q pq => pq.osqAccept.map fun taken => (taken.1, q taken.2)

/-- What a post puts in that no task waits for; `none` if there is no room. -/
def put (msg : Option α) : Content α → Option (Content α)
  | unused => none
  | sem cnt => if cnt < 65535 then some (sem (cnt + 1)) else none
  | mbox old => if old ≠ none then none else some (mbox msg)
  | q pq => (pq.osqPost msg).map q

/-- The messages in an event block, where each count of a semaphore is a null message. -/
def msgs : Content α → List (Option α)
  | unused => []
  | sem cnt => List.replicate cnt none
  | mbox msg => if msg ≠ none then [msg] else []
  | q pq => pq.contents

variable {c c' : Content α} {msg : Option α}

@[simp] theorem msgs_unused : (unused : Content α).msgs = [] := rfl

/-- A pend takes the first message, and waits if there is none. -/
theorem take_eq_none_iff : c.take = none ↔ c.msgs = [] := by
  cases c with
  | unused => exact iff_of_true rfl rfl
  | sem cnt => cases cnt <;> simp [take, msgs]
  | mbox old => cases old <;> simp [take, msgs]
  | q pq => simp [take, msgs, OsQ.osqAccept_eq_none_iff]

theorem msgs_take (h : c.take = some (msg, c')) :
    c.msgs = msg :: c'.msgs ∧ c'.osEventType = c.osEventType := by
  cases c with
  | unused => cases h
  | sem cnt =>
    simp only [take, Option.ite_none_right_eq_some, Option.some.injEq, Prod.mk.injEq] at h
    obtain ⟨hpos, rfl, rfl⟩ := h
    obtain ⟨n, rfl⟩ := Nat.exists_eq_add_one.mpr hpos
    exact ⟨rfl, rfl⟩
  | mbox old =>
    simp only [take, Option.ite_none_right_eq_some, Option.some.injEq, Prod.mk.injEq] at h
    obtain ⟨hmsg, rfl, rfl⟩ := h
    exact ⟨if_pos hmsg, rfl⟩
  | q pq =>
    simp only [take, Option.map_eq_some_iff, Prod.mk.injEq] at h
    obtain ⟨⟨first, pq'⟩, htaken, rfl, rfl⟩ := h
    exact ⟨(OsQ.contents_osqAccept htaken).1, rfl⟩

/-- A post puts its message behind the others. In a mailbox a null message is no message. -/
theorem msgs_put (h : c.put msg = some c') (hnull : c.osEventType = some .mbox → msg ≠ none)
    (hsem : c.osEventType = some .sem → msg = none) : c'.msgs = c.msgs ++ [msg] := by
  cases c with
  | unused => cases h
  | sem cnt =>
    simp only [put, Option.ite_none_right_eq_some, Option.some.injEq] at h
    rw [← h.2, hsem rfl, msgs, msgs, List.replicate_succ']
  | mbox old =>
    simp only [put, Option.ite_none_left_eq_some, Option.some.injEq, not_not] at h
    obtain ⟨rfl, rfl⟩ := h
    rw [msgs, msgs, if_pos (hnull rfl), if_neg (not_not.mpr rfl), List.nil_append]
  | q pq =>
    simp only [put, Option.map_eq_some_iff] at h
    obtain ⟨pq', hpost, rfl⟩ := h
    exact (OsQ.contents_osqPost hpost).1

/-- A post leaves the kind of the event. -/
theorem osEventType_put (h : c.put msg = some c') : c'.osEventType = c.osEventType := by
  cases c with
  | unused => cases h
  | sem cnt =>
    simp only [put, Option.ite_none_right_eq_some, Option.some.injEq] at h
    rw [← h.2]
    rfl
  | mbox old =>
    simp only [put, Option.ite_none_left_eq_some, Option.some.injEq] at h
    rw [← h.2]
    rfl
  | q pq =>
    simp only [put, Option.map_eq_some_iff] at h
    obtain ⟨pq', -, rfl⟩ := h
    rfl

end Content

structure Event (α : Type*) where
  content : Content α
  /-- `OSEventGrp` and `OSEventTbl`. -/
  wait : PriorityTable 8

/-! ## The state -/

/-- What is recorded beside the state and influences nothing. -/
structure Ledger (α : Type*) where
  /-- The messages an event block has got, oldest first. -/
  posted : EventId → List (Option α)
  /-- The messages that have left an event block, to a task or to nobody. -/
  handed : List (EventId × Option Prio × Option α)
  /-- The messages that the pends of a task have returned. -/
  returned : Prio → List (EventId × Option α)
  /-- The calls of `OSTimeTick`. -/
  ticks : ℕ
  /-- The tick at which the time limit of a pend ends, if it has one. -/
  deadline : Prio → Option ℕ
  /-- The tick to which a task delays itself. -/
  delayedTo : Prio → ℕ

/-- A task begins to wait; a time limit of zero is none. -/
def Ledger.limit {α : Type*} (p : Prio) (timeout : ℕ) (l : Ledger α) : Ledger α :=
  { l with
    deadline :=
      Function.update l.deadline p (if timeout = 0 then none else some (l.ticks + timeout)) }

structure State (α : Type*) where
  osTcbPrioTbl : Prio → Option (Tcb α)
  osTcbList : List Prio
  /-- The number of blocks on `OSTCBFreeList`. -/
  osTcbFree : ℕ
  /-- `OSRdyGrp` and `OSRdyTbl`. -/
  osRdy : PriorityTable 8
  osEventTbl : EventId → Event α
  osEventFreeList : List EventId
  /-- The number of blocks on `OSQFreeList`. -/
  osqFree : ℕ
  osPrioCur : Prio
  osPrioHighRdy : Prio
  osIntNesting : ℕ
  osLockNesting : ℕ
  osRunning : Bool
  osTime : ℕ
  /-- The tasks that the loop of `OSTimeTick` still comes to, and the depth of its interrupt. -/
  ticking : List Prio
  tickLevel : ℕ
  /-- The exception that switches tasks is pending. -/
  pendSv : Bool
  pc : Prio → Pc
  ledger : Ledger α

namespace State

variable {α : Type*}

/-! ### Changes of one place -/

def modifyTcb (p : Prio) (f : Tcb α → Tcb α) (s : State α) : State α :=
  { s with osTcbPrioTbl := Function.update s.osTcbPrioTbl p ((s.osTcbPrioTbl p).map f) }

def ready (p : Prio) (s : State α) : State α := { s with osRdy := s.osRdy.insert p }

def unready (p : Prio) (s : State α) : State α := { s with osRdy := s.osRdy.remove p }

/-- Make a task ready unless it is suspended. -/
def readyUnlessSuspended (p : Prio) (s : State α) : State α :=
  if (s.osTcbPrioTbl p).any fun t => !t.osTcbStat.suspend then s.ready p else s

def modifyEvent (e : EventId) (f : Event α → Event α) (s : State α) : State α :=
  { s with osEventTbl := Function.update s.osEventTbl e (f (s.osEventTbl e)) }

def wait (e : EventId) (p : Prio) : State α → State α :=
  modifyEvent e fun b => { b with wait := b.wait.insert p }

/-- `OS_EventTaskRemove`. -/
def osEventTaskRemove (e : EventId) (p : Prio) : State α → State α :=
  modifyEvent e fun b => { b with wait := b.wait.remove p }

def setContent (e : EventId) (c : Content α) : State α → State α :=
  modifyEvent e fun b => { b with content := c }

def setFreeList (free : List EventId) (s : State α) : State α :=
  { s with osEventFreeList := free }

def setPc (p : Prio) (pc : Pc) (s : State α) : State α :=
  { s with pc := Function.update s.pc p pc }

def record (f : Ledger α → Ledger α) (s : State α) : State α := { s with ledger := f s.ledger }

/-! ### What concerns one task -/

/-- What the state says about one task: its control block, where it is, and whether it is in the
tables of ready and of waiting tasks. -/
structure View (α : Type*) where
  tcb : Option (Tcb α)
  pc : Pc
  ready : Prop
  waits : EventId → Prop

def view (s : State α) (p : Prio) : View α :=
  ⟨s.osTcbPrioTbl p, s.pc p, p ∈ s.osRdy, fun e => p ∈ (s.osEventTbl e).wait⟩

end State

end FanGateway.Kernel
