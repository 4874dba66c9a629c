import FanGateway.Kernel.State
import FanGateway.Lib.Machine

/-!
# Calls of the kernel

Semaphores, mailboxes and queues are used by calls of one shape: a pend takes what is
there or makes the running task wait; a post hands its message to the waiting task of the
highest priority, or leaves it in the event block if no task waits. The calls differ in
the kind of event block and in what is left there.

A call ends its first critical section in one of three ways: it returns, it calls
`OS_Sched` before it returns, or it calls `OS_Sched` in a pend, behind which a second
critical section finds out what has happened.
-/

namespace FanGateway.Kernel

open Lib

/-- The error codes of the modelled calls. -/
inductive OsErr
  | none
  | eventType
  | pendIsr
  | pendLocked
  | timeout
  | semOvf
  | mboxFull
  | qFull
  | delIsr
  | prioExist
  | taskCreateIsr
  | taskNoMoreTcb
  | taskSuspendPrio
  | taskResumePrio
  | taskNotSuspended
  deriving DecidableEq

/-- What follows the first critical section of a call. -/
inductive Next
  | ret
  | sched
  | pend (e : EventId)
  deriving DecidableEq

/-- Where the calling task is behind the first critical section. -/
def Next.pc : Next → Pc
  | ret => .user
  | sched => .sched
  | pend e => .pendSched e

/-- Clear the bit of a kind of event. -/
def Stat.clear (msk : EventType) (stat : Stat) : Stat :=
  if stat.pend = some msk then { stat with pend := none } else stat

variable {α : Type*}

/-! ## What is written into a control block -/

namespace Tcb

/-- `OS_TCBInit`. -/
def init : Tcb α := ⟨.rdy, .ok, 0, none, none⟩

/-- A pend waits. -/
def block (type : EventType) (timeout : ℕ) (t : Tcb α) : Tcb α :=
  { t with
    osTcbStat := { t.osTcbStat with pend := some type }
    osTcbStatPend := .ok
    osTcbDly := timeout }

/-- `OS_EventTaskWait`. -/
def point (e : EventId) (t : Tcb α) : Tcb α := { t with osTcbEventPtr := some e }

/-- `OS_EventTaskRdy`, which leaves the pointer to the event block. -/
def hand (pmsg : Option α) (msk : EventType) (t : Tcb α) : Tcb α :=
  ⟨t.osTcbStat.clear msk, .ok, 0, pmsg, t.osTcbEventPtr⟩

/-- The end of a pend that has waited. -/
def clear (t : Tcb α) : Tcb α := ⟨.rdy, .ok, t.osTcbDly, none, none⟩

def suspend (t : Tcb α) : Tcb α := { t with osTcbStat := { t.osTcbStat with suspend := true } }

def resume (t : Tcb α) : Tcb α := { t with osTcbStat := { t.osTcbStat with suspend := false } }

/-- The end of a wait or a delay in the loop of `OSTimeTick`. -/
def expire (t : Tcb α) : Tcb α :=
  if t.osTcbStat.pend ≠ none then
    { t with osTcbStat := { t.osTcbStat with pend := none }, osTcbStatPend := .timeout }
  else { t with osTcbStatPend := .ok }

end Tcb

namespace State

/-! ## Scheduling -/

/-- `OS_SchedNew`. -/
def osSchedNew (s : State α) : State α := { s with osPrioHighRdy := s.osRdy.lowest osUnMap }

/-- `OS_TASK_SW` and `OSIntCtxSw` make the switching exception pending. -/
def switchIfNew (s : State α) : State α :=
  if s.osPrioHighRdy ≠ s.osPrioCur then { s with pendSv := true } else s

/-- `OS_Sched`. -/
def osSched (s : State α) : State α :=
  if s.osIntNesting = 0 ∧ s.osLockNesting = 0 then s.osSchedNew.switchIfNew else s

/-- `OSIntEnter`. -/
def osIntEnter (s : State α) : State α :=
  if s.osRunning ∧ s.osIntNesting < 255 then { s with osIntNesting := s.osIntNesting + 1 } else s

/-- `OSIntExit`. -/
def osIntExit (s : State α) : State α :=
  if s.osRunning then
    let s := { s with osIntNesting := s.osIntNesting - 1 }
    if s.osIntNesting = 0 ∧ s.osLockNesting = 0 then s.osSchedNew.switchIfNew else s
  else s

/-- `OSSchedLock`. -/
def osSchedLock (s : State α) : State α :=
  if s.osRunning ∧ s.osIntNesting = 0 ∧ s.osLockNesting < 255 then
    { s with osLockNesting := s.osLockNesting + 1 }
  else s

/-- `OSSchedUnlock`. -/
def osSchedUnlock (s : State α) : State α × Next :=
  if s.osRunning ∧ s.osLockNesting > 0 then
    let s := { s with osLockNesting := s.osLockNesting - 1 }
    (s, if s.osLockNesting = 0 ∧ s.osIntNesting = 0 then .sched else .ret)
  else (s, .ret)

/-- `OSStart`, after which the switching exception starts the first task. -/
def osStart (s : State α) : State α :=
  if s.osRunning then s
  else
    let s := s.osSchedNew
    { s with osPrioCur := s.osPrioHighRdy, osRunning := true, pendSv := true }

/-- The switching exception. -/
def pendSvHandler (s : State α) : State α :=
  { s with osPrioCur := s.osPrioHighRdy, pendSv := false }

/-! ### What scheduling changes -/

theorem osSched_eq (s : State α) : s.osSched =
    { s with osPrioHighRdy := s.osSched.osPrioHighRdy, pendSv := s.osSched.pendSv } := by
  rw [osSched, switchIfNew]
  split_ifs <;> rfl

theorem osIntEnter_eq (s : State α) :
    s.osIntEnter = { s with osIntNesting := s.osIntEnter.osIntNesting } := by
  rw [osIntEnter]
  split_ifs <;> rfl

theorem osIntExit_eq (s : State α) : s.osIntExit =
    { s with
      osIntNesting := s.osIntExit.osIntNesting
      osPrioHighRdy := s.osIntExit.osPrioHighRdy
      pendSv := s.osIntExit.pendSv } := by
  rw [osIntExit]
  dsimp only
  rw [switchIfNew]
  split_ifs <;> rfl

theorem osStart_eq (s : State α) : s.osStart =
    { s with
      osPrioCur := s.osStart.osPrioCur
      osPrioHighRdy := s.osStart.osPrioHighRdy
      osRunning := s.osStart.osRunning
      pendSv := s.osStart.pendSv } := by
  rw [osStart]
  split_ifs <;> rfl

/-! ## Events -/

/-- `OS_EventTaskRdy`. -/
def osEventTaskRdy (e : EventId) (pmsg : Option α) (msk : EventType) (s : State α) : State α :=
  let prio := (s.osEventTbl e).wait.lowest osUnMap
  let s := s.modifyTcb prio (.hand pmsg msk)
  let s := s.readyUnlessSuspended prio
  let s := s.osEventTaskRemove e prio
  s.record fun l => { l with
    posted := Function.update l.posted e (l.posted e ++ [pmsg])
    handed := l.handed ++ [(e, some prio, pmsg)] }

/-- `OS_EventTaskWait`. -/
def osEventTaskWait (e : EventId) (s : State α) : State α :=
  ((s.modifyTcb s.osPrioCur (.point e)).wait e s.osPrioCur).unready s.osPrioCur

/-- The first critical section of `OSSemPend`, `OSMboxPend` and `OSQPend`. -/
def pend (type : EventType) (e : EventId) (timeout : ℕ) (s : State α) : State α × OsErr × Next :=
  if (s.osEventTbl e).content.osEventType ≠ some type then (s, .eventType, .ret)
  else if s.osIntNesting > 0 then (s, .pendIsr, .ret)
  else if s.osLockNesting > 0 then (s, .pendLocked, .ret)
  else
    match (s.osEventTbl e).content.take with
    | some (msg, c) =>
      let s := s.setContent e c
      (s.record fun l => { l with
        handed := l.handed ++ [(e, some s.osPrioCur, msg)]
        returned := Function.update l.returned s.osPrioCur (l.returned s.osPrioCur ++ [(e, msg)]) },
        .none, .ret)
    | none =>
      let s := s.modifyTcb s.osPrioCur (.block type timeout)
      let s := s.osEventTaskWait e
      (s.record (.limit s.osPrioCur timeout), .none, .pend e)

def osSemPend (e : EventId) (timeout : ℕ) (s : State α) := s.pend .sem e timeout

def osMboxPend (e : EventId) (timeout : ℕ) (s : State α) := s.pend .mbox e timeout

def osqPend (e : EventId) (timeout : ℕ) (s : State α) := s.pend .q e timeout

/-- The second critical section of a pend, with the message and the error it returns. -/
def pendReturn (e : EventId) (s : State α) : State α × Option α × OsErr :=
  let cur := s.osPrioCur
  match s.osTcbPrioTbl cur with
  | none => (s, none, .none)
  | some t =>
    match t.osTcbStatPend with
    | .ok =>
      ((s.modifyTcb cur .clear).record fun l => { l with
        returned := Function.update l.returned cur (l.returned cur ++ [(e, t.osTcbMsg)]) },
        t.osTcbMsg, .none)
    | .timeout => ((s.osEventTaskRemove e cur).modifyTcb cur .clear, none, .timeout)

/-- `OSSemPost`, `OSMboxPost` and `OSQPost`. -/
def post (type : EventType) (full : OsErr) (e : EventId) (pmsg : Option α) (s : State α) :
    State α × OsErr × Next :=
  if (s.osEventTbl e).content.osEventType ≠ some type then (s, .eventType, .ret)
  else if (s.osEventTbl e).wait.grp ≠ 0#8 then (s.osEventTaskRdy e pmsg type, .none, .sched)
  else
    match (s.osEventTbl e).content.put pmsg with
    | none => (s, full, .ret)
    | some c =>
      ((s.setContent e c).record fun l =>
        { l with posted := Function.update l.posted e (l.posted e ++ [pmsg]) }, .none, .ret)

def osSemPost (e : EventId) (s : State α) := s.post .sem .semOvf e none

def osMboxPost (e : EventId) (pmsg : Option α) (s : State α) := s.post .mbox .mboxFull e pmsg

def osqPost (e : EventId) (pmsg : Option α) (s : State α) := s.post .q .qFull e pmsg

/-- Take an event block from the free list and use it. -/
def create (c : Content α) (s : State α) : State α × Option EventId :=
  if s.osIntNesting > 0 then (s, none)
  else
    match s.osEventFreeList with
    | [] => (s, none)
    | e :: free =>
      let s := s.setFreeList free
      ((s.modifyEvent e fun _ => ⟨c, .empty 8⟩).record fun l =>
        { l with posted := Function.update l.posted e (l.posted e ++ c.msgs) }, some e)

def osSemCreate (cnt : ℕ) (s : State α) := s.create (.sem cnt)

def osMboxCreate (pmsg : Option α) (s : State α) := s.create (.mbox pmsg)

/-- `OSQCreate` also needs a queue control block; without one the event block stays free. -/
def osqCreate (start : ℕ → Option α) (size : ℕ) (s : State α) : State α × Option EventId :=
  if s.osqFree = 0 then (s, none)
  else
    let (t, pevent) := s.create (.q (.osqCreate start size))
    (if pevent.isSome then { t with osqFree := t.osqFree - 1 } else t, pevent)

/-- The loop that makes every task ready that waits for a deleted event. There are no more than
64 of them. -/
def readyAll (e : EventId) (msk : EventType) : ℕ → State α → State α
  | 0, s => s
  | n + 1, s =>
    if (s.osEventTbl e).wait.grp ≠ 0#8 then readyAll e msk n (s.osEventTaskRdy e none msk) else s

/-- `OSSemDel`, `OSMboxDel` and `OSQDel` with `OS_DEL_ALWAYS`. -/
def del (type : EventType) (e : EventId) (s : State α) : State α × OsErr × Next :=
  if (s.osEventTbl e).content.osEventType ≠ some type then (s, .eventType, .ret)
  else if s.osIntNesting > 0 then (s, .delIsr, .ret)
  else
    let tasksWaiting := (s.osEventTbl e).wait.grp ≠ 0#8
    let lost := (s.osEventTbl e).content.msgs
    let s := s.readyAll e type 64
    let s := s.setContent e .unused
    let s := s.setFreeList (e :: s.osEventFreeList)
    let s := s.record fun l => { l with handed := l.handed ++ lost.map fun msg => (e, none, msg) }
    (s, .none, if tasksWaiting then .sched else .ret)

def osSemDel (e : EventId) (s : State α) := s.del .sem e

def osMboxDel (e : EventId) (s : State α) := s.del .mbox e

/-- `OSQDel` gives back the queue control block, too. -/
def osqDel (e : EventId) (s : State α) : State α × OsErr × Next :=
  let (t, err, next) := s.del .q e
  (if err = .none then { t with osqFree := t.osqFree + 1 } else t, err, next)

/-! ## Tasks and time -/

/-- `OSTaskCreate`. -/
def osTaskCreate (prio : Prio) (s : State α) : State α × OsErr × Next :=
  if s.osIntNesting > 0 then (s, .taskCreateIsr, .ret)
  else if (s.osTcbPrioTbl prio).isSome then (s, .prioExist, .ret)
  else if s.osTcbFree = 0 then (s, .taskNoMoreTcb, .ret)
  else
    let s := { s with
      osTcbPrioTbl := Function.update s.osTcbPrioTbl prio (some .init)
      osTcbList := prio :: s.osTcbList
      osTcbFree := s.osTcbFree - 1 }
    (s.ready prio, .none, if s.osRunning then .sched else .ret)

/-- `OSTaskSuspend`. -/
def osTaskSuspend (prio : Prio) (s : State α) : State α × OsErr × Next :=
  if (s.osTcbPrioTbl prio).isNone then (s, .taskSuspendPrio, .ret)
  else
    let self := prio = s.osPrioCur
    let s := s.unready prio
    (s.modifyTcb prio .suspend, .none, if self then .sched else .ret)

/-- `OSTaskResume`. -/
def osTaskResume (prio : Prio) (s : State α) : State α × OsErr × Next :=
  match s.osTcbPrioTbl prio with
  | none => (s, .taskResumePrio, .ret)
  | some t =>
    if t.osTcbStat.suspend then
      let s := s.modifyTcb prio .resume
      if t.osTcbStat.pend = none ∧ t.osTcbDly = 0 then
        (s.ready prio, .none, if s.osRunning then .sched else .ret)
      else (s, .none, .ret)
    else (s, .taskNotSuspended, .ret)

/-- `OSTimeDly`. -/
def osTimeDly (ticks : ℕ) (s : State α) : State α × Next :=
  if s.osIntNesting > 0 ∨ s.osLockNesting > 0 ∨ ticks = 0 then (s, .ret)
  else
    let s := s.unready s.osPrioCur
    let s := s.modifyTcb s.osPrioCur fun t => { t with osTcbDly := ticks }
    (s.record fun l => { l with
      delayedTo := Function.update l.delayedTo s.osPrioCur (l.ticks + ticks) }, .sched)

/-- `OSTimeTick` up to its loop over `OSTCBList`. -/
def osTimeTick (s : State α) : State α :=
  let s := { s with
    osTime := (s.osTime + 1) % 2 ^ 32
    ticking := s.osTcbList.takeWhile (· ≠ osTaskIdlePrio)
    tickLevel := s.osIntNesting }
  s.record fun l => { l with ticks := l.ticks + 1 }

/-- One round of the loop of `OSTimeTick`. -/
def tickTask (prio : Prio) (s : State α) : State α :=
  match s.osTcbPrioTbl prio with
  | none => s
  | some t =>
    if t.osTcbDly ≠ 0 then
      let s := s.modifyTcb prio fun t => { t with osTcbDly := t.osTcbDly - 1 }
      if t.osTcbDly - 1 = 0 then (s.modifyTcb prio .expire).readyUnlessSuspended prio else s
    else s

end State

end FanGateway.Kernel
