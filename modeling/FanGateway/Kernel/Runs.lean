import FanGateway.Kernel.Calls

/-!
# Runs of the kernel

Before multitasking starts, the main program creates tasks and event blocks. Afterwards
the running task and interrupts take turns: the task makes calls, between whose critical
sections interrupts may come; interrupts nest, make calls that do not block, and one of
them runs the loop of the system tick, between whose rounds others may come. When the last
of them ends, the switching exception is taken if it is pending.
-/

namespace FanGateway.Kernel

open Lib

/-- A call of the kernel. -/
inductive Call (α : Type*)
  | osSemCreate (cnt : ℕ)
  | osMboxCreate (pmsg : Option α)
  | osqCreate (start : ℕ → Option α) (size : ℕ)
  | osSemPend (e : EventId) (timeout : ℕ)
  | osMboxPend (e : EventId) (timeout : ℕ)
  | osqPend (e : EventId) (timeout : ℕ)
  | osSemPost (e : EventId)
  | osMboxPost (e : EventId) (pmsg : Option α)
  | osqPost (e : EventId) (pmsg : Option α)
  | osSemDel (e : EventId)
  | osMboxDel (e : EventId)
  | osqDel (e : EventId)
  | osTaskCreate (prio : Prio)
  | osTaskSuspend (prio : Prio)
  | osTaskResume (prio : Prio)
  | osTimeDly (ticks : ℕ)
  | osSchedLock
  | osSchedUnlock

/-- A step of the system. -/
inductive Step (α : Type*)
  | main (c : Call α)
  | start
  | call (c : Call α)
  | sched
  | pendReturn
  | intEnter
  | isr (c : Call α)
  | tick
  | tickTask
  | intExit
  | pendSv

namespace State

variable {α : Type*}

/-- The first critical section of a call, and what follows it. -/
def call (s : State α) : Call α → State α × Next
  | .osSemCreate cnt => ((s.osSemCreate cnt).1, .ret)
  | .osMboxCreate pmsg => ((s.osMboxCreate pmsg).1, .ret)
  | .osqCreate start size => ((s.osqCreate start size).1, .ret)
  | .osSemPend e timeout => ((s.osSemPend e timeout).1, (s.osSemPend e timeout).2.2)
  | .osMboxPend e timeout => ((s.osMboxPend e timeout).1, (s.osMboxPend e timeout).2.2)
  | .osqPend e timeout => ((s.osqPend e timeout).1, (s.osqPend e timeout).2.2)
  | .osSemPost e => ((s.osSemPost e).1, (s.osSemPost e).2.2)
  | .osMboxPost e pmsg => ((s.osMboxPost e pmsg).1, (s.osMboxPost e pmsg).2.2)
  | .osqPost e pmsg => ((s.osqPost e pmsg).1, (s.osqPost e pmsg).2.2)
  | .osSemDel e => ((s.osSemDel e).1, (s.osSemDel e).2.2)
  | .osMboxDel e => ((s.osMboxDel e).1, (s.osMboxDel e).2.2)
  | .osqDel e => ((s.osqDel e).1, (s.osqDel e).2.2)
  | .osTaskCreate prio => ((s.osTaskCreate prio).1, (s.osTaskCreate prio).2.2)
  | .osTaskSuspend prio => ((s.osTaskSuspend prio).1, (s.osTaskSuspend prio).2.2)
  | .osTaskResume prio => ((s.osTaskResume prio).1, (s.osTaskResume prio).2.2)
  | .osTimeDly ticks => s.osTimeDly ticks
  | .osSchedLock => (s.osSchedLock, .ret)
  | .osSchedUnlock => s.osSchedUnlock

/-- The running task executes, not an interrupt. -/
def AtTask (s : State α) : Prop :=
  s.osRunning = true ∧ s.osIntNesting = 0 ∧ s.pendSv = false

instance (s : State α) : Decidable s.AtTask := inferInstanceAs (Decidable (_ ∧ _))

end State

/-- The idle task is never suspended. -/
def Call.sparesIdle {α : Type*} : Call α → Bool
  | .osTaskSuspend prio => prio ≠ osTaskIdlePrio
  | _ => true

/-- What the main program calls before multitasking: it has no task that could wait. -/
def Call.forMain {α : Type*} : Call α → Bool
  | .osSemPend _ _ | .osMboxPend _ _ | .osqPend _ _ | .osTimeDly _ => false
  | .osTaskSuspend _ => false
  | _ => true

/-- Interrupts do not unlock the scheduler. -/
def Call.forIsr {α : Type*} : Call α → Bool
  | .osSchedUnlock => false
  | _ => true

section Machine

variable {α : Type*}

def State.step (s : State α) : Step α → Option (State α)
  | .main c => if s.osRunning = false ∧ c.forMain then some (s.call c).1 else none
  | .start => if s.osRunning = false then some s.osStart else none
  | .call c =>
    -- the idle task makes no calls
    if s.AtTask ∧ s.osPrioCur ≠ osTaskIdlePrio ∧ s.pc s.osPrioCur = .user ∧ c.sparesIdle then
      some ((s.call c).1.setPc s.osPrioCur (s.call c).2.pc)
    else none
  | .sched =>
    if s.AtTask then
      match s.pc s.osPrioCur with
      | .sched => some (s.osSched.setPc s.osPrioCur .user)
      | .pendSched e => some (s.osSched.setPc s.osPrioCur (.pending e))
      | .user | .pending _ => none
    else none
  | .pendReturn =>
    if s.AtTask then
      match s.pc s.osPrioCur with
      | .pending e => some ((s.pendReturn e).1.setPc s.osPrioCur .user)
      | .user | .sched | .pendSched _ => none
    else none
  | .intEnter => if s.osRunning ∧ s.osIntNesting < 255 then some s.osIntEnter else none
  | .isr c => if s.osIntNesting > 0 ∧ c.forIsr ∧ c.sparesIdle then some (s.call c).1 else none
  | .tick => if s.osIntNesting > 0 ∧ s.ticking = [] then some s.osTimeTick else none
  | .tickTask =>
    match s.ticking with
    | [] => none
    | p :: ps =>
      if s.osIntNesting = s.tickLevel then some { s.tickTask p with ticking := ps } else none
  | .intExit =>
    -- the interrupt of the system tick ends behind its loop
    if s.osIntNesting > 0 ∧ (s.ticking = [] ∨ s.tickLevel < s.osIntNesting) then
      some s.osIntExit
    else none
  | .pendSv =>
    if s.osRunning ∧ s.osIntNesting = 0 ∧ s.pendSv then some s.pendSvHandler else none

/-- What a step finds, and what it leaves behind. -/
inductive State.Steps (s : State α) : Step α → State α → Prop
  | main {c : Call α} (hstopped : s.osRunning = false) (hmain : c.forMain = true) :
    Steps s (.main c) (s.call c).1
  | start (hstopped : s.osRunning = false) : Steps s .start s.osStart
  | call {c : Call α} (hat : s.AtTask) (hcur : s.osPrioCur ≠ osTaskIdlePrio)
      (hpc : s.pc s.osPrioCur = .user) (hspares : c.sparesIdle = true) :
    Steps s (.call c) ((s.call c).1.setPc s.osPrioCur (s.call c).2.pc)
  | sched (hat : s.AtTask) (hpc : s.pc s.osPrioCur = .sched) :
    Steps s .sched (s.osSched.setPc s.osPrioCur .user)
  | pendSched {e : EventId} (hat : s.AtTask) (hpc : s.pc s.osPrioCur = .pendSched e) :
    Steps s .sched (s.osSched.setPc s.osPrioCur (.pending e))
  | pendReturn {e : EventId} (hat : s.AtTask) (hpc : s.pc s.osPrioCur = .pending e) :
    Steps s .pendReturn ((s.pendReturn e).1.setPc s.osPrioCur .user)
  | intEnter (hrun : s.osRunning = true) (hnest : s.osIntNesting < 255) :
    Steps s .intEnter s.osIntEnter
  | isr {c : Call α} (hint : 0 < s.osIntNesting) (hisr : c.forIsr = true)
      (hspares : c.sparesIdle = true) : Steps s (.isr c) (s.call c).1
  | tick (hint : 0 < s.osIntNesting) (hloop : s.ticking = []) : Steps s .tick s.osTimeTick
  | tickTask {p : Prio} {ps : List Prio} (hloop : s.ticking = p :: ps)
      (hlevel : s.osIntNesting = s.tickLevel) :
    Steps s .tickTask { s.tickTask p with ticking := ps }
  | intExit (hint : 0 < s.osIntNesting) (hloop : s.ticking = [] ∨ s.tickLevel < s.osIntNesting) :
    Steps s .intExit s.osIntExit
  | pendSv (hrun : s.osRunning = true) (hint : s.osIntNesting = 0) (hsv : s.pendSv = true) :
    Steps s .pendSv s.pendSvHandler

/-- The guards of a step are read off here, once for all that is proved of steps. -/
theorem State.steps_of_step {s t : State α} {e : Step α} (h : s.step e = some t) :
    s.Steps e t := by
  cases e with
  | main c =>
    obtain ⟨⟨hstopped, hmain⟩, ⟨⟩⟩ := Option.ite_none_right_eq_some.mp h
    exact .main hstopped hmain
  | start =>
    obtain ⟨hstopped, ⟨⟩⟩ := Option.ite_none_right_eq_some.mp h
    exact .start hstopped
  | call c =>
    obtain ⟨⟨hat, hcur, hpc, hspares⟩, ⟨⟩⟩ := Option.ite_none_right_eq_some.mp h
    exact .call hat hcur hpc hspares
  | sched =>
    obtain ⟨hat, h⟩ := Option.ite_none_right_eq_some.mp h
    -- at the end of a call, or inside a pend
    cases hpc : s.pc s.osPrioCur with
    | sched =>
      rw [hpc] at h
      obtain rfl := Option.some.inj h
      exact .sched hat hpc
    | pendSched e =>
      rw [hpc] at h
      obtain rfl := Option.some.inj h
      exact .pendSched hat hpc
    | _ =>
      rw [hpc] at h
      cases h
  | pendReturn =>
    obtain ⟨hat, h⟩ := Option.ite_none_right_eq_some.mp h
    cases hpc : s.pc s.osPrioCur with
    | pending e =>
      rw [hpc] at h
      obtain rfl := Option.some.inj h
      exact .pendReturn hat hpc
    | _ =>
      rw [hpc] at h
      cases h
  | intEnter =>
    obtain ⟨⟨hrun, hnest⟩, ⟨⟩⟩ := Option.ite_none_right_eq_some.mp h
    exact .intEnter hrun hnest
  | isr c =>
    obtain ⟨⟨hint, hisr, hspares⟩, ⟨⟩⟩ := Option.ite_none_right_eq_some.mp h
    exact .isr hint hisr hspares
  | tick =>
    obtain ⟨⟨hint, hloop⟩, ⟨⟩⟩ := Option.ite_none_right_eq_some.mp h
    exact .tick hint hloop
  | tickTask =>
    cases hloop : s.ticking with
    | nil =>
      rw [State.step, hloop] at h
      cases h
    | cons p ps =>
      rw [State.step, hloop] at h
      obtain ⟨hlevel, ⟨⟩⟩ := Option.ite_none_right_eq_some.mp h
      exact .tickTask hloop hlevel
  | intExit =>
    obtain ⟨⟨hint, hloop⟩, ⟨⟩⟩ := Option.ite_none_right_eq_some.mp h
    exact .intExit hint hloop
  | pendSv =>
    obtain ⟨⟨hrun, hint, hsv⟩, ⟨⟩⟩ := Option.ite_none_right_eq_some.mp h
    exact .pendSv hrun hint hsv

/-- Behind `OS_InitMisc`, `OS_InitRdyList`, `OS_InitTCBList`, `OS_InitEventList` and `OS_QInit`. -/
def State.cleared (α : Type*) : State α where
  osTcbPrioTbl _ := none
  osTcbList := []
  osTcbFree := 22
  osRdy := .empty 8
  osEventTbl _ := ⟨.unused, .empty 8⟩
  osEventFreeList := List.finRange 15
  osqFree := 5
  osPrioCur := 0
  osPrioHighRdy := 0
  osIntNesting := 0
  osLockNesting := 0
  osRunning := false
  osTime := 0
  ticking := []
  tickLevel := 0
  pendSv := false
  pc _ := .user
  ledger := ⟨fun _ => [], [], fun _ => [], 0, fun _ => none, fun _ => 0⟩

/-- `OSInit`. -/
def State.osInit (α : Type*) : State α :=
  ((((State.cleared α).osTaskCreate osTaskIdlePrio).1).osTaskCreate osTaskStatPrio).1

def kernel (α : Type*) : Machine (State α) (Step α) := ⟨State.osInit α, State.step⟩

end Machine

end FanGateway.Kernel
