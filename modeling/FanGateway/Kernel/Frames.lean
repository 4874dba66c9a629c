import FanGateway.Kernel.Tasks

/-!
# What calls leave alone

A call of the kernel does not move the processor: the running task, interrupts and the
places of the tasks are as before, up to the lock of the scheduler. A call that returns at
once makes no task ready. What the control blocks and the event blocks say about each
other is kept, and the control block of a task that waits for nothing is left alone.
-/

namespace FanGateway.Kernel

open Lib

variable {α : Type*}

namespace State

variable {s t : State α} {p q : Prio} {e : EventId}

/-! ## What calls leave alone -/

/-- The processor's side of the state, which tasks exist, how often the scheduler is locked, and
what is recorded of time. -/
structure Frame where
  osPrioCur : Prio
  osPrioHighRdy : Prio
  osIntNesting : ℕ
  osRunning : Bool
  ticking : List Prio
  tickLevel : ℕ
  pendSv : Bool
  pc : Prio → Pc
  osTcbList : List Prio
  created : Prio → Bool
  osLockNesting : ℕ
  ticks : ℕ
  deadline : Prio → Option ℕ
  delayedTo : Prio → ℕ

def frame (s : State α) : Frame :=
  ⟨s.osPrioCur, s.osPrioHighRdy, s.osIntNesting, s.osRunning, s.ticking, s.tickLevel, s.pendSv,
    s.pc, s.osTcbList, fun p => (s.osTcbPrioTbl p).isSome, s.osLockNesting, s.ledger.ticks,
    s.ledger.deadline, s.ledger.delayedTo⟩

@[simp] theorem frame_modifyTcb (f : Tcb α → Tcb α) : (s.modifyTcb p f).frame = s.frame := by
  have hcreated : (fun q => ((s.modifyTcb p f).osTcbPrioTbl q).isSome) =
      fun q => (s.osTcbPrioTbl q).isSome := by
    funext q
    change (Function.update s.osTcbPrioTbl p _ q).isSome = _
    by_cases hq : q = p
    · rw [hq, Function.update_self, Option.isSome_map]
    · rw [Function.update_of_ne hq]
  rw [frame, hcreated]
  rfl

@[simp] theorem frame_readyUnlessSuspended : (s.readyUnlessSuspended p).frame = s.frame := by
  rw [readyUnlessSuspended]
  split_ifs <;> rfl

@[simp] theorem frame_ready : (s.ready p).frame = s.frame := rfl

@[simp] theorem frame_unready : (s.unready p).frame = s.frame := rfl

@[simp] theorem frame_modifyEvent (f : Event α → Event α) : (s.modifyEvent e f).frame = s.frame :=
  rfl

@[simp] theorem frame_osEventTaskRemove : (s.osEventTaskRemove e p).frame = s.frame := rfl

@[simp] theorem frame_osEventTaskWait : (s.osEventTaskWait e).frame = s.frame :=
  frame_modifyTcb (s := s) (p := s.osPrioCur) (.point e)

@[simp] theorem frame_setContent (c : Content α) : (s.setContent e c).frame = s.frame := rfl

@[simp] theorem frame_setFreeList (free : List EventId) : (s.setFreeList free).frame = s.frame :=
  rfl

theorem frame_record_eq (f : Ledger α → Ledger α) : (s.record f).frame = { s.frame with
    ticks := (f s.ledger).ticks
    deadline := (f s.ledger).deadline
    delayedTo := (f s.ledger).delayedTo } := rfl

/-- What is recorded of messages alone. -/
@[simp] theorem frame_record {f : Ledger α → Ledger α}
    (hticks : (f s.ledger).ticks = s.ledger.ticks)
    (hdeadline : (f s.ledger).deadline = s.ledger.deadline)
    (hdelayed : (f s.ledger).delayedTo = s.ledger.delayedTo) : (s.record f).frame = s.frame := by
  rw [frame_record_eq, hticks, hdeadline, hdelayed]
  rfl

@[simp] theorem frame_osEventTaskRdy {pmsg : Option α} {msk : EventType} :
    (s.osEventTaskRdy e pmsg msk).frame = s.frame := by
  simp [osEventTaskRdy]

/-- A pend may record when its time limit ends. -/
theorem frame_pend {type : EventType} {timeout : ℕ} :
    ∃ deadline, (s.pend type e timeout).1.frame = { s.frame with deadline := deadline } := by
  rw [pend]
  split_ifs
  · exact ⟨_, rfl⟩
  · exact ⟨_, rfl⟩
  · exact ⟨_, rfl⟩
  · cases (s.osEventTbl e).content.take with
    | some taken => exact ⟨_, rfl⟩
    | none =>
      refine ⟨(s.ledger.limit s.osPrioCur timeout).deadline, ?_⟩
      dsimp only
      rw [frame_record_eq, frame_osEventTaskWait, frame_modifyTcb]
      rfl

theorem frame_post {type : EventType} {full : OsErr} {pmsg : Option α} :
    (s.post type full e pmsg).1.frame = s.frame := by
  rw [post]
  split_ifs
  · rfl
  · exact frame_osEventTaskRdy
  · cases (s.osEventTbl e).content.put pmsg <;> simp

theorem frame_create {c : Content α} : (s.create c).1.frame = s.frame := by
  rw [create]
  split_ifs
  · rfl
  · cases s.osEventFreeList <;> simp

theorem frame_osqCreate {start : ℕ → Option α} {size : ℕ} :
    (s.osqCreate start size).1.frame = s.frame := by
  have hcreate := frame_create (s := s) (c := .q (.osqCreate start size))
  rw [osqCreate]
  split_ifs
  · rfl
  · dsimp only
    split_ifs <;> exact hcreate

theorem frame_readyAll {msk : EventType} (n : ℕ) (s : State α) :
    (s.readyAll e msk n).frame = s.frame := by
  induction n generalizing s with
  | zero => rfl
  | succ n ih =>
    rw [readyAll]
    split_ifs
    · rw [ih, frame_osEventTaskRdy]
    · rfl

theorem frame_del {type : EventType} : (s.del type e).1.frame = s.frame := by
  rw [del]
  split_ifs
  · rfl
  · rfl
  · dsimp only
    rw [frame_record rfl rfl rfl, frame_setFreeList, frame_setContent, frame_readyAll]

theorem frame_osqDel : (s.osqDel e).1.frame = s.frame := by
  have hdel : (s.del .q e).1.frame = s.frame := frame_del
  rw [osqDel]
  dsimp only
  split_ifs <;> exact hdel

theorem frame_osTaskSuspend : (s.osTaskSuspend p).1.frame = s.frame := by
  rw [osTaskSuspend]
  split_ifs <;> simp

theorem frame_osTaskResume : (s.osTaskResume p).1.frame = s.frame := by
  rw [osTaskResume]
  cases s.osTcbPrioTbl p with
  | none => rfl
  | some τ =>
    dsimp only
    split_ifs <;> simp

/-- A delay records when it ends. -/
theorem frame_osTimeDly {ticks : ℕ} :
    ∃ delayedTo, (s.osTimeDly ticks).1.frame = { s.frame with delayedTo := delayedTo } := by
  rw [osTimeDly]
  split_ifs
  · exact ⟨_, rfl⟩
  · refine ⟨Function.update s.ledger.delayedTo s.osPrioCur (s.ledger.ticks + ticks), ?_⟩
    dsimp only
    rw [frame_record_eq, frame_modifyTcb, frame_unready]
    rfl

theorem frame_tickTask : (s.tickTask p).frame = s.frame := by
  rw [tickTask]
  cases s.osTcbPrioTbl p with
  | none => rfl
  | some τ =>
    dsimp only
    split_ifs <;> simp

theorem frame_pendReturn : (s.pendReturn e).1.frame = s.frame := by
  rw [pendReturn]
  cases s.osTcbPrioTbl s.osPrioCur with
  | none => rfl
  | some τ =>
    dsimp only
    cases τ.osTcbStatPend <;> simp

end State

/-- The calls that make the running task wait, and that interrupts may not make. -/
def Call.blocks : Call α → Bool
  | .osSemPend _ _ | .osMboxPend _ _ | .osqPend _ _ | .osTimeDly _ => true
  | _ => false

/-- The calls that do not block, create tasks, or lock or unlock the scheduler. -/
def Call.frames : Call α → Bool
  | .osTaskCreate _ | .osSchedLock | .osSchedUnlock => false
  | c => !c.blocks

namespace State

variable {s t : State α} {p q : Prio} {e : EventId} {c : Call α}

theorem frame_call (hc : c.frames) : (s.call c).1.frame = s.frame := by
  cases c with
  | osSemCreate cnt => exact frame_create
  | osMboxCreate pmsg => exact frame_create
  | osqCreate start size => exact frame_osqCreate
  | osSemPend e timeout => cases hc
  | osMboxPend e timeout => cases hc
  | osqPend e timeout => cases hc
  | osSemPost e => exact frame_post
  | osMboxPost e pmsg => exact frame_post
  | osqPost e pmsg => exact frame_post
  | osSemDel e => exact frame_del
  | osMboxDel e => exact frame_del
  | osqDel e => exact frame_osqDel
  | osTaskCreate prio => cases hc
  | osTaskSuspend prio => exact frame_osTaskSuspend
  | osTaskResume prio => exact frame_osTaskResume
  | osTimeDly ticks => cases hc
  | osSchedLock => cases hc
  | osSchedUnlock => cases hc

/-- A call does not move the processor, and no task goes away. -/
structure Called (s t : State α) : Prop where
  osPrioCur : t.osPrioCur = s.osPrioCur
  osPrioHighRdy : t.osPrioHighRdy = s.osPrioHighRdy
  osIntNesting : t.osIntNesting = s.osIntNesting
  osRunning : t.osRunning = s.osRunning
  ticking : t.ticking = s.ticking
  tickLevel : t.tickLevel = s.tickLevel
  pendSv : t.pendSv = s.pendSv
  pc : t.pc = s.pc
  stays : ∀ p, s.osTcbPrioTbl p ≠ none → t.osTcbPrioTbl p ≠ none

theorem Called.of_frame {deadline : Prio → Option ℕ} {delayedTo : Prio → ℕ}
    (h : t.frame = { s.frame with deadline := deadline, delayedTo := delayedTo }) : Called s t where
  osPrioCur := congrArg Frame.osPrioCur h
  osPrioHighRdy := congrArg Frame.osPrioHighRdy h
  osIntNesting := congrArg Frame.osIntNesting h
  osRunning := congrArg Frame.osRunning h
  ticking := congrArg Frame.ticking h
  tickLevel := congrArg Frame.tickLevel h
  pendSv := congrArg Frame.pendSv h
  pc := congrArg Frame.pc h
  stays p hp := by
    rw [← Option.isSome_iff_ne_none] at hp ⊢
    exact (congrFun (congrArg Frame.created h) p).trans hp

theorem called (c : Call α) : Called s (s.call c).1 := by
  have hpend {type : EventType} {e : EventId} {timeout : ℕ} :
      Called s (s.pend type e timeout).1 :=
    .of_frame frame_pend.choose_spec
  by_cases hc : c.frames
  · exact .of_frame (frame_call hc)
  · cases c with
    | osSemPend e timeout => exact hpend
    | osMboxPend e timeout => exact hpend
    | osqPend e timeout => exact hpend
    | osTimeDly ticks => exact .of_frame frame_osTimeDly.choose_spec
    | osTaskCreate prio =>
      rw [call, osTaskCreate]
      split_ifs
      · exact .of_frame rfl
      · exact .of_frame rfl
      · exact .of_frame rfl
      · refine ⟨rfl, rfl, rfl, rfl, rfl, rfl, rfl, rfl, fun p hp => ?_⟩
        change Function.update s.osTcbPrioTbl prio _ p ≠ none
        by_cases hprio : p = prio
        · rw [hprio, Function.update_self]
          exact Option.some_ne_none _
        · rwa [Function.update_of_ne hprio]
    | osSchedLock =>
      rw [call, osSchedLock]
      split_ifs <;> exact ⟨rfl, rfl, rfl, rfl, rfl, rfl, rfl, rfl, fun _ => id⟩
    | osSchedUnlock =>
      rw [call, osSchedUnlock]
      split_ifs <;> exact ⟨rfl, rfl, rfl, rfl, rfl, rfl, rfl, rfl, fun _ => id⟩
    | _ => exact absurd rfl hc

/-- Only the running task locks and unlocks the scheduler. -/
theorem osLockNesting_call (hlock : s.osRunning = true → s.osIntNesting > 0 ∧ c.forIsr) :
    (s.call c).1.osLockNesting = s.osLockNesting := by
  have hpend {type : EventType} {e : EventId} {timeout : ℕ} :
      (s.pend type e timeout).1.osLockNesting = s.osLockNesting :=
    congrArg Frame.osLockNesting frame_pend.choose_spec
  by_cases hc : c.frames
  · exact congrArg Frame.osLockNesting (frame_call hc)
  · cases c with
    | osSemPend e timeout => exact hpend
    | osMboxPend e timeout => exact hpend
    | osqPend e timeout => exact hpend
    | osTimeDly ticks => exact congrArg Frame.osLockNesting frame_osTimeDly.choose_spec
    | osTaskCreate prio =>
      rw [call, osTaskCreate]
      split_ifs <;> rfl
    | osSchedLock =>
      rw [call, osSchedLock, if_neg]
      rintro ⟨hrunning, hint, -⟩
      exact absurd hint (hlock hrunning).1.ne'
    | osSchedUnlock =>
      rw [call, osSchedUnlock, if_neg]
      rintro ⟨hrunning, -⟩
      exact Bool.false_ne_true (hlock hrunning).2
    | _ => exact absurd rfl hc

/-! ## The end of a call -/

/-- No other task has become ready and the running task stays ready if it is. -/
def Settled (s t : State α) : Prop :=
  (∀ p ∈ t.osRdy, p ∈ s.osRdy) ∧ (s.osPrioCur ∈ s.osRdy → s.osPrioCur ∈ t.osRdy)

theorem Settled.of_eq (h : t.osRdy = s.osRdy) : Settled s t := by
  rw [Settled, h]
  exact ⟨fun _ => id, id⟩

/-- How a call of the running task ends: it waits with the scheduler unlocked; it returns at once
and then need not look for another task, unless the scheduler is locked; or it looks for one. -/
def Ends (s t : State α) : Next → Prop
  | .ret => t.osLockNesting = 0 → s.osLockNesting = 0 ∧ Settled s t
  | .sched => True
  | .pend _ => t.osLockNesting = 0

theorem ends_refl : Ends s s .ret := fun hlock => ⟨hlock, .of_eq rfl⟩

theorem Ends.of_rdy (hlock : t.osLockNesting = s.osLockNesting) (hrdy : t.osRdy = s.osRdy) :
    Ends s t .ret :=
  fun h => ⟨hlock ▸ h, .of_eq hrdy⟩

theorem ends_pend {type : EventType} {timeout : ℕ} :
    Ends s (s.pend type e timeout).1 (s.pend type e timeout).2.2 := by
  rw [pend]
  split_ifs with htype hisr hlock
  · exact ends_refl
  · exact ends_refl
  · exact ends_refl
  · cases (s.osEventTbl e).content.take with
    | some taken => exact .of_rdy rfl rfl
    | none => exact Nat.eq_zero_of_not_pos hlock

theorem ends_post {type : EventType} {full : OsErr} {pmsg : Option α} :
    Ends s (s.post type full e pmsg).1 (s.post type full e pmsg).2.2 := by
  rw [post]
  split_ifs
  · exact ends_refl
  · trivial
  · cases (s.osEventTbl e).content.put pmsg with
    | none => exact ends_refl
    | some c => exact .of_rdy rfl rfl

theorem ends_create {c : Content α} : Ends s (s.create c).1 .ret := by
  rw [create]
  split_ifs
  · exact ends_refl
  · cases s.osEventFreeList with
    | nil => exact ends_refl
    | cons e free => exact .of_rdy rfl rfl

theorem ends_osqCreate {start : ℕ → Option α} {size : ℕ} :
    Ends s (s.osqCreate start size).1 .ret := by
  have hcreate := ends_create (s := s) (c := .q (.osqCreate start size))
  rw [osqCreate]
  split_ifs
  · exact ends_refl
  · dsimp only
    split_ifs <;> exact hcreate

theorem ends_del {type : EventType} : Ends s (s.del type e).1 (s.del type e).2.2 := by
  rw [del]
  split_ifs with htype hisr
  · exact ends_refl
  · exact ends_refl
  · dsimp only
    split_ifs with hgrp
    · trivial
    · -- no task waits, so the loop does nothing
      have hnone : s.readyAll e type 64 = s := by rw [readyAll, if_neg hgrp]
      refine .of_rdy ?_ ?_
      all_goals
        dsimp only [State.record, State.setFreeList, State.setContent, modifyEvent]
        rw [hnone]

theorem ends_osqDel : Ends s (s.osqDel e).1 (s.osqDel e).2.2 := by
  have hdel : Ends s (s.del .q e).1 (s.del .q e).2.2 := ends_del
  rw [osqDel]
  dsimp only
  split_ifs
  · generalize (s.del .q e).2.2 = next at hdel ⊢
    cases next <;> exact hdel
  · exact hdel

theorem ends_osTaskCreate (hrunning : s.osRunning = true) :
    Ends s (s.osTaskCreate p).1 (s.osTaskCreate p).2.2 := by
  rw [osTaskCreate]
  split_ifs
  · exact ends_refl
  · exact ends_refl
  · exact ends_refl
  · dsimp only
    rw [if_pos hrunning]
    trivial

theorem ends_osTaskSuspend : Ends s (s.osTaskSuspend p).1 (s.osTaskSuspend p).2.2 := by
  rw [osTaskSuspend]
  split_ifs with hnone
  · exact ends_refl
  dsimp only
  split_ifs with hself
  · trivial
  · refine fun hlock => ⟨hlock, fun q hq => (PriorityTable.mem_remove.mp hq).2, fun hcur => ?_⟩
    exact PriorityTable.mem_remove.mpr ⟨Ne.symm hself, hcur⟩

theorem ends_osTaskResume (hrunning : s.osRunning = true) :
    Ends s (s.osTaskResume p).1 (s.osTaskResume p).2.2 := by
  have hresumed : (s.modifyTcb p .resume).osRunning = true := hrunning
  rw [osTaskResume]
  cases s.osTcbPrioTbl p with
  | none => exact ends_refl
  | some τ =>
    dsimp only
    rw [if_pos hresumed]
    split_ifs
    · trivial
    · exact .of_rdy rfl rfl
    · exact ends_refl

theorem ends_osTimeDly {ticks : ℕ} : Ends s (s.osTimeDly ticks).1 (s.osTimeDly ticks).2 := by
  rw [osTimeDly]
  split_ifs
  · exact ends_refl
  · trivial

theorem ends_osSchedLock : Ends s s.osSchedLock .ret := by
  rw [osSchedLock]
  split_ifs
  · exact fun hlock => absurd hlock (Nat.succ_ne_zero _)
  · exact ends_refl

theorem ends_osSchedUnlock (hint : s.osIntNesting = 0) :
    Ends s s.osSchedUnlock.1 s.osSchedUnlock.2 := by
  rw [osSchedUnlock]
  split_ifs with hlocked
  · dsimp only
    split_ifs with hlast
    · trivial
    · exact fun hlock => absurd ⟨hlock, hint⟩ hlast
  · exact ends_refl

theorem ends_call (hrunning : s.osRunning = true) (hint : s.osIntNesting = 0) :
    Ends s (s.call c).1 (s.call c).2 := by
  cases c with
  | osSemCreate cnt => exact ends_create
  | osMboxCreate pmsg => exact ends_create
  | osqCreate start size => exact ends_osqCreate
  | osSemPend e timeout => exact ends_pend
  | osMboxPend e timeout => exact ends_pend
  | osqPend e timeout => exact ends_pend
  | osSemPost e => exact ends_post
  | osMboxPost e pmsg => exact ends_post
  | osqPost e pmsg => exact ends_post
  | osSemDel e => exact ends_del
  | osMboxDel e => exact ends_del
  | osqDel e => exact ends_osqDel
  | osTaskCreate prio => exact ends_osTaskCreate hrunning
  | osTaskSuspend prio => exact ends_osTaskSuspend
  | osTaskResume prio => exact ends_osTaskResume hrunning
  | osTimeDly ticks => exact ends_osTimeDly
  | osSchedLock => exact ends_osSchedLock
  | osSchedUnlock => exact ends_osSchedUnlock hint

end State

/-! ## Control blocks and event blocks along calls -/

namespace State

variable {s t : State α} {p q : Prio} {e : EventId} {c : Call α}

theorem pend_of_isr {type : EventType} {timeout : ℕ} (hisr : s.osIntNesting > 0) :
    (s.pend type e timeout).1 = s := by
  rw [pend]
  split_ifs <;> rfl

theorem call_of_isr (hisr : s.osIntNesting > 0) (hc : c.blocks) : (s.call c).1 = s := by
  cases c with
  | osSemPend e timeout => exact pend_of_isr hisr
  | osMboxPend e timeout => exact pend_of_isr hisr
  | osqPend e timeout => exact pend_of_isr hisr
  | osTimeDly ticks =>
    rw [call, osTimeDly, if_pos (.inl hisr)]
  | _ => cases hc

theorem Core.osqCreate (h : Core s) {start : ℕ → Option α} {size : ℕ} :
    Core (s.osqCreate start size).1 := by
  have hcreate := h.create (c := .q (.osqCreate start size))
  rw [State.osqCreate]
  split_ifs
  · exact h
  · dsimp only
    split_ifs
    · exact ⟨hcreate.tasks, hcreate.vacant, hcreate.types, hcreate.free, hcreate.free_nodup⟩
    · exact hcreate

theorem Core.osqDel (h : Core s) : Core (s.osqDel e).1 := by
  have hdel : Core (s.del .q e).1 := h.del
  rw [State.osqDel]
  dsimp only
  split_ifs
  · exact ⟨hdel.tasks, hdel.vacant, hdel.types, hdel.free, hdel.free_nodup⟩
  · exact hdel

theorem Core.osSchedLock (h : Core s) : Core s.osSchedLock := by
  rw [State.osSchedLock]
  split_ifs
  · exact ⟨h.tasks, h.vacant, h.types, h.free, h.free_nodup⟩
  · exact h

theorem Core.osSchedUnlock (h : Core s) : Core s.osSchedUnlock.1 := by
  rw [State.osSchedUnlock]
  split_ifs
  · exact ⟨h.tasks, h.vacant, h.types, h.free, h.free_nodup⟩
  · exact h

/-- A call that does not make its task wait. -/
theorem Core.call (h : Core s) (hc : c.blocks = false) :
    Core (s.call c).1 ∧ (s.call c).2.pc.pends = none := by
  have hsched {b : Prop} [Decidable b] : (if b then Next.sched else .ret).pc.pends = none := by
    split_ifs <;> rfl
  have hpost {type : EventType} {full : OsErr} {e : EventId} {pmsg : Option α} :
      (s.post type full e pmsg).2.2.pc.pends = none := by
    rw [State.post]
    split_ifs
    · rfl
    · rfl
    · cases (s.osEventTbl e).content.put pmsg <;> rfl
  have hdel {type : EventType} {e : EventId} : (s.del type e).2.2.pc.pends = none := by
    rw [State.del]
    split_ifs
    · rfl
    · rfl
    · exact hsched
  cases c with
  | osSemCreate cnt => exact ⟨h.create, rfl⟩
  | osMboxCreate pmsg => exact ⟨h.create, rfl⟩
  | osqCreate start size => exact ⟨h.osqCreate, rfl⟩
  | osSemPost e => exact ⟨h.post, hpost⟩
  | osMboxPost e pmsg => exact ⟨h.post, hpost⟩
  | osqPost e pmsg => exact ⟨h.post, hpost⟩
  | osSemDel e => exact ⟨h.del, hdel⟩
  | osMboxDel e => exact ⟨h.del, hdel⟩
  | osqDel e => exact ⟨h.osqDel, hdel⟩
  | osTaskCreate prio =>
    refine ⟨h.osTaskCreate, ?_⟩
    rw [State.call, State.osTaskCreate]
    split_ifs
    · rfl
    · rfl
    · rfl
    · exact hsched
  | osTaskSuspend prio =>
    refine ⟨h.osTaskSuspend, ?_⟩
    rw [State.call, State.osTaskSuspend]
    split_ifs
    · rfl
    · exact hsched
  | osTaskResume prio =>
    refine ⟨h.osTaskResume, ?_⟩
    rw [State.call, State.osTaskResume]
    cases s.osTcbPrioTbl prio with
    | none => rfl
    | some τ =>
      dsimp only
      split_ifs <;> rfl
  | osSchedLock => exact ⟨h.osSchedLock, rfl⟩
  | osSchedUnlock =>
    refine ⟨h.osSchedUnlock, ?_⟩
    rw [State.call, State.osSchedUnlock]
    split_ifs
    · exact hsched
    · rfl
  | _ => cases hc

/-- A call of a task, and the place the task is at behind it. -/
theorem Core.callSetPc (h : Core s) (hcur : s.osTcbPrioTbl s.osPrioCur ≠ none)
    (hpc : s.pc s.osPrioCur = .user) :
    Core ((s.call c).1.setPc s.osPrioCur (s.call c).2.pc) := by
  cases hc : c.blocks with
  | false =>
    obtain ⟨hcore, hnext⟩ := h.call hc
    refine hcore.setPc ?_ ((called c).stays _ hcur)
    rw [hnext, (called c).pc, hpc]
    rfl
  | true =>
    cases c with
    | osSemPend e timeout => exact h.pend hcur hpc
    | osMboxPend e timeout => exact h.pend hcur hpc
    | osqPend e timeout => exact h.pend hcur hpc
    | osTimeDly ticks => exact h.osTimeDly hcur hpc
    | _ => cases hc

/-! ## Tasks that no call touches -/

theorem osTcbPrioTbl_modifyTcb (f : Tcb α → Tcb α) (hq : q ≠ p) :
    (s.modifyTcb p f).osTcbPrioTbl q = s.osTcbPrioTbl q :=
  Function.update_of_ne hq _ _

@[simp] theorem osTcbPrioTbl_readyUnlessSuspended :
    (s.readyUnlessSuspended p).osTcbPrioTbl = s.osTcbPrioTbl := by
  rw [readyUnlessSuspended]
  split_ifs <;> rfl

/-- A message or a deletion reaches only tasks that wait. -/
theorem osTcbPrioTbl_osEventTaskRdy {pmsg : Option α} {msk : EventType}
    (hgrp : (s.osEventTbl e).wait.grp ≠ 0#8) (hq : ¬ (s.view q).waits e) :
    (s.osEventTaskRdy e pmsg msk).osTcbPrioTbl q = s.osTcbPrioTbl q := by
  have hwaits := lowest_waits hgrp
  have hne : q ≠ (s.osEventTbl e).wait.lowest osUnMap := by
    intro heq
    rw [← heq] at hwaits
    exact hq hwaits
  rw [osEventTaskRdy]
  change (State.readyUnlessSuspended _ _).osTcbPrioTbl q = _
  rw [osTcbPrioTbl_readyUnlessSuspended, osTcbPrioTbl_modifyTcb _ hne]

theorem osTcbPrioTbl_readyAll {msk : EventType} (n : ℕ) (hq : ¬ (s.view q).waits e) :
    (s.readyAll e msk n).osTcbPrioTbl q = s.osTcbPrioTbl q := by
  induction n generalizing s with
  | zero => rfl
  | succ n ih =>
    rw [readyAll]
    split_ifs with hgrp
    · have hwaits : ¬ ((s.osEventTaskRdy e none msk).view q).waits e := by
        intro hwaits
        change q ∈ ((s.osEventTaskRdy e none msk).osEventTbl e).wait at hwaits
        rw [wait_osEventTaskRdy] at hwaits
        exact hq (PriorityTable.mem_remove.mp hwaits).2
      rw [ih hwaits, osTcbPrioTbl_osEventTaskRdy hgrp hq]
    · rfl

theorem osTcbPrioTbl_del {type : EventType} (hq : ¬ (s.view q).waits e) :
    (s.del type e).1.osTcbPrioTbl q = s.osTcbPrioTbl q := by
  rw [del]
  split_ifs
  · rfl
  · rfl
  · exact osTcbPrioTbl_readyAll 64 hq

theorem osTcbPrioTbl_post {type : EventType} {full : OsErr} {pmsg : Option α}
    (hq : ¬ (s.view q).waits e) :
    (s.post type full e pmsg).1.osTcbPrioTbl q = s.osTcbPrioTbl q := by
  rw [post]
  split_ifs with htype hgrp
  · rfl
  · exact osTcbPrioTbl_osEventTaskRdy hgrp hq
  · cases (s.osEventTbl e).content.put pmsg <;> rfl

theorem osTcbPrioTbl_create {c : Content α} : (s.create c).1.osTcbPrioTbl = s.osTcbPrioTbl := by
  rw [create]
  split_ifs
  · rfl
  · cases s.osEventFreeList <;> rfl

/-- A call leaves the control block of a task alone that waits for nothing, is not suspended, and
does not make the call. -/
theorem osTcbPrioTbl_call {τ : Tcb α} (hτ : s.osTcbPrioTbl q = some τ)
    (hsuspend : τ.osTcbStat.suspend = false) (hq : ∀ e, ¬ (s.view q).waits e)
    (hc : c ≠ .osTaskSuspend q) (hself : c.blocks → q ≠ s.osPrioCur) :
    (s.call c).1.osTcbPrioTbl q = s.osTcbPrioTbl q := by
  have hpend {type : EventType} {e : EventId} {timeout : ℕ} (hne : q ≠ s.osPrioCur) :
      (s.pend type e timeout).1.osTcbPrioTbl q = s.osTcbPrioTbl q := by
    rw [pend]
    split_ifs
    · rfl
    · rfl
    · rfl
    · cases (s.osEventTbl e).content.take with
      | some taken => rfl
      | none => exact (osTcbPrioTbl_modifyTcb _ hne).trans (osTcbPrioTbl_modifyTcb _ hne)
  cases c with
  | osSemCreate cnt => exact congrFun osTcbPrioTbl_create q
  | osMboxCreate pmsg => exact congrFun osTcbPrioTbl_create q
  | osqCreate start size =>
    have hcreate := congrFun (osTcbPrioTbl_create (s := s) (c := .q (.osqCreate start size))) q
    rw [call, osqCreate]
    split_ifs
    · rfl
    · dsimp only
      split_ifs <;> exact hcreate
  | osSemPend e timeout => exact hpend (hself rfl)
  | osMboxPend e timeout => exact hpend (hself rfl)
  | osqPend e timeout => exact hpend (hself rfl)
  | osSemPost e => exact osTcbPrioTbl_post (hq e)
  | osMboxPost e pmsg => exact osTcbPrioTbl_post (hq e)
  | osqPost e pmsg => exact osTcbPrioTbl_post (hq e)
  | osSemDel e => exact osTcbPrioTbl_del (hq e)
  | osMboxDel e => exact osTcbPrioTbl_del (hq e)
  | osqDel e =>
    have hdel : (s.del .q e).1.osTcbPrioTbl q = s.osTcbPrioTbl q := osTcbPrioTbl_del (hq e)
    rw [call, osqDel]
    dsimp only
    split_ifs <;> exact hdel
  | osTaskCreate prio =>
    rw [call, osTaskCreate]
    split_ifs with hisr hexists hfree
    · rfl
    · rfl
    · rfl
    · refine Function.update_of_ne ?_ _ _
      rintro rfl
      rw [hτ] at hexists
      exact hexists rfl
  | osTaskSuspend prio =>
    have hne : q ≠ prio := fun heq => hc (heq ▸ rfl)
    rw [call, osTaskSuspend]
    split_ifs
    · rfl
    · exact osTcbPrioTbl_modifyTcb _ hne
  | osTaskResume prio =>
    rw [call, osTaskResume]
    cases hprio : s.osTcbPrioTbl prio with
    | none => rfl
    | some τ' =>
      dsimp only
      split_ifs with hsuspended
      all_goals
        first
        | rfl
        | refine osTcbPrioTbl_modifyTcb _ fun heq => ?_
          rw [← heq, hτ, Option.some.injEq] at hprio
          rw [← hprio, hsuspend] at hsuspended
          cases hsuspended
  | osTimeDly ticks =>
    rw [call, osTimeDly]
    split_ifs
    · rfl
    · exact osTcbPrioTbl_modifyTcb _ (hself rfl)
  | osSchedLock =>
    rw [call, osSchedLock]
    split_ifs <;> rfl
  | osSchedUnlock =>
    rw [call, osSchedUnlock]
    split_ifs <;> rfl

end State

end FanGateway.Kernel
