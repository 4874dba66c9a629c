import FanGateway.Kernel.Runs

/-!
# Tasks between ready and waiting

A task is in the table of ready tasks exactly if its control block says that it neither
pends nor is suspended nor delayed. Its control block points to the event block of the pend
it is in, also when a post has given it a message already. It is in the table of that event
block exactly if it has not been given one: it pends still, or its time has run out and it
has not got to the second half of the call yet.

An event block for which a task waits is in use and holds no message, and a task that
pends on an event block pends on the kind of event that the block is.
-/

namespace FanGateway.Kernel

open Lib

variable {α : Type*}

namespace State

variable {s t u : State α} {p q : Prio} {e : EventId}

/-! ## Changes of one place and the views of tasks -/

/-- No task but `p` sees a difference. -/
def OnlyFor (p : Prio) (s t : State α) : Prop := ∀ q, q ≠ p → t.view q = s.view q

theorem OnlyFor.refl : OnlyFor p s s := fun _ _ => rfl

theorem OnlyFor.trans (hst : OnlyFor p s t) (htu : OnlyFor p t u) : OnlyFor p s u :=
  fun q hq => (htu q hq).trans (hst q hq)

theorem view_ext (htcb : t.osTcbPrioTbl q = s.osTcbPrioTbl q) (hpc : t.pc q = s.pc q)
    (hready : q ∈ t.osRdy ↔ q ∈ s.osRdy)
    (hwaits : ∀ e, q ∈ (t.osEventTbl e).wait ↔ q ∈ (s.osEventTbl e).wait) :
    t.view q = s.view q := by
  rw [view, view, htcb, hpc, propext hready, funext fun e => propext (hwaits e)]

theorem wait_modifyEvent (f : Event α → Event α) (e' : EventId) :
    ((s.modifyEvent e f).osEventTbl e').wait =
      if e' = e then (f (s.osEventTbl e)).wait else (s.osEventTbl e').wait := by
  rw [modifyEvent]
  change (Function.update s.osEventTbl e _ e').wait = _
  by_cases he : e' = e
  · rw [he, Function.update_self, if_pos rfl]
  · rw [Function.update_of_ne he, if_neg he]

theorem content_modifyEvent (f : Event α → Event α) (e' : EventId) :
    ((s.modifyEvent e f).osEventTbl e').content =
      if e' = e then (f (s.osEventTbl e)).content else (s.osEventTbl e').content := by
  rw [modifyEvent]
  change (Function.update s.osEventTbl e _ e').content = _
  by_cases he : e' = e
  · rw [he, Function.update_self, if_pos rfl]
  · rw [Function.update_of_ne he, if_neg he]

theorem onlyFor_modifyTcb (f : Tcb α → Tcb α) : OnlyFor p s (s.modifyTcb p f) :=
  fun _ hq => view_ext (Function.update_of_ne hq _ _) rfl Iff.rfl fun _ => Iff.rfl

theorem onlyFor_ready : OnlyFor p s (s.ready p) :=
  fun _ hq => view_ext rfl rfl (PriorityTable.mem_insert.trans (or_iff_right hq)) fun _ => Iff.rfl

theorem onlyFor_unready : OnlyFor p s (s.unready p) :=
  fun _ hq => view_ext rfl rfl (PriorityTable.mem_remove.trans (and_iff_right hq)) fun _ => Iff.rfl

theorem onlyFor_readyUnlessSuspended : OnlyFor p s (s.readyUnlessSuspended p) := by
  rw [readyUnlessSuspended]
  split_ifs
  · exact onlyFor_ready
  · exact .refl

theorem onlyFor_wait : OnlyFor p s (s.wait e p) := by
  refine fun q hq => view_ext rfl rfl Iff.rfl fun e' => ?_
  rw [wait, wait_modifyEvent]
  split_ifs with he
  · rw [he]
    exact PriorityTable.mem_insert.trans (or_iff_right hq)
  · exact Iff.rfl

theorem onlyFor_osEventTaskRemove : OnlyFor p s (s.osEventTaskRemove e p) := by
  refine fun q hq => view_ext rfl rfl Iff.rfl fun e' => ?_
  rw [osEventTaskRemove, wait_modifyEvent]
  split_ifs with he
  · rw [he]
    exact PriorityTable.mem_remove.trans (and_iff_right hq)
  · exact Iff.rfl

theorem onlyFor_setPc (pc : Pc) : OnlyFor p s (s.setPc p pc) :=
  fun _ hq => view_ext rfl (Function.update_of_ne hq _ _) Iff.rfl fun _ => Iff.rfl

@[simp] theorem view_record (f : Ledger α → Ledger α) : (s.record f).view q = s.view q := rfl

@[simp] theorem view_setContent (c : Content α) : (s.setContent e c).view q = s.view q := by
  refine view_ext rfl rfl Iff.rfl fun e' => ?_
  rw [setContent, wait_modifyEvent]
  split_ifs with he
  · rw [he]
  · exact Iff.rfl

/-! ### What the task itself sees -/

theorem view_modifyTcb_self (f : Tcb α → Tcb α) :
    (s.modifyTcb p f).view p = { s.view p with tcb := (s.view p).tcb.map f } := by
  rw [view, View.mk.injEq]
  exact ⟨Function.update_self _ _ _, rfl, rfl, rfl⟩

theorem view_ready_self : (s.ready p).view p = { s.view p with ready := True } := by
  have hmem : p ∈ s.osRdy.insert p := PriorityTable.mem_insert.mpr (.inl rfl)
  simp [view, ready, hmem]

theorem view_unready_self : (s.unready p).view p = { s.view p with ready := False } := by
  simp [view, unready]

theorem view_wait_self :
    (s.wait e p).view p = { s.view p with waits := fun e' => e' = e ∨ (s.view p).waits e' } := by
  rw [view, View.mk.injEq]
  refine ⟨rfl, rfl, rfl, funext fun e' => propext ?_⟩
  rw [wait, wait_modifyEvent]
  by_cases he : e' = e
  · rw [he, if_pos rfl]
    exact PriorityTable.mem_insert.trans (or_congr_left (iff_of_true rfl rfl))
  · rw [if_neg he]
    exact (or_iff_right he).symm

theorem view_osEventTaskRemove_self :
    (s.osEventTaskRemove e p).view p =
      { s.view p with waits := fun e' => e' ≠ e ∧ (s.view p).waits e' } := by
  rw [view, View.mk.injEq]
  refine ⟨rfl, rfl, rfl, funext fun e' => propext ?_⟩
  rw [osEventTaskRemove, wait_modifyEvent]
  by_cases he : e' = e
  · rw [he, if_pos rfl]
    exact iff_of_false (fun h => (PriorityTable.mem_remove.mp h).1 rfl) fun h => h.1 rfl
  · rw [if_neg he]
    exact (and_iff_right he).symm

theorem view_setPc_self (pc : Pc) : (s.setPc p pc).view p = { s.view p with pc := pc } := by
  rw [view, View.mk.injEq]
  exact ⟨rfl, Function.update_self _ _ _, rfl, rfl⟩

theorem view_readyUnlessSuspended_self :
    (s.readyUnlessSuspended p).view p = { s.view p with
      ready := (s.view p).ready ∨ ∃ t, (s.view p).tcb = some t ∧ t.osTcbStat.suspend = false } := by
  rw [readyUnlessSuspended]
  cases htcb : s.osTcbPrioTbl p with
  | none => simp [view, htcb]
  | some t =>
    cases hsuspend : t.osTcbStat.suspend with
    | false =>
      rw [Option.any_some, hsuspend, Bool.not_false, if_pos rfl, view_ready_self]
      simp [view, htcb, hsuspend]
    | true => simp [view, htcb, hsuspend]

/-! ## Tables that agree with the control blocks -/

/-- What the state says about a task agrees. -/
structure View.Ok (v : View α) : Prop where
  ready_iff : v.ready ↔ ∃ t, v.tcb = some t ∧ t.osTcbStat = .rdy ∧ t.osTcbDly = 0
  waits_iff : ∀ e, v.waits e ↔ v.pc.pends = some e ∧
    ∃ t, v.tcb = some t ∧ (t.osTcbStat.pend ≠ none ∨ t.osTcbStatPend = .timeout)
  pends : ∀ t, v.tcb = some t → t.osTcbStat.pend ≠ none →
    v.pc.pends ≠ none ∧ t.osTcbStatPend = .ok
  awake : ∀ t, v.tcb = some t → v.pc.pends ≠ none → t.osTcbStat.pend = none → t.osTcbDly = 0
  exists_of_pc : v.tcb = none → v.pc = .user
  /-- The control block points to the event block of the pend to the end of the call. -/
  eventPtr : ∀ t, v.tcb = some t → t.osTcbEventPtr = v.pc.pends

/-- A task that is in no pend waits for nothing. -/
theorem View.Ok.not_waits {v : View α} (h : v.Ok) (hpc : v.pc.pends = none) : ¬ v.waits e := by
  intro hwaits
  have hsome := ((h.waits_iff e).mp hwaits).1
  rw [hpc] at hsome
  cases hsome

/-- The first half of a pend that waits. -/
theorem View.Ok.block {v : View α} {t : Tcb α} {type : EventType} {timeout : ℕ} (h : v.Ok)
    (hpc : v.pc.pends = none) :
    View.Ok ⟨some ((t.block type timeout).point e), .pendSched e, False,
      fun e' => e' = e ∨ v.waits e'⟩ := by
  have hnone := fun e' => h.not_waits (e := e') hpc
  rw [Tcb.block, Tcb.point]
  constructor
  · simp [Stat.rdy]
  · intro e'
    simp [hnone, Pc.pends, eq_comm]
  · simp [Pc.pends]
  · simp
  · simp
  · simp [Pc.pends]

/-- A message or a deletion ends the wait of a task. -/
theorem View.Ok.handed {v : View α} {t : Tcb α} {type : EventType} {msg : Option α} (h : v.Ok)
    (htcb : v.tcb = some t) (hwaits : v.waits e)
    (htype : t.osTcbStat.pend = none ∨ t.osTcbStat.pend = some type) :
    View.Ok ⟨some (t.hand msg type), v.pc, v.ready ∨ t.osTcbStat.suspend = false,
      fun e' => e' ≠ e ∧ v.waits e'⟩ := by
  obtain ⟨hpc, -⟩ := (h.waits_iff e).mp hwaits
  have hclear : t.osTcbStat.clear type = ⟨none, t.osTcbStat.suspend⟩ := by
    rw [Stat.clear]
    rcases htype with hnone | hsome
    · rw [hnone, if_neg (Option.some_ne_none type).symm, ← hnone]
    · rw [if_pos hsome]
  have hready : v.ready → t.osTcbStat.suspend = false := by
    intro hready
    obtain ⟨t', ht', hstat, -⟩ := h.ready_iff.mp hready
    rw [htcb, Option.some.injEq] at ht'
    rw [ht', hstat]
    rfl
  rw [Tcb.hand, hclear]
  constructor
  · simp only [Option.some.injEq, exists_eq_left', Stat.rdy, Stat.mk.injEq, true_and, and_true]
    exact ⟨fun hor => hor.elim hready id, .inr⟩
  · intro e'
    simp only [Option.some.injEq, exists_eq_left', reduceCtorEq, or_false, ne_eq, not_true_eq_false,
      and_false, iff_false, not_and]
    intro hne hwaits'
    have hpc' := ((h.waits_iff e').mp hwaits').1
    rw [hpc] at hpc'
    exact hne (Option.some.inj hpc').symm
  · simp
  · simp
  · simp
  · simpa using h.eventPtr t htcb

/-- The second half of a pend. -/
theorem View.Ok.resumed {v : View α} {t : Tcb α} (h : v.Ok) (htcb : v.tcb = some t)
    (hready : v.ready) (hpc : v.pc.pends = some e) :
    View.Ok { v with
      tcb := some t.clear
      pc := .user
      waits := fun e' => (t.osTcbStatPend = .timeout → e' ≠ e) ∧ v.waits e' } := by
  obtain ⟨t', ht', hstat, hdly⟩ := h.ready_iff.mp hready
  rw [htcb, Option.some.injEq] at ht'
  subst ht'
  rw [Tcb.clear]
  constructor
  · simp [hdly, hready]
  · intro e'
    simp only [Pc.pends, reduceCtorEq, false_and, iff_false, not_and]
    intro hne hwaits
    obtain ⟨hpc', t', ht', hpend | htimeout⟩ := (h.waits_iff e').mp hwaits
    all_goals
      rw [htcb, Option.some.injEq] at ht'
      subst ht'
    · rw [hstat] at hpend
      exact hpend rfl
    · rw [hpc, Option.some.injEq] at hpc'
      exact hne htimeout hpc'.symm
  · simp [Stat.rdy]
  · simp [Pc.pends]
  · simp
  · simp [Pc.pends]

/-- `OSTimeDly` of a task in no pend. -/
theorem View.Ok.delayed {v : View α} {t : Tcb α} {ticks : ℕ} (h : v.Ok) (htcb : v.tcb = some t)
    (hpc : v.pc.pends = none) (hticks : ticks ≠ 0) :
    View.Ok ⟨some { t with osTcbDly := ticks }, .sched, False, v.waits⟩ := by
  have hpend : t.osTcbStat.pend = none := by
    by_contra hpend
    exact (h.pends t htcb hpend).1 hpc
  constructor
  · simp [hticks]
  · intro e'
    simp [h.not_waits hpc, Pc.pends]
  · simp [hpend]
  · simp [Pc.pends]
  · simp
  · simpa [Pc.pends] using (h.eventPtr t htcb).trans hpc

/-- `OSTaskSuspend`. -/
theorem View.Ok.suspended {v : View α} {t : Tcb α} (h : v.Ok) (htcb : v.tcb = some t) :
    View.Ok { v with tcb := some t.suspend, ready := False } := by
  have hwaits := h.waits_iff
  have hpends := h.pends t htcb
  have hawake := h.awake t htcb
  rw [htcb] at hwaits
  rw [Tcb.suspend]
  constructor
  · simp [Stat.rdy]
  · simpa using hwaits
  · simpa using hpends
  · simpa using hawake
  · simp
  · simpa using h.eventPtr t htcb

/-- `OSTaskResume`. -/
theorem View.Ok.resume {v : View α} {t : Tcb α} (h : v.Ok) (htcb : v.tcb = some t) :
    View.Ok { v with
      tcb := some t.resume
      ready := v.ready ∨ t.osTcbStat.pend = none ∧ t.osTcbDly = 0 } := by
  have hready := h.ready_iff
  have hwaits := h.waits_iff
  have hpends := h.pends t htcb
  have hawake := h.awake t htcb
  rw [htcb] at hwaits hready
  simp only [Option.some.injEq, exists_eq_left'] at hready
  rw [Tcb.resume]
  constructor
  · simp only [Option.some.injEq, exists_eq_left', Stat.rdy, Stat.mk.injEq, and_true]
    refine or_iff_right_of_imp fun hr => ?_
    obtain ⟨hstat, hdly⟩ := hready.mp hr
    exact ⟨congrArg Stat.pend hstat, hdly⟩
  · simpa using hwaits
  · simpa using hpends
  · simpa using hawake
  · simp
  · simpa using h.eventPtr t htcb

/-- `OSTaskCreate`. -/
theorem View.Ok.created {v : View α} (h : v.Ok) (htcb : v.tcb = none) :
    View.Ok { v with tcb := some (Tcb.init : Tcb α), ready := True } := by
  have hpc := h.exists_of_pc htcb
  rw [Tcb.init]
  constructor
  · simp
  · intro e'
    simp [h.not_waits (hpc ▸ rfl : v.pc.pends = none), hpc, Pc.pends]
  · simp [Stat.rdy]
  · simp
  · simp
  · simp [hpc, Pc.pends]

/-- A tick that is not the last one of a delay. -/
theorem View.Ok.tick {v : View α} {t : Tcb α} (h : v.Ok) (htcb : v.tcb = some t)
    (hdly : t.osTcbDly - 1 ≠ 0) :
    View.Ok { v with tcb := some { t with osTcbDly := t.osTcbDly - 1 } } := by
  have hready := h.ready_iff
  have hwaits := h.waits_iff
  have hpends := h.pends t htcb
  have hawake := h.awake t htcb
  rw [htcb] at hwaits hready
  simp only [Option.some.injEq, exists_eq_left'] at hready
  have hzero : t.osTcbDly ≠ 0 := fun hzero => hdly (by rw [hzero])
  constructor
  · simp only [Option.some.injEq, exists_eq_left']
    exact hready.trans (iff_of_false (fun h => hzero h.2) fun h => hdly h.2)
  · simpa using hwaits
  · simpa using hpends
  · intro t' ht' hpc hpend
    rw [Option.some.injEq] at ht'
    subst ht'
    exact absurd (hawake hpc hpend) hzero
  · simp
  · simpa using h.eventPtr t htcb

/-- The last tick of a delay or of a wait. -/
theorem View.Ok.expired {v : View α} {t : Tcb α} (h : v.Ok) (htcb : v.tcb = some t)
    (hdly : t.osTcbDly ≠ 0) :
    View.Ok { v with
      tcb := some (Tcb.expire { t with osTcbDly := 0 })
      ready := v.ready ∨ t.osTcbStat.suspend = false } := by
  have hready : ¬ v.ready := by
    rw [h.ready_iff]
    rintro ⟨t', ht', -, hzero⟩
    rw [htcb, Option.some.injEq] at ht'
    exact hdly (ht' ▸ hzero)
  have hpends := h.pends t htcb
  by_cases hpend : t.osTcbStat.pend = none
  · -- a delay: the task is in no pend, since there it would be awake
    have hpc : v.pc.pends = none := by
      by_contra hpc
      exact hdly (h.awake t htcb hpc hpend)
    rw [Tcb.expire, if_neg (not_not.mpr hpend)]
    constructor
    · simp [hready, Stat.rdy, Stat.ext_iff, hpend]
    · intro e'
      simp [h.not_waits hpc, hpc]
    · simp [hpend]
    · simp
    · simp
    · simpa using h.eventPtr t htcb
  · obtain ⟨hpc, -⟩ := hpends hpend
    rw [Tcb.expire, if_pos hpend]
    have hwaits := h.waits_iff
    rw [htcb] at hwaits
    constructor
    · simp [hready, Stat.rdy]
    · intro e'
      rw [hwaits e']
      simp [hpend]
    · simp
    · simp
    · simp
    · simpa using h.eventPtr t htcb

/-! ## Event blocks and the tasks that wait -/

/-- What the control blocks, the tables and the event blocks say about each other. -/
structure Core (s : State α) : Prop where
  tasks : ∀ p, (s.view p).Ok
  /-- An event block for which a task waits is in use and holds no message. -/
  vacant : ∀ p e, (s.view p).waits e →
    (s.osEventTbl e).content.msgs = [] ∧ (s.osEventTbl e).content ≠ .unused
  /-- A task pends on the kind of event that the block is. -/
  types : ∀ p t e type, (s.view p).tcb = some t → t.osTcbStat.pend = some type →
    (s.view p).pc.pends = some e → (s.osEventTbl e).content.osEventType = some type
  free : ∀ e ∈ s.osEventFreeList, (s.osEventTbl e).content = .unused
  free_nodup : s.osEventFreeList.Nodup

@[simp] theorem content_wait (e' : EventId) :
    ((s.wait e p).osEventTbl e').content = (s.osEventTbl e').content := by
  rw [wait, content_modifyEvent]
  split_ifs with he
  · rw [he]
  · rfl

@[simp] theorem content_osEventTaskRemove (e' : EventId) :
    ((s.osEventTaskRemove e p).osEventTbl e').content = (s.osEventTbl e').content := by
  rw [osEventTaskRemove, content_modifyEvent]
  split_ifs with he
  · rw [he]
  · rfl

@[simp] theorem content_readyUnlessSuspended (e' : EventId) :
    ((s.readyUnlessSuspended p).osEventTbl e').content = (s.osEventTbl e').content := by
  rw [readyUnlessSuspended]
  split_ifs <;> rfl

@[simp] theorem osEventFreeList_readyUnlessSuspended :
    (s.readyUnlessSuspended p).osEventFreeList = s.osEventFreeList := by
  rw [readyUnlessSuspended]
  split_ifs <;> rfl

/-- A change that one task sees keeps what holds of the event blocks if it holds of that task. -/
theorem Core.of_onlyFor (h : Core s) (honly : OnlyFor p s t)
    (hcontent : ∀ e, (t.osEventTbl e).content = (s.osEventTbl e).content)
    (hfree : t.osEventFreeList = s.osEventFreeList) (hok : (t.view p).Ok)
    (hwaits : ∀ e, (t.view p).waits e →
      (s.osEventTbl e).content.msgs = [] ∧ (s.osEventTbl e).content ≠ .unused)
    (htypes : ∀ τ e type, (t.view p).tcb = some τ → τ.osTcbStat.pend = some type →
      (t.view p).pc.pends = some e → (s.osEventTbl e).content.osEventType = some type) :
    Core t where
  tasks q := by
    by_cases hq : q = p
    · exact hq ▸ hok
    · exact honly q hq ▸ h.tasks q
  vacant q e := by
    rw [hcontent]
    by_cases hq : q = p
    · exact hq ▸ hwaits e
    · exact honly q hq ▸ h.vacant q e
  types q τ e type := by
    rw [hcontent]
    by_cases hq : q = p
    · exact hq ▸ htypes τ e type
    · exact honly q hq ▸ h.types q τ e type
  free e he := by
    rw [hcontent]
    exact h.free e (hfree ▸ he)
  free_nodup := hfree ▸ h.free_nodup

/-- The same for a change of a task that is in the same pend as before and pends on it if it did. -/
theorem Core.of_same_pend (h : Core s) (honly : OnlyFor p s t)
    (hcontent : ∀ e, (t.osEventTbl e).content = (s.osEventTbl e).content)
    (hfree : t.osEventFreeList = s.osEventFreeList) (hok : (t.view p).Ok)
    (hwaits : ∀ e, (t.view p).waits e → (s.view p).waits e)
    (hpc : (t.view p).pc = (s.view p).pc)
    (hpend : ∀ τ type, (t.view p).tcb = some τ → τ.osTcbStat.pend = some type →
      ∃ τ', (s.view p).tcb = some τ' ∧ τ'.osTcbStat.pend = some type) : Core t := by
  refine h.of_onlyFor honly hcontent hfree hok (fun e he => h.vacant p e (hwaits e he)) ?_
  intro τ e type hτ htype hpends
  obtain ⟨τ', hτ', htype'⟩ := hpend τ type hτ htype
  rw [hpc] at hpends
  exact h.types p τ' e type hτ' htype' hpends

theorem setPc_record (f : Ledger α → Ledger α) (pc : Pc) :
    (s.record f).setPc p pc = (s.setPc p pc).record f := rfl

theorem Core.record (h : Core s) (f : Ledger α → Ledger α) : Core (s.record f) :=
  ⟨h.tasks, h.vacant, h.types, h.free, h.free_nodup⟩

theorem Core.setFreeList (h : Core s) {free : List EventId}
    (hfree : ∀ e ∈ free, (s.osEventTbl e).content = .unused) (hnodup : free.Nodup) :
    Core (s.setFreeList free) :=
  ⟨h.tasks, h.vacant, h.types, hfree, hnodup⟩

/-- A task goes on within a call or a pend. -/
theorem Core.setPc (h : Core s) {pc : Pc} (hpc : pc.pends = (s.pc p).pends)
    (htcb : s.osTcbPrioTbl p ≠ none) : Core (s.setPc p pc) := by
  have hok := h.tasks p
  have hview := view_setPc_self (s := s) (p := p) pc
  refine h.of_onlyFor (onlyFor_setPc pc) (fun _ => rfl) rfl ?_ ?_ ?_
  · rw [hview]
    refine ⟨hok.ready_iff, fun e => ?_, fun t ht => ?_, fun t ht => ?_, fun hnone => ?_,
      fun t ht => ?_⟩
    · rw [hpc]
      exact hok.waits_iff e
    · rw [hpc]
      exact hok.pends t ht
    · rw [hpc]
      exact hok.awake t ht
    · exact absurd hnone htcb
    · exact (hok.eventPtr t ht).trans hpc.symm
  · rw [hview]
    exact h.vacant p
  · rw [hview]
    intro τ e type hτ htype hpends
    rw [hpc] at hpends
    exact h.types p τ e type hτ htype hpends

/-- A task that waits exists, and pends on the kind of event that the block is if it pends. -/
theorem Core.of_waits (h : Core s) (hwaits : (s.view p).waits e) :
    ∃ τ, s.osTcbPrioTbl p = some τ ∧ ∀ type, (s.osEventTbl e).content.osEventType = some type →
      τ.osTcbStat.pend = none ∨ τ.osTcbStat.pend = some type := by
  obtain ⟨hpc, τ, hτ, -⟩ := ((h.tasks p).waits_iff e).mp hwaits
  refine ⟨τ, hτ, fun type htype => ?_⟩
  cases hpend : τ.osTcbStat.pend with
  | none => exact .inl rfl
  | some type' =>
    have htype' := h.types p τ e type' hτ hpend hpc
    rw [htype] at htype'
    exact .inr htype'.symm

/-! ### Making a waiting task ready -/

section EventTaskRdy

variable {pmsg : Option α} {msk : EventType}

theorem onlyFor_osEventTaskRdy :
    OnlyFor ((s.osEventTbl e).wait.lowest osUnMap) s (s.osEventTaskRdy e pmsg msk) := by
  intro q hq
  rw [osEventTaskRdy, view_record, onlyFor_osEventTaskRemove q hq,
    onlyFor_readyUnlessSuspended q hq, onlyFor_modifyTcb _ q hq]

/-- What the task of the highest priority sees that waits. -/
theorem view_osEventTaskRdy {τ : Tcb α} (hp : (s.osEventTbl e).wait.lowest osUnMap = p)
    (hτ : (s.view p).tcb = some τ) :
    (s.osEventTaskRdy e pmsg msk).view p = ⟨some (τ.hand pmsg msk), (s.view p).pc,
      (s.view p).ready ∨ τ.osTcbStat.suspend = false, fun e' => e' ≠ e ∧ (s.view p).waits e'⟩ := by
  have hsuspend : (τ.osTcbStat.clear msk).suspend = τ.osTcbStat.suspend := by
    rw [Stat.clear]
    split_ifs <;> rfl
  rw [osEventTaskRdy, hp, view_record, view_osEventTaskRemove_self, view_readyUnlessSuspended_self,
    view_modifyTcb_self, hτ]
  simp [Tcb.hand, hsuspend]

@[simp] theorem content_osEventTaskRdy (e' : EventId) :
    ((s.osEventTaskRdy e pmsg msk).osEventTbl e').content = (s.osEventTbl e').content := by
  rw [osEventTaskRdy]
  change ((State.osEventTaskRemove e _ _).osEventTbl e').content = _
  rw [content_osEventTaskRemove, content_readyUnlessSuspended]
  rfl

theorem osEventFreeList_osEventTaskRdy :
    (s.osEventTaskRdy e pmsg msk).osEventFreeList = s.osEventFreeList := by
  simp only [osEventTaskRdy, record, osEventTaskRemove, modifyEvent,
    osEventFreeList_readyUnlessSuspended, modifyTcb]

theorem lowest_waits (hgrp : (s.osEventTbl e).wait.grp ≠ 0#8) :
    (s.view ((s.osEventTbl e).wait.lowest osUnMap)).waits e := by
  have hmem := PriorityTable.lowest_mem osUnMap hgrp
  generalize (s.osEventTbl e).wait.lowest osUnMap = p at hmem ⊢
  exact hmem

theorem Core.osEventTaskRdy (h : Core s) (hgrp : (s.osEventTbl e).wait.grp ≠ 0#8)
    (htype : (s.osEventTbl e).content.osEventType = some msk) :
    Core (s.osEventTaskRdy e pmsg msk) := by
  have hwaits := lowest_waits hgrp
  generalize hp : (s.osEventTbl e).wait.lowest osUnMap = p at hwaits
  obtain ⟨τ, hτ, hpend⟩ := h.of_waits hwaits
  have hview : (s.osEventTaskRdy e pmsg msk).view p = ⟨some (τ.hand pmsg msk), _, _, _⟩ :=
    view_osEventTaskRdy hp hτ
  have hclear : (τ.osTcbStat.clear msk).pend = none := by
    rw [Stat.clear]
    rcases hpend msk htype with hnone | hsome
    · rw [hnone, if_neg (Option.some_ne_none msk).symm, hnone]
    · rw [if_pos hsome]
  refine h.of_same_pend (hp ▸ onlyFor_osEventTaskRdy) content_osEventTaskRdy
    osEventFreeList_osEventTaskRdy ?_ ?_ ?_ ?_
  · rw [hview]
    exact (h.tasks p).handed hτ hwaits (hpend msk htype)
  · rw [hview]
    exact fun e' he' => he'.2
  · rw [hview]
  · rw [hview]
    intro τ' type hτ' htype'
    rw [← Option.some.inj hτ', Tcb.hand, hclear] at htype'
    cases htype'

end EventTaskRdy

/-! ### Event blocks without waiting tasks -/

theorem grp_eq_zero_iff_waits : (s.osEventTbl e).wait.grp = 0#8 ↔ ∀ p, ¬ (s.view p).waits e :=
  PriorityTable.grp_eq_zero_iff

/-- If no task waits for an event block, it may be put to another use. -/
theorem Core.setContent (h : Core s) {c : Content α} (hgrp : (s.osEventTbl e).wait.grp = 0#8)
    (hfree : e ∈ s.osEventFreeList → c = .unused) : Core (s.setContent e c) := by
  have hnone := grp_eq_zero_iff_waits.mp hgrp
  have hcontent (e' : EventId) (he : e' ≠ e) :
      ((s.setContent e c).osEventTbl e').content = (s.osEventTbl e').content := by
    rw [State.setContent, content_modifyEvent, if_neg he]
  refine ⟨fun p => ?_, fun p e' hwaits => ?_, fun p τ e' type hτ hpend hpc => ?_,
    fun e' he' => ?_, h.free_nodup⟩
  · rw [view_setContent]
    exact h.tasks p
  · rw [view_setContent] at hwaits
    rw [hcontent e' fun he => hnone p (he ▸ hwaits)]
    exact h.vacant p e' hwaits
  · rw [view_setContent] at hτ hpc
    have hne : e' ≠ e := by
      intro he
      refine hnone p (he ▸ ((h.tasks p).waits_iff e').mpr ⟨hpc, τ, hτ, .inl ?_⟩)
      exact hpend ▸ Option.some_ne_none type
    rw [hcontent e' hne]
    exact h.types p τ e' type hτ hpend hpc
  · by_cases he : e' = e
    · rw [State.setContent, content_modifyEvent, if_pos he]
      exact hfree (he ▸ he')
    · rw [hcontent e' he]
      exact h.free e' he'

/-- A block that is in use is not on the free list. -/
theorem Core.not_free (h : Core s) {type : EventType}
    (htype : (s.osEventTbl e).content.osEventType = some type) : e ∉ s.osEventFreeList := by
  intro he
  rw [h.free e he] at htype
  cases htype

theorem Core.post (h : Core s) {type : EventType} {full : OsErr} {pmsg : Option α} :
    Core (s.post type full e pmsg).1 := by
  rw [State.post]
  split_ifs with htype hgrp
  · exact h
  · exact h.osEventTaskRdy hgrp (not_not.mp htype)
  · cases hput : (s.osEventTbl e).content.put pmsg with
    | none => exact h
    | some c =>
      dsimp only
      refine (h.setContent (not_not.mp hgrp) fun he => ?_).record _
      exact absurd he (h.not_free (not_not.mp htype))

/-! ### Creation and deletion -/

theorem wait_osEventTaskRdy {pmsg : Option α} {msk : EventType} :
    ((s.osEventTaskRdy e pmsg msk).osEventTbl e).wait =
      (s.osEventTbl e).wait.remove ((s.osEventTbl e).wait.lowest osUnMap) := by
  have hready (s : State α) (p : Prio) :
      ((s.readyUnlessSuspended p).osEventTbl e).wait = (s.osEventTbl e).wait := by
    rw [readyUnlessSuspended]
    split_ifs <;> rfl
  rw [osEventTaskRdy]
  change ((State.osEventTaskRemove e _ _).osEventTbl e).wait = _
  rw [osEventTaskRemove, wait_modifyEvent, if_pos rfl]
  change (Event.wait _).remove _ = _
  rw [hready]
  rfl

/-- The loop of a deletion ends with no task waiting, and changes no contents. -/
theorem Core.readyAll {msk : EventType} (n : ℕ) (h : Core s)
    (htype : (s.osEventTbl e).content.osEventType = some msk)
    (hn : (s.osEventTbl e).wait.toFinset.card ≤ n) :
    Core (s.readyAll e msk n) ∧ ((s.readyAll e msk n).osEventTbl e).wait.grp = 0#8 ∧
      (s.readyAll e msk n).osEventFreeList = s.osEventFreeList ∧
      ((s.readyAll e msk n).osEventTbl e).content = (s.osEventTbl e).content := by
  induction n generalizing s with
  | zero =>
    refine ⟨h, ?_, rfl, rfl⟩
    by_contra hgrp
    exact absurd (PriorityTable.card_pos_iff.mpr hgrp) (Nat.not_lt.mpr hn)
  | succ n ih =>
    rw [State.readyAll]
    split_ifs with hgrp
    · have hcard : ((s.osEventTaskRdy e none msk).osEventTbl e).wait.toFinset.card ≤ n := by
        rw [wait_osEventTaskRdy,
          PriorityTable.card_remove (PriorityTable.lowest_mem osUnMap hgrp)]
        exact Nat.sub_le_of_le_add hn
      have hrest := ih (h.osEventTaskRdy hgrp htype)
        (by rw [content_osEventTaskRdy, htype]) hcard
      rw [osEventFreeList_osEventTaskRdy, content_osEventTaskRdy] at hrest
      exact hrest
    · exact ⟨h, not_not.mp hgrp, rfl, rfl⟩

theorem card_wait_le : (s.osEventTbl e).wait.toFinset.card ≤ 64 :=
  (Finset.card_le_univ _).trans_eq (Fintype.card_fin _)

theorem Core.del (h : Core s) {type : EventType} : Core (s.del type e).1 := by
  rw [State.del]
  split_ifs with htype
  · exact h
  · exact h
  · obtain ⟨hcore, hgrp, hfree, hcontent⟩ := h.readyAll 64 (not_not.mp htype) card_wait_le
    have hused : e ∉ (s.readyAll e type 64).osEventFreeList :=
      hcore.not_free (hcontent.symm ▸ not_not.mp htype)
    have hunused := hcore.setContent (c := .unused) hgrp fun _ => rfl
    dsimp only
    refine (hunused.setFreeList (fun e' he' => ?_) ?_).record _
    · rcases List.mem_cons.mp he' with rfl | he'
      · rw [State.setContent, content_modifyEvent, if_pos rfl]
      · exact hunused.free e' he'
    · exact List.nodup_cons.mpr ⟨hused, hunused.free_nodup⟩

theorem Core.create (h : Core s) {c : Content α} : Core (s.create c).1 := by
  rw [State.create]
  split_ifs
  · exact h
  · cases hfree : s.osEventFreeList with
    | nil => exact h
    | cons e free =>
      have hnodup := h.free_nodup
      rw [hfree, List.nodup_cons] at hnodup
      have hunused : (s.osEventTbl e).content = .unused := h.free e (by simp [hfree])
      have hnone : ∀ p, ¬ (s.view p).waits e := fun p hp => (h.vacant p e hp).2 hunused
      -- the table of waiting tasks is cleared, but it was empty before
      have hwait : (s.osEventTbl e).wait = .empty 8 := by
        refine PriorityTable.ext_mem fun p => iff_of_false (hnone p) ?_
        exact PriorityTable.not_mem_empty
      have hcore : Core (s.setFreeList free) := by
        refine h.setFreeList (fun e' he' => h.free e' ?_) hnodup.2
        rw [hfree]
        exact List.mem_cons_of_mem e he'
      have hnew : Core ((s.setFreeList free).setContent e c) :=
        hcore.setContent (grp_eq_zero_iff_waits.mpr hnone) fun he => absurd he hnodup.1
      have heq : (s.setFreeList free).setContent e c =
          (s.setFreeList free).modifyEvent e fun _ => ⟨c, .empty 8⟩ := by
        rw [State.setContent, modifyEvent, modifyEvent, ← hwait]
        rfl
      dsimp only
      exact (heq ▸ hnew).record _

/-! ### Changes of the control block of one task -/

theorem Core.osTaskCreate (h : Core s) : Core (s.osTaskCreate p).1 := by
  rw [State.osTaskCreate]
  split_ifs with hisr hexists hfree
  · exact h
  · exact h
  · exact h
  · rw [Bool.not_eq_true, Option.isSome_eq_false_iff, Option.isNone_iff_eq_none] at hexists
    have hview : (State.ready p { s with
        osTcbPrioTbl := Function.update s.osTcbPrioTbl p (some .init)
        osTcbList := p :: s.osTcbList
        osTcbFree := s.osTcbFree - 1 }).view p =
          { s.view p with tcb := some .init, ready := True } := by
      rw [view_ready_self, View.mk.injEq]
      exact ⟨Function.update_self _ _ _, rfl, rfl, rfl⟩
    refine h.of_onlyFor (p := p) (fun q hq => ?_) (fun _ => rfl) rfl ?_ ?_ ?_
    · refine (onlyFor_ready q hq).trans (view_ext (Function.update_of_ne hq _ _) rfl Iff.rfl ?_)
      exact fun _ => Iff.rfl
    · rw [hview]
      exact (h.tasks p).created hexists
    · rw [hview]
      exact h.vacant p
    · rw [hview]
      intro τ e type hτ htype
      rw [← Option.some.inj hτ] at htype
      cases htype

theorem Core.osTaskSuspend (h : Core s) : Core (s.osTaskSuspend p).1 := by
  rw [State.osTaskSuspend]
  split_ifs with hnone
  · exact h
  · rw [Option.isNone_iff_eq_none] at hnone
    obtain ⟨τ, hτ⟩ := Option.ne_none_iff_exists'.mp hnone
    have hview : ((s.unready p).modifyTcb p .suspend).view p =
        { s.view p with tcb := some τ.suspend, ready := False } := by
      rw [view_modifyTcb_self, view_unready_self, View.mk.injEq]
      exact ⟨congrArg (Option.map Tcb.suspend) hτ, rfl, rfl, rfl⟩
    refine h.of_same_pend (onlyFor_unready.trans (onlyFor_modifyTcb _)) (fun _ => rfl) rfl
      ?_ ?_ ?_ ?_
    · rw [hview]
      exact (h.tasks p).suspended hτ
    · rw [hview]
      exact fun _ => id
    · rw [hview]
    · rw [hview]
      rintro τ' type hτ' htype
      rw [← Option.some.inj hτ'] at htype
      exact ⟨τ, hτ, htype⟩

theorem Core.osTaskResume (h : Core s) : Core (s.osTaskResume p).1 := by
  rw [State.osTaskResume]
  cases hτ : s.osTcbPrioTbl p with
  | none => exact h
  | some τ =>
    have hview : (s.modifyTcb p .resume).view p = { s.view p with tcb := some τ.resume } := by
      rw [view_modifyTcb_self, View.mk.injEq]
      exact ⟨congrArg (Option.map Tcb.resume) hτ, rfl, rfl, rfl⟩
    have hok := (h.tasks p).resume hτ
    have hpend (τ' : Tcb α) (type : EventType) (hτ' : some τ.resume = some τ')
        (htype : τ'.osTcbStat.pend = some type) :
        ∃ τ', (s.view p).tcb = some τ' ∧ τ'.osTcbStat.pend = some type := by
      rw [← Option.some.inj hτ'] at htype
      exact ⟨τ, hτ, htype⟩
    dsimp only
    by_cases hsuspend : τ.osTcbStat.suspend = true
    · rw [if_pos hsuspend]
      by_cases hready : τ.osTcbStat.pend = none ∧ τ.osTcbDly = 0
      · have hviewReady := view_ready_self (s := s.modifyTcb p .resume) (p := p)
        rw [hview] at hviewReady
        rw [if_pos hready]
        refine h.of_same_pend ((onlyFor_modifyTcb _).trans onlyFor_ready) (fun _ => rfl) rfl
          ?_ ?_ ?_ ?_
        · rw [hviewReady]
          simpa [hready] using hok
        · rw [hviewReady]
          exact fun _ => id
        · rw [hviewReady]
        · rw [hviewReady]
          exact hpend
      · rw [if_neg hready]
        refine h.of_same_pend (onlyFor_modifyTcb _) (fun _ => rfl) rfl ?_ ?_ ?_ ?_
        · rw [hview]
          simpa [hready] using hok
        · rw [hview]
          exact fun _ => id
        · rw [hview]
        · rw [hview]
          exact hpend
    · rw [if_neg hsuspend]
      exact h

theorem Core.tickTask (h : Core s) : Core (s.tickTask p) := by
  rw [State.tickTask]
  cases hτ : s.osTcbPrioTbl p with
  | none => exact h
  | some τ =>
    dsimp only
    split_ifs with hdly hlast
    · have hview : (((s.modifyTcb p fun t => { t with osTcbDly := t.osTcbDly - 1 }).modifyTcb p
          .expire).readyUnlessSuspended p).view p = { s.view p with
            tcb := some (Tcb.expire { τ with osTcbDly := 0 })
            ready := (s.view p).ready ∨ τ.osTcbStat.suspend = false } := by
        have hsuspend : (Tcb.expire { τ with osTcbDly := 0 }).osTcbStat.suspend =
            τ.osTcbStat.suspend := by
          rw [Tcb.expire]
          split_ifs <;> rfl
        rw [view_readyUnlessSuspended_self, view_modifyTcb_self, view_modifyTcb_self]
        have htcb : (s.view p).tcb = some τ := hτ
        simp [htcb, hlast, hsuspend]
      refine h.of_same_pend (((onlyFor_modifyTcb _).trans (onlyFor_modifyTcb _)).trans
        onlyFor_readyUnlessSuspended) (fun e => ?_) ?_ ?_ ?_ ?_ ?_
      · rw [content_readyUnlessSuspended]
        rfl
      · rw [osEventFreeList_readyUnlessSuspended]
        rfl
      · rw [hview]
        exact (h.tasks p).expired hτ hdly
      · rw [hview]
        exact fun _ => id
      · rw [hview]
      · rw [hview]
        intro τ' type hτ' htype
        rw [← Option.some.inj hτ', Tcb.expire] at htype
        split_ifs at htype
        exact ⟨τ, hτ, htype⟩
    · have hview : (s.modifyTcb p fun t => { t with osTcbDly := t.osTcbDly - 1 }).view p =
          { s.view p with tcb := some { τ with osTcbDly := τ.osTcbDly - 1 } } := by
        rw [view_modifyTcb_self, View.mk.injEq]
        exact ⟨congrArg (Option.map _) hτ, rfl, rfl, rfl⟩
      refine h.of_same_pend (onlyFor_modifyTcb _) (fun _ => rfl) rfl ?_ ?_ ?_ ?_
      · rw [hview]
        exact (h.tasks p).tick hτ hlast
      · rw [hview]
        exact fun _ => id
      · rw [hview]
      · rw [hview]
        intro τ' type hτ' htype
        rw [← Option.some.inj hτ'] at htype
        exact ⟨τ, hτ, htype⟩
    · exact h

/-! ### Calls that block -/

/-- Nobody but the running task sees that it begins to wait. -/
theorem onlyFor_blocked (type : EventType) (timeout : ℕ) :
    OnlyFor s.osPrioCur s
      (((s.modifyTcb s.osPrioCur (.block type timeout)).osEventTaskWait e).setPc s.osPrioCur
        (.pendSched e)) :=
  (onlyFor_modifyTcb _).trans ((onlyFor_modifyTcb _).trans (onlyFor_wait.trans
    (onlyFor_unready.trans (onlyFor_setPc _))))

/-- The control block of a task that begins to wait. -/
theorem osTcbPrioTbl_blocked (type : EventType) (timeout : ℕ) :
    ((s.modifyTcb s.osPrioCur (.block type timeout)).osEventTaskWait e).osTcbPrioTbl s.osPrioCur =
      ((s.osTcbPrioTbl s.osPrioCur).map (.block type timeout)).map (.point e) := by
  change Function.update (Function.update s.osTcbPrioTbl s.osPrioCur _) s.osPrioCur
    (Option.map _ (Function.update s.osTcbPrioTbl s.osPrioCur _ s.osPrioCur)) s.osPrioCur = _
  rw [Function.update_self, Function.update_self]
  rfl

theorem view_blocked (type : EventType) (timeout : ℕ) {τ : Tcb α}
    (hτ : s.osTcbPrioTbl s.osPrioCur = some τ) :
    (((s.modifyTcb s.osPrioCur (.block type timeout)).osEventTaskWait e).setPc s.osPrioCur
      (.pendSched e)).view s.osPrioCur = ⟨some ((τ.block type timeout).point e), .pendSched e,
        False, fun e' => e' = e ∨ (s.view s.osPrioCur).waits e'⟩ := by
  have hwait : (s.modifyTcb s.osPrioCur (.block type timeout)).osEventTaskWait e =
      (((s.modifyTcb s.osPrioCur (.block type timeout)).modifyTcb s.osPrioCur
        (.point e)).wait e s.osPrioCur).unready s.osPrioCur := rfl
  rw [hwait, view_setPc_self, view_unready_self, view_wait_self, view_modifyTcb_self,
    view_modifyTcb_self, View.mk.injEq]
  exact ⟨congrArg (Option.map _) (congrArg (Option.map _) hτ), rfl, rfl, rfl⟩

/-- The running task is in no pend. -/
theorem Core.pend (h : Core s) {type : EventType} {timeout : ℕ}
    (hcur : s.osTcbPrioTbl s.osPrioCur ≠ none) (hpc : s.pc s.osPrioCur = .user) :
    Core ((s.pend type e timeout).1.setPc s.osPrioCur (s.pend type e timeout).2.2.pc) := by
  have hret {t : State α} (ht : Core t) (htcb : t.osTcbPrioTbl s.osPrioCur ≠ none)
      (hpc' : t.pc s.osPrioCur = .user) : Core (t.setPc s.osPrioCur Next.ret.pc) := by
    refine ht.setPc ?_ htcb
    rw [hpc']
    rfl
  rw [State.pend]
  split_ifs with htype hisr hlock
  · exact hret h hcur hpc
  · exact hret h hcur hpc
  · exact hret h hcur hpc
  · cases htake : (s.osEventTbl e).content.take with
    | some taken =>
      obtain ⟨hmsgs, htype'⟩ := Content.msgs_take htake
      have hgrp : (s.osEventTbl e).wait.grp = 0#8 := by
        rw [grp_eq_zero_iff_waits]
        intro p hp
        rw [(h.vacant p e hp).1] at hmsgs
        cases hmsgs
      dsimp only
      refine hret ((h.setContent hgrp fun he => ?_).record _) hcur hpc
      exact absurd he (h.not_free (not_not.mp htype))
    | none =>
      obtain ⟨τ, hτ⟩ := Option.ne_none_iff_exists'.mp hcur
      have hpends : (s.view s.osPrioCur).pc.pends = none := congrArg Pc.pends hpc
      have hview := view_blocked (e := e) type timeout hτ
      have hcore : Core (((s.modifyTcb s.osPrioCur (.block type timeout)).osEventTaskWait e).setPc
          s.osPrioCur (.pendSched e)) := by
        refine h.of_onlyFor (onlyFor_blocked type timeout) (fun e' => ?_) rfl ?_ ?_ ?_
        · exact content_wait e'
        · rw [hview]
          exact (h.tasks _).block hpends
        · rw [hview]
          rintro e' (rfl | hwaits)
          · refine ⟨Content.take_eq_none_iff.mp htake, fun hunused => ?_⟩
            rw [hunused] at htype
            exact htype (Option.some_ne_none _).symm
          · exact h.vacant _ e' hwaits
        · rw [hview]
          intro τ' e' type' hτ' htype' hpc'
          rw [← Option.some.inj hτ', Tcb.point, Tcb.block] at htype'
          rw [← Option.some.inj hpc', ← htype']
          exact not_not.mp htype
      dsimp only [Next.pc]
      rw [setPc_record]
      exact hcore.record _

theorem Core.osTimeDly (h : Core s) {ticks : ℕ} (hcur : s.osTcbPrioTbl s.osPrioCur ≠ none)
    (hpc : s.pc s.osPrioCur = .user) :
    Core ((s.osTimeDly ticks).1.setPc s.osPrioCur (s.osTimeDly ticks).2.pc) := by
  rw [State.osTimeDly]
  split_ifs with hrefused
  · refine h.setPc ?_ hcur
    rw [hpc]
    rfl
  · obtain ⟨τ, hτ⟩ := Option.ne_none_iff_exists'.mp hcur
    have hpends : (s.view s.osPrioCur).pc.pends = none := congrArg Pc.pends hpc
    have hticks : ticks ≠ 0 := fun hzero => hrefused (.inr (.inr hzero))
    have hview : (((s.unready s.osPrioCur).modifyTcb s.osPrioCur fun t =>
        { t with osTcbDly := ticks }).setPc s.osPrioCur .sched).view s.osPrioCur =
          ⟨some { τ with osTcbDly := ticks }, .sched, False, (s.view s.osPrioCur).waits⟩ := by
      rw [view_setPc_self, view_modifyTcb_self, view_unready_self, View.mk.injEq]
      exact ⟨congrArg (Option.map _) hτ, rfl, rfl, rfl⟩
    have hcore : Core (((s.unready s.osPrioCur).modifyTcb s.osPrioCur fun t =>
        { t with osTcbDly := ticks }).setPc s.osPrioCur .sched) := by
      refine h.of_onlyFor (p := s.osPrioCur) ?_ (fun _ => rfl) rfl ?_ ?_ ?_
      · exact onlyFor_unready.trans ((onlyFor_modifyTcb _).trans (onlyFor_setPc _))
      · rw [hview]
        exact (h.tasks _).delayed hτ hpends hticks
      · rw [hview]
        exact h.vacant _
      · rw [hview]
        rintro τ' e' type' - - hpc'
        cases hpc'
    dsimp only [Next.pc]
    rw [setPc_record]
    exact hcore.record _

/-- The second half of a pend, when the task is ready again. -/
theorem Core.pendReturn (h : Core s) (hready : s.osPrioCur ∈ s.osRdy)
    (hpc : s.pc s.osPrioCur = .pending e) :
    Core ((s.pendReturn e).1.setPc s.osPrioCur .user) := by
  obtain ⟨τ, hτ, hstat, hdly⟩ := (h.tasks s.osPrioCur).ready_iff.mp hready
  have hpends : (s.view s.osPrioCur).pc.pends = some e := congrArg Pc.pends hpc
  have hresumed := (h.tasks s.osPrioCur).resumed hτ hready hpends
  have hpend (τ' : Tcb α) (hτ' : some τ.clear = some τ') : τ'.osTcbStat.pend = none := by
    rw [← Option.some.inj hτ']
    rfl
  have hτ₀ : s.osTcbPrioTbl s.osPrioCur = some τ := hτ
  rw [State.pendReturn, hτ₀]
  dsimp only
  cases hstatPend : τ.osTcbStatPend with
  | ok =>
    rw [hstatPend] at hresumed
    have hview : ((s.modifyTcb s.osPrioCur .clear).setPc s.osPrioCur .user).view s.osPrioCur =
        { s.view s.osPrioCur with tcb := some τ.clear, pc := .user } := by
      rw [view_setPc_self, view_modifyTcb_self, View.mk.injEq]
      exact ⟨congrArg (Option.map _) hτ, rfl, rfl, rfl⟩
    have hcore : Core ((s.modifyTcb s.osPrioCur .clear).setPc s.osPrioCur .user) := by
      refine h.of_onlyFor (p := s.osPrioCur) ?_ (fun _ => rfl) rfl ?_ ?_ ?_
      · exact (onlyFor_modifyTcb _).trans (onlyFor_setPc _)
      · rw [hview]
        simpa using hresumed
      · rw [hview]
        exact h.vacant _
      · rw [hview]
        rintro τ' e' type' - - hpc'
        cases hpc'
    dsimp only
    rw [setPc_record]
    exact hcore.record _
  | timeout =>
    rw [hstatPend] at hresumed
    have hview : (((s.osEventTaskRemove e s.osPrioCur).modifyTcb s.osPrioCur .clear).setPc
        s.osPrioCur .user).view s.osPrioCur = { s.view s.osPrioCur with
          tcb := some τ.clear
          pc := .user
          waits := fun e' => e' ≠ e ∧ (s.view s.osPrioCur).waits e' } := by
      rw [view_setPc_self, view_modifyTcb_self, view_osEventTaskRemove_self, View.mk.injEq]
      exact ⟨congrArg (Option.map _) hτ, rfl, rfl, rfl⟩
    refine h.of_onlyFor (p := s.osPrioCur) ?_ (fun e' => ?_) rfl ?_ ?_ ?_
    · exact onlyFor_osEventTaskRemove.trans ((onlyFor_modifyTcb _).trans (onlyFor_setPc _))
    · exact content_osEventTaskRemove e'
    · rw [hview]
      simpa using hresumed
    · rw [hview]
      exact fun e' he' => h.vacant _ e' he'.2
    · rw [hview]
      rintro τ' e' type' - - hpc'
      cases hpc'

end State

end FanGateway.Kernel
