import FanGateway.Kernel.Frames
import Mathlib.Data.List.TakeWhile

/-!
# The running task

Whenever the running task executes code of its own and the scheduler is not locked, it is
the ready task of the highest priority. Between the first critical section of a call and
the `OS_Sched` behind it, in interrupts, and while the switching exception is pending, it
need not be; each of these ends by looking for that task.

The idle task, which makes no calls, is always ready.
-/

namespace FanGateway.Kernel

open Lib

variable {α : Type*}

namespace State

variable {s t : State α} {p q : Prio} {e : EventId} {c : Call α}

/-- What holds between any two steps, also while a call is about to look for another task. -/
structure Base (s : State α) : Prop where
  core : Core s
  idle : ∃ τ, s.osTcbPrioTbl osTaskIdlePrio = some τ ∧ τ.osTcbStat = .rdy ∧ τ.osTcbDly = 0
  idle_pc : s.pc osTaskIdlePrio = .user
  cur_exists : s.osRunning = true → s.osTcbPrioTbl s.osPrioCur ≠ none
  high_exists : s.osRunning = true → s.osTcbPrioTbl s.osPrioHighRdy ≠ none
  stopped : s.osRunning = false → s.osIntNesting = 0 ∧ s.osLockNesting = 0 ∧ s.pendSv = false ∧
    s.ticking = [] ∧ ∀ p, s.pc p = .user
  /-- No task pends with the scheduler locked. -/
  locked : s.osLockNesting ≠ 0 → (s.pc s.osPrioCur).pends = none
  ticking : ∀ p ∈ s.ticking, p ≠ osTaskIdlePrio
  /-- The loop of the tick belongs to an interrupt that has not ended. -/
  tickLevel : s.ticking ≠ [] → 0 < s.tickLevel ∧ s.tickLevel ≤ s.osIntNesting

structure Sched (s : State α) : Prop extends Base s where
  /-- The switching exception leads to the right task. -/
  switching : s.pendSv = true → s.osLockNesting = 0 ∧
    (s.osIntNesting = 0 → s.osPrioHighRdy = s.osRdy.lowest osUnMap)
  highest : s.AtTask → s.osLockNesting = 0 → (s.pc s.osPrioCur).calling = false →
    s.osPrioCur = s.osRdy.lowest osUnMap

theorem Base.idle_ready (h : Base s) : osTaskIdlePrio ∈ s.osRdy :=
  (h.core.tasks _).ready_iff.mpr h.idle

theorem Base.lowest_ready (h : Base s) : s.osRdy.lowest osUnMap ∈ s.osRdy :=
  PriorityTable.lowest_mem osUnMap (PriorityTable.grp_ne_zero h.idle_ready)

theorem Core.exists_of_ready (h : Core s) (hready : p ∈ s.osRdy) : s.osTcbPrioTbl p ≠ none := by
  obtain ⟨τ, hτ, -⟩ := (h.tasks p).ready_iff.mp hready
  have hτ₀ : s.osTcbPrioTbl p = some τ := hτ
  rw [hτ₀]
  exact Option.some_ne_none τ

/-- The running task stays the one of the highest priority if no other becomes ready. -/
theorem Settled.lowest (h : Settled s t) (hidle : osTaskIdlePrio ∈ s.osRdy)
    (hcur : s.osPrioCur = s.osRdy.lowest osUnMap) : s.osPrioCur = t.osRdy.lowest osUnMap := by
  have hlowest := (PriorityTable.lowest_eq_iff osUnMap
    (PriorityTable.grp_ne_zero hidle)).mp hcur.symm
  have hmem := h.2 hlowest.1
  refine ((PriorityTable.lowest_eq_iff osUnMap (PriorityTable.grp_ne_zero hmem)).mpr
    ⟨hmem, ?_⟩).symm
  exact fun p hp => hlowest.2 p (h.1 p hp)

/-! ## One step -/

theorem Core.idle_not_waits (h : Core s) (hpc : s.pc q = .user) : ¬ (s.view q).waits e :=
  (h.tasks q).not_waits (congrArg Pc.pends hpc)

/-- The idle task is ready behind every call that spares it. -/
theorem Base.idle_call (h : Base s) (hspares : c.sparesIdle)
    (hself : c.blocks → osTaskIdlePrio ≠ s.osPrioCur) :
    ∃ τ, (s.call c).1.osTcbPrioTbl osTaskIdlePrio = some τ ∧ τ.osTcbStat = .rdy ∧
      τ.osTcbDly = 0 := by
  obtain ⟨τ, hτ, hstat, hdly⟩ := h.idle
  refine ⟨τ, ?_, hstat, hdly⟩
  rw [osTcbPrioTbl_call hτ (by rw [hstat]; rfl) (fun e => h.core.idle_not_waits h.idle_pc) ?_ hself,
    hτ]
  rintro rfl
  simp [Call.sparesIdle] at hspares

theorem blocks_of_forMain (hc : c.forMain) : c.blocks = false := by
  cases c <;> first | rfl | cases hc

/-- What a call keeps that the main program or an interrupt makes. -/
theorem Sched.call (h : Sched s) (hspares : c.sparesIdle)
    (hwho : s.osRunning = false ∧ c.forMain ∨ s.osIntNesting > 0 ∧ c.forIsr) :
    Sched (s.call c).1 := by
  obtain ⟨hcur, hhigh, hint, hrunning, hticking, hlevel, hsv, hpc, hexists⟩ := called (s := s) c
  have hlock : (s.call c).1.osLockNesting = s.osLockNesting := by
    refine osLockNesting_call fun hrun => ?_
    rcases hwho with ⟨hstopped, -⟩ | hisr
    · rw [hstopped] at hrun
      cases hrun
    · exact hisr
  have hblocks (hc : c.blocks) : s.osIntNesting > 0 := by
    rcases hwho with ⟨-, hmain⟩ | ⟨hisr, -⟩
    · rw [blocks_of_forMain hmain] at hc
      cases hc
    · exact hisr
  by_cases hc : c.blocks = true
  · rw [call_of_isr (hblocks hc) hc]
    exact h
  · have hidle := h.idle_call hspares fun hc' => absurd hc' hc
    refine ⟨⟨(h.core.call (Bool.eq_false_iff.mpr hc)).1, hidle, hpc ▸ h.idle_pc, ?_, ?_, ?_, ?_,
      hticking ▸ h.ticking, ?_⟩, ?_, ?_⟩
    · rw [hrunning, hcur]
      exact fun hrun => hexists _ (h.cur_exists hrun)
    · rw [hrunning, hhigh]
      exact fun hrun => hexists _ (h.high_exists hrun)
    · rw [hrunning, hint, hlock, hsv, hticking, hpc]
      exact h.stopped
    · rw [hlock, hpc, hcur]
      exact h.locked
    · rw [hticking, hlevel, hint]
      exact h.tickLevel
    · rw [hsv, hlock, hint]
      intro hpending
      refine ⟨(h.switching hpending).1, fun hzero => ?_⟩
      rcases hwho with ⟨hstopped, -⟩ | ⟨hisr, -⟩
      · rw [(h.stopped hstopped).2.2.1] at hpending
        cases hpending
      · exact absurd hzero hisr.ne'
    · rw [AtTask, hrunning, hint]
      rintro ⟨hrun, hzero, -⟩
      rcases hwho with ⟨hstopped, -⟩ | ⟨hisr, -⟩
      · rw [hstopped] at hrun
        cases hrun
      · exact absurd hzero hisr.ne'

/-- A call of the running task. -/
theorem Sched.callSetPc (h : Sched s) (hat : s.AtTask) (hne : s.osPrioCur ≠ osTaskIdlePrio)
    (huser : s.pc s.osPrioCur = .user) (hspares : c.sparesIdle) :
    Sched ((s.call c).1.setPc s.osPrioCur (s.call c).2.pc) := by
  obtain ⟨hrun, hzero, hnosv⟩ := hat
  obtain ⟨hcur, hhigh, hint, hrunning, hticking, hlevel, hsv, hpc, hexists⟩ := called (s := s) c
  have hends := ends_call (c := c) hrun hzero
  have hpcCur : ((s.call c).1.setPc s.osPrioCur (s.call c).2.pc).pc (s.call c).1.osPrioCur =
      (s.call c).2.pc := by
    rw [hcur]
    exact Function.update_self _ _ _
  refine ⟨⟨h.core.callSetPc (h.cur_exists hrun) huser, h.idle_call hspares fun _ => hne.symm, ?_,
    fun _ => ?_, fun _ => ?_, fun hstopped => ?_, fun hlock => ?_, ?_, ?_⟩,
    fun hpending => ?_, fun _ hlock hcalling => ?_⟩
  · exact (Function.update_of_ne hne.symm _ _).trans ((congrFun hpc _).trans h.idle_pc)
  · exact hexists _ (hcur ▸ h.cur_exists hrun)
  · exact hexists _ (hhigh ▸ h.high_exists hrun)
  · exact absurd (hrunning.symm.trans hstopped) (by simp [hrun])
  · rw [show (State.setPc _ _ _).osPrioCur = (s.call c).1.osPrioCur from rfl, hpcCur]
    cases hnext : (s.call c).2 with
    | ret => rfl
    | sched => rfl
    | pend e =>
      rw [hnext] at hends
      exact absurd hends hlock
  · exact fun p hp => h.ticking p (hticking ▸ hp)
  · change (s.call c).1.ticking ≠ [] → 0 < (s.call c).1.tickLevel ∧
      (s.call c).1.tickLevel ≤ (s.call c).1.osIntNesting
    rw [hticking, hlevel, hint]
    exact h.tickLevel
  · exact absurd (hsv.symm.trans hpending) (by simp [hnosv])
  · change (s.call c).1.osPrioCur = (s.call c).1.osRdy.lowest osUnMap
    rw [show (State.setPc _ _ _).osPrioCur = (s.call c).1.osPrioCur from rfl, hpcCur] at hcalling
    cases hnext : (s.call c).2 with
    | ret =>
      rw [hnext] at hends
      obtain ⟨hunlocked, hsettled⟩ := hends hlock
      rw [hcur]
      refine hsettled.lowest h.idle_ready (h.highest ⟨hrun, hzero, hnosv⟩ hunlocked ?_)
      rw [huser]
      rfl
    | sched =>
      rw [hnext] at hcalling
      cases hcalling
    | pend e =>
      rw [hnext] at hcalling
      cases hcalling

theorem Core.of_same (h : Core s) (htcb : t.osTcbPrioTbl = s.osTcbPrioTbl)
    (hrdy : t.osRdy = s.osRdy) (hevents : t.osEventTbl = s.osEventTbl)
    (hfree : t.osEventFreeList = s.osEventFreeList) (hpc : t.pc = s.pc) : Core t := by
  have hview (p : Prio) : t.view p = s.view p := by rw [view, view, htcb, hrdy, hevents, hpc]
  refine ⟨fun p => ?_, fun p => ?_, fun p => ?_, ?_, ?_⟩
  · rw [hview]
    exact h.tasks p
  · rw [hview, hevents]
    exact h.vacant p
  · rw [hview, hevents]
    exact h.types p
  · rw [hfree, hevents]
    exact h.free
  · rw [hfree]
    exact h.free_nodup

theorem Sched.osStart (h : Sched s) (hstopped : s.osRunning = false) : Sched s.osStart := by
  obtain ⟨hint, hlock, -, hticking, hpc⟩ := h.stopped hstopped
  have hlowest := h.core.exists_of_ready h.lowest_ready
  rw [State.osStart, if_neg (by rw [hstopped]; exact Bool.false_ne_true)]
  dsimp only [osSchedNew]
  exact {
    core := h.core.of_same rfl rfl rfl rfl rfl
    idle := h.idle
    idle_pc := h.idle_pc
    cur_exists := fun _ => hlowest
    high_exists := fun _ => hlowest
    stopped := fun hfalse => absurd hfalse.symm Bool.false_ne_true
    locked := fun hne => absurd hlock hne
    ticking := h.ticking
    tickLevel := h.tickLevel
    switching := fun _ => ⟨hlock, fun _ => rfl⟩
    highest := fun hat => absurd hat.2.2.symm Bool.false_ne_true }

/-- Looking for the ready task of the highest priority, and switching if it is another one. -/
theorem Base.switchIfNew (h : Base s) (hrun : s.osRunning = true) (hlock : s.osLockNesting = 0) :
    Sched s.osSchedNew.switchIfNew := by
  have hlowest := h.core.exists_of_ready h.lowest_ready
  have hbase : Base s.osSchedNew := {
    core := h.core.of_same rfl rfl rfl rfl rfl
    idle := h.idle
    idle_pc := h.idle_pc
    cur_exists := h.cur_exists
    high_exists := fun _ => hlowest
    stopped := h.stopped
    locked := h.locked
    ticking := h.ticking
    tickLevel := h.tickLevel }
  rw [State.switchIfNew]
  split_ifs with hnew
  · exact {
      hbase with
      core := hbase.core.of_same rfl rfl rfl rfl rfl
      stopped := fun hstopped => absurd (hstopped.symm.trans hrun) Bool.false_ne_true
      switching := fun _ => ⟨hlock, fun _ => rfl⟩
      highest := fun hat => absurd hat.2.2.symm Bool.false_ne_true }
  · exact {
      hbase with
      switching := fun _ => ⟨hlock, fun _ => rfl⟩
      highest := fun _ _ _ => (not_not.mp hnew).symm }

/-- A task goes on within a call or a pend. -/
theorem Base.setPc (h : Base s) (hrun : s.osRunning = true) (hne : s.osPrioCur ≠ osTaskIdlePrio)
    {pc : Pc} (hpends : pc.pends = (s.pc s.osPrioCur).pends) : Base (s.setPc s.osPrioCur pc) where
  core := h.core.setPc hpends (h.cur_exists hrun)
  idle := h.idle
  idle_pc := (Function.update_of_ne hne.symm _ _).trans h.idle_pc
  cur_exists := h.cur_exists
  high_exists := h.high_exists
  stopped hstopped := absurd (hstopped.symm.trans hrun) Bool.false_ne_true
  locked hlock := by
    change (Function.update s.pc s.osPrioCur pc s.osPrioCur).pends = none
    rw [Function.update_self, hpends]
    exact h.locked hlock
  ticking := h.ticking
  tickLevel := h.tickLevel

/-- A task that is in a call is not the idle task. -/
theorem Base.cur_ne_idle (h : Base s) (hpc : s.pc s.osPrioCur ≠ .user) :
    s.osPrioCur ≠ osTaskIdlePrio :=
  fun heq => hpc (heq ▸ h.idle_pc)

/-- `OS_Sched` at the end of a call, or in a pend. -/
theorem Sched.osSched (h : Sched s) (hat : s.AtTask) {pc : Pc} (hpc : s.pc s.osPrioCur ≠ .user)
    (hpends : pc.pends = (s.pc s.osPrioCur).pends) : Sched (s.osSched.setPc s.osPrioCur pc) := by
  have hbase := h.toBase.setPc hat.1 (h.cur_ne_idle hpc) hpends
  by_cases hlock : s.osLockNesting = 0
  · have hcomm : s.osSched.setPc s.osPrioCur pc =
        (s.setPc s.osPrioCur pc).osSchedNew.switchIfNew := by
      rw [State.osSched, if_pos ⟨hat.2.1, hlock⟩, State.switchIfNew, State.switchIfNew,
        apply_ite (State.setPc s.osPrioCur pc)]
      rfl
    rw [hcomm]
    exact hbase.switchIfNew hat.1 hlock
  · rw [State.osSched, if_neg fun h => hlock h.2]
    exact {
      hbase with
      switching := fun hsv => absurd (hat.2.2.symm.trans hsv) Bool.false_ne_true
      highest := fun _ hunlocked => absurd hunlocked hlock }

/-- A task gets to the second half of its pend only when it is the one to run. -/
theorem Sched.lowest_of_pending (h : Sched s) (hat : s.AtTask)
    (hpc : s.pc s.osPrioCur = .pending e) :
    s.osLockNesting = 0 ∧ s.osPrioCur = s.osRdy.lowest osUnMap := by
  have hlock : s.osLockNesting = 0 := by
    by_contra hlock
    have hnone := h.locked hlock
    rw [hpc] at hnone
    cases hnone
  exact ⟨hlock, h.highest hat hlock (by rw [hpc]; rfl)⟩

theorem Sched.ready_of_pending (h : Sched s) (hat : s.AtTask)
    (hpc : s.pc s.osPrioCur = .pending e) : s.osPrioCur ∈ s.osRdy := by
  have hlowest := h.lowest_ready
  rwa [← (h.lowest_of_pending hat hpc).2] at hlowest

/-- The second critical section of a pend. -/
theorem Sched.pendReturn (h : Sched s) (hat : s.AtTask) (hpc : s.pc s.osPrioCur = .pending e) :
    Sched ((s.pendReturn e).1.setPc s.osPrioCur .user) := by
  obtain ⟨hlock, hlowest⟩ := h.lowest_of_pending hat hpc
  have hready := h.ready_of_pending hat hpc
  obtain ⟨hrun, hint, hsv⟩ := hat
  have hne : s.osPrioCur ≠ osTaskIdlePrio := h.cur_ne_idle fun huser => by
    rw [hpc] at huser
    cases huser
  have hidle : (s.pendReturn e).1.osTcbPrioTbl osTaskIdlePrio =
      s.osTcbPrioTbl osTaskIdlePrio := by
    rw [State.pendReturn]
    cases s.osTcbPrioTbl s.osPrioCur with
    | none => rfl
    | some τ =>
      dsimp only
      cases τ.osTcbStatPend <;> exact osTcbPrioTbl_modifyTcb _ hne.symm
  have hrdy : (s.pendReturn e).1.osRdy = s.osRdy := by
    rw [State.pendReturn]
    cases s.osTcbPrioTbl s.osPrioCur with
    | none => rfl
    | some τ =>
      dsimp only
      cases τ.osTcbStatPend <;> rfl
  obtain ⟨hcur, hhigh, hint', hrun', hticking, hlevel, hsv', hpc', hexists⟩ :=
    Called.of_frame (frame_pendReturn (s := s) (e := e))
  have hlock' : (s.pendReturn e).1.osLockNesting = s.osLockNesting :=
    congrArg Frame.osLockNesting frame_pendReturn
  refine ⟨⟨h.core.pendReturn hready hpc, ?_, ?_, fun _ => ?_, fun _ => ?_, fun hstopped => ?_,
    fun hlocked => ?_, fun p hp => ?_, ?_⟩, fun hpending => ?_, fun _ _ _ => ?_⟩
  · obtain ⟨τ, hτ, hok⟩ := h.idle
    exact ⟨τ, hidle.trans hτ, hok⟩
  · exact (Function.update_of_ne hne.symm _ _).trans ((congrFun hpc' _).trans h.idle_pc)
  · exact hexists _ (hcur ▸ h.cur_exists hrun)
  · exact hexists _ (hhigh ▸ h.high_exists hrun)
  · exact absurd (hstopped.symm.trans (hrun'.trans hrun)) Bool.false_ne_true
  · exact absurd (hlock'.trans hlock) hlocked
  · exact h.ticking p (hticking ▸ hp)
  · change (s.pendReturn e).1.ticking ≠ [] → 0 < (s.pendReturn e).1.tickLevel ∧
      (s.pendReturn e).1.tickLevel ≤ (s.pendReturn e).1.osIntNesting
    rw [hticking, hlevel, hint']
    exact h.tickLevel
  · exact absurd (hsv.symm.trans (hsv'.symm.trans hpending)) Bool.false_ne_true
  · exact hcur.trans (hlowest.trans (congrArg (PriorityTable.lowest osUnMap) hrdy).symm)

theorem Sched.osIntEnter (h : Sched s) (hrun : s.osRunning = true) (hnest : s.osIntNesting < 255) :
    Sched s.osIntEnter := by
  rw [State.osIntEnter, if_pos ⟨hrun, hnest⟩]
  exact {
    core := h.core.of_same rfl rfl rfl rfl rfl
    idle := h.idle
    idle_pc := h.idle_pc
    cur_exists := h.cur_exists
    high_exists := h.high_exists
    stopped := fun hstopped => absurd (hstopped.symm.trans hrun) Bool.false_ne_true
    locked := h.locked
    ticking := h.ticking
    tickLevel := fun hloop =>
      ⟨(h.tickLevel hloop).1, (h.tickLevel hloop).2.trans (Nat.le_succ _)⟩
    switching := fun hsv => ⟨(h.switching hsv).1, fun hzero => absurd hzero (Nat.succ_ne_zero _)⟩
    highest := fun hat => absurd hat.2.1 (Nat.succ_ne_zero _) }

theorem Sched.osTimeTick (h : Sched s) (hint : s.osIntNesting > 0) : Sched s.osTimeTick := by
  have hrun : s.osRunning = true := by
    by_contra hrun
    exact hint.ne' (h.stopped (Bool.eq_false_iff.mpr hrun)).1
  exact {
    core := h.core.of_same rfl rfl rfl rfl rfl
    idle := h.idle
    idle_pc := h.idle_pc
    cur_exists := h.cur_exists
    high_exists := h.high_exists
    stopped := fun hstopped => absurd (hstopped.symm.trans hrun) Bool.false_ne_true
    locked := h.locked
    ticking := fun p (hp : p ∈ s.osTcbList.takeWhile (· ≠ osTaskIdlePrio)) => by
      simpa using List.mem_takeWhile_imp hp
    tickLevel := fun _ => ⟨hint, le_rfl⟩
    switching := h.switching
    highest := fun hat => absurd hat.2.1 hint.ne' }

/-- A round of the loop of the tick. -/
theorem Sched.tickTask (h : Sched s) {ps : List Prio} (hloop : s.ticking = p :: ps) :
    Sched { s.tickTask p with ticking := ps } := by
  have hnonempty : s.ticking ≠ [] := by
    rw [hloop]
    exact List.cons_ne_nil _ _
  have hint : s.osIntNesting > 0 :=
    (h.tickLevel hnonempty).1.trans_le (h.tickLevel hnonempty).2
  have hne : osTaskIdlePrio ≠ p := (h.ticking p (hloop ▸ List.mem_cons_self)).symm
  have hidle : (s.tickTask p).osTcbPrioTbl osTaskIdlePrio = s.osTcbPrioTbl osTaskIdlePrio := by
    rw [State.tickTask]
    cases s.osTcbPrioTbl p with
    | none => rfl
    | some τ =>
      dsimp only
      split_ifs
      · rw [osTcbPrioTbl_readyUnlessSuspended, osTcbPrioTbl_modifyTcb _ hne,
          osTcbPrioTbl_modifyTcb _ hne]
      · exact osTcbPrioTbl_modifyTcb _ hne
      · rfl
  obtain ⟨hcur, hhigh, hint', hrun', hticking, hlevel, hsv', hpc', hexists⟩ :=
    Called.of_frame (frame_tickTask (s := s) (p := p))
  have hlock' : (s.tickTask p).osLockNesting = s.osLockNesting :=
    congrArg Frame.osLockNesting frame_tickTask
  refine ⟨⟨h.core.tickTask.of_same rfl rfl rfl rfl rfl, ?_, ?_, fun hrun => ?_, fun hrun => ?_,
    fun hstopped => ?_, fun hlocked => ?_, fun q hq => ?_, fun _ => ?_⟩, fun hpending => ?_,
    fun hat => ?_⟩
  · obtain ⟨τ, hτ, hok⟩ := h.idle
    exact ⟨τ, hidle.trans hτ, hok⟩
  · exact (congrFun hpc' _).trans h.idle_pc
  · exact hexists _ (hcur ▸ h.cur_exists (hrun'.symm.trans hrun))
  · exact hexists _ (hhigh ▸ h.high_exists (hrun'.symm.trans hrun))
  · exact absurd (h.stopped (hrun'.symm.trans hstopped)).1 hint.ne'
  · change ((s.tickTask p).pc (s.tickTask p).osPrioCur).pends = none
    rw [hpc', hcur]
    exact h.locked (hlock' ▸ hlocked)
  · exact h.ticking q (hloop ▸ List.mem_cons_of_mem p hq)
  · change 0 < (s.tickTask p).tickLevel ∧ (s.tickTask p).tickLevel ≤ (s.tickTask p).osIntNesting
    rw [hlevel, hint']
    exact h.tickLevel hnonempty
  · refine ⟨hlock'.trans (h.switching (hsv'.symm.trans hpending)).1, fun hzero => ?_⟩
    exact absurd (hint'.symm.trans hzero) hint.ne'
  · exact absurd (hint'.symm.trans hat.2.1) hint.ne'

theorem Sched.osIntExit (h : Sched s) (hint : s.osIntNesting > 0)
    (hloop : s.ticking = [] ∨ s.tickLevel < s.osIntNesting) : Sched s.osIntExit := by
  have hrun : s.osRunning = true := by
    by_contra hrun
    exact hint.ne' (h.stopped (Bool.eq_false_iff.mpr hrun)).1
  have hbase : Base { s with osIntNesting := s.osIntNesting - 1 } := {
    core := h.core.of_same rfl rfl rfl rfl rfl
    idle := h.idle
    idle_pc := h.idle_pc
    cur_exists := h.cur_exists
    high_exists := h.high_exists
    stopped := fun hstopped => absurd (hstopped.symm.trans hrun) Bool.false_ne_true
    locked := h.locked
    ticking := h.ticking
    tickLevel := fun hnonempty =>
      ⟨(h.tickLevel hnonempty).1, Nat.le_sub_one_of_lt (hloop.resolve_left hnonempty)⟩ }
  rw [State.osIntExit, if_pos hrun]
  dsimp only
  split_ifs with hlast
  · exact hbase.switchIfNew hrun hlast.2
  · exact {
      hbase with
      switching := fun hsv => ⟨(h.switching hsv).1, fun hzero =>
        absurd ⟨hzero, (h.switching hsv).1⟩ hlast⟩
      highest := fun hat hunlocked => absurd ⟨hat.2.1, hunlocked⟩ hlast }

theorem Sched.pendSvHandler (h : Sched s) (hrun : s.osRunning = true) (hint : s.osIntNesting = 0)
    (hsv : s.pendSv = true) : Sched s.pendSvHandler := by
  obtain ⟨hlock, hhigh⟩ := h.switching hsv
  exact {
    core := h.core.of_same rfl rfl rfl rfl rfl
    idle := h.idle
    idle_pc := h.idle_pc
    cur_exists := h.high_exists
    high_exists := h.high_exists
    stopped := fun hstopped => absurd (hstopped.symm.trans hrun) Bool.false_ne_true
    locked := fun hlocked => absurd hlock hlocked
    ticking := h.ticking
    tickLevel := h.tickLevel
    switching := fun hpending => absurd hpending Bool.false_ne_true
    highest := fun _ _ _ => hhigh hint }

/-! ## Every step of a run -/

theorem Sched.step {e : Step α} (h : Sched s) (hstep : s.step e = some t) : Sched t := by
  cases steps_of_step hstep with
  | @main c hstopped hmain =>
    exact h.call (by cases c <;> first | rfl | cases hmain) (.inl ⟨hstopped, hmain⟩)
  | start hstopped => exact h.osStart hstopped
  | call hat hcur hpc hspares => exact h.callSetPc hat hcur hpc hspares
  | sched hat hpc => exact h.osSched hat (by rw [hpc]; exact Pc.noConfusion) (by rw [hpc]; rfl)
  | pendSched hat hpc =>
    exact h.osSched hat (by rw [hpc]; exact Pc.noConfusion) (by rw [hpc]; rfl)
  | pendReturn hat hpc => exact h.pendReturn hat hpc
  | intEnter hrun hnest => exact h.osIntEnter hrun hnest
  | isr hint hisr hspares => exact h.call hspares (.inr ⟨hint, hisr⟩)
  | tick hint => exact h.osTimeTick hint
  | tickTask hloop => exact h.tickTask hloop
  | intExit hint hloop => exact h.osIntExit hint hloop
  | pendSv hrun hint hsv => exact h.pendSvHandler hrun hint hsv

theorem core_cleared : Core (State.cleared α) := by
  have hwaits (p : Prio) (e : EventId) : ¬ ((State.cleared α).view p).waits e :=
    PriorityTable.not_mem_empty
  refine ⟨fun p => ⟨?_, fun e => ?_, ?_, ?_, fun _ => rfl, ?_⟩, ?_, ?_, fun _ _ => rfl, ?_⟩
  · exact iff_of_false PriorityTable.not_mem_empty (by rintro ⟨τ, hτ, -⟩; cases hτ)
  · exact iff_of_false (hwaits p e) (by rintro ⟨-, τ, hτ, -⟩; cases hτ)
  · rintro τ hτ
    cases hτ
  · rintro τ hτ
    cases hτ
  · rintro τ hτ
    cases hτ
  · exact fun p e hp => absurd hp (hwaits p e)
  · rintro p τ e type hτ
    cases hτ
  · exact List.nodup_finRange 15

theorem sched_osInit : Sched (State.osInit α) where
  core := core_cleared.osTaskCreate.osTaskCreate
  idle := ⟨.init, rfl, rfl, rfl⟩
  idle_pc := rfl
  cur_exists hrun := absurd hrun Bool.false_ne_true
  high_exists hrun := absurd hrun Bool.false_ne_true
  stopped _ := ⟨rfl, rfl, rfl, rfl, fun _ => rfl⟩
  locked hlocked := absurd rfl hlocked
  ticking _ hp := absurd hp List.not_mem_nil
  tickLevel hloop := absurd rfl hloop
  switching hsv := absurd hsv Bool.false_ne_true
  highest hat := absurd hat.1 Bool.false_ne_true

theorem sched_of_reachable (h : (kernel α).Reachable s) : Sched s :=
  h.invariant sched_osInit fun _ _ _ hs => hs.step

end State

/-! ## Results -/

section Results

variable {s : State α}

/-- The tables agree with the control blocks: a task is ready exactly if it neither pends nor is
suspended nor delayed, and it is in the table of an event block exactly if its control block points
there and it pends still or its time has run out. An event block for which a task waits is in use
and holds no message, and the group words mark the rows that are not empty. -/
theorem tables_agree (h : (kernel α).Reachable s) :
    (∀ p, p ∈ s.osRdy ↔ ∃ t, s.osTcbPrioTbl p = some t ∧ t.osTcbStat = .rdy ∧ t.osTcbDly = 0) ∧
    (∀ p e, p ∈ (s.osEventTbl e).wait ↔ ∃ t, s.osTcbPrioTbl p = some t ∧
      t.osTcbEventPtr = some e ∧ (t.osTcbStat.pend ≠ none ∨ t.osTcbStatPend = .timeout)) ∧
    (∀ e, (s.osEventTbl e).wait.grp ≠ 0#8 →
      (s.osEventTbl e).content.msgs = [] ∧ (s.osEventTbl e).content ≠ .unused) ∧
    (∀ y : Fin 8, s.osRdy.grp.getLsbD y = true ↔ s.osRdy.tbl y ≠ 0#8) ∧
    ∀ e (y : Fin 8), (s.osEventTbl e).wait.grp.getLsbD y = true ↔
      (s.osEventTbl e).wait.tbl y ≠ 0#8 := by
  have hcore := (State.sched_of_reachable h).core
  refine ⟨fun p => (hcore.tasks p).ready_iff, fun p e => ?_, fun e hgrp => ?_, s.osRdy.grp_iff,
    fun e => (s.osEventTbl e).wait.grp_iff⟩
  · refine ((hcore.tasks p).waits_iff e).trans ⟨?_, ?_⟩
    · rintro ⟨hpends, t, ht, hwaiting⟩
      exact ⟨t, ht, ((hcore.tasks p).eventPtr t ht).trans hpends, hwaiting⟩
    · rintro ⟨t, ht, hpointer, hwaiting⟩
      exact ⟨((hcore.tasks p).eventPtr t ht).symm.trans hpointer, t, ht, hwaiting⟩
  · exact hcore.vacant _ e (State.lowest_waits hgrp)

/-- The task that runs code of its own with the scheduler unlocked is ready, and no task of a
higher priority is. -/
theorem osPrioCur_highest (h : (kernel α).Reachable s) (hat : s.AtTask)
    (hlock : s.osLockNesting = 0) (hpc : (s.pc s.osPrioCur).calling = false) :
    s.osPrioCur ∈ s.osRdy ∧ ∀ p ∈ s.osRdy, s.osPrioCur ≤ p := by
  have hsched := State.sched_of_reachable h
  have hlowest := hsched.highest hat hlock hpc
  refine ⟨hlowest ▸ hsched.lowest_ready, fun p hp => ?_⟩
  rw [hlowest]
  exact PriorityTable.lowest_le osUnMap hp

/-- One task waits for a semaphore, another one has waited for a second semaphore until its time
ran out and has not come to run yet. -/
def twoWaits : List (Step ℕ) :=
  [.main (.osSemCreate 0), .main (.osSemCreate 0), .main (.osTaskCreate 5), .main (.osTaskCreate 7),
    .start, .pendSv, .call (.osSemPend 0 0), .sched, .pendSv, .call (.osSemPend 1 1), .sched,
    .pendSv, .intEnter, .tick, .tickTask, .tickTask]

theorem twoWaits_isSome : ((kernel ℕ).run (State.osInit ℕ) twoWaits).isSome = true := by
  decide +kernel

theorem tables_agree_twoWaits :
    let s := ((kernel ℕ).run (State.osInit ℕ) twoWaits).get twoWaits_isSome
    (5 ∈ (s.osEventTbl 0).wait ∧ 7 ∈ (s.osEventTbl 1).wait ∧ 5 ∉ s.osRdy ∧ 7 ∈ s.osRdy) ∧
    (∀ p, p ∈ s.osRdy ↔ ∃ t, s.osTcbPrioTbl p = some t ∧ t.osTcbStat = .rdy ∧ t.osTcbDly = 0) ∧
    ∀ p e, p ∈ (s.osEventTbl e).wait ↔ ∃ t, s.osTcbPrioTbl p = some t ∧
      t.osTcbEventPtr = some e ∧ (t.osTcbStat.pend ≠ none ∨ t.osTcbStatPend = .timeout) := by
  have hagree :=
    tables_agree ⟨twoWaits, Machine.exec_of_run (Option.some_get twoWaits_isSome).symm⟩
  exact ⟨by decide +kernel, hagree.1, hagree.2.1⟩

/-- The first task runs although another one is ready, after it has waited for a semaphore that the
other one has posted. -/
def handOver : List (Step ℕ) :=
  [.main (.osSemCreate 0), .main (.osTaskCreate 5), .main (.osTaskCreate 7), .start, .pendSv,
    .call (.osSemPend 0 0), .sched, .pendSv, .call (.osSemPost 0), .sched, .pendSv, .pendReturn]

theorem handOver_isSome : ((kernel ℕ).run (State.osInit ℕ) handOver).isSome = true := by
  decide +kernel

theorem osPrioCur_highest_handOver :
    let s := ((kernel ℕ).run (State.osInit ℕ) handOver).get handOver_isSome
    s.osPrioCur = 5 ∧ ∀ p ∈ s.osRdy, s.osPrioCur ≤ p :=
  ⟨by decide +kernel, (osPrioCur_highest
    ⟨handOver, Machine.exec_of_run (Option.some_get handOver_isSome).symm⟩
    (by decide +kernel) (by decide +kernel) (by decide +kernel)).2⟩

end Results

end FanGateway.Kernel
