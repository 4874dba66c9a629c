import FanGateway.Kernel.Messages

/-!
# Delays and time limits

The loop of the tick counts `OSTCBDly` of every task down, one round for each task, between
which other interrupts may come. A task that the loop still comes to is one tick behind.
With this the ticks so far and the delay that is left add up to the tick at which the task
wanted to be woken, from the first critical section of the call on and whatever happens in
between: a delay ends at that tick, a pend is not ended by its limit before, and no task
still pends after it.
-/

namespace FanGateway.Kernel

open Lib

variable {α : Type*}

namespace State

variable {s t : State α} {p q : Prio} {e : EventId} {c : Call α}

/-! ## The time of one task -/

/-- What is recorded of time as far as it concerns one task. -/
structure Clock where
  ticks : ℕ
  deadline : Option ℕ
  delayedTo : ℕ
  /-- The ticks that the task is behind. -/
  lag : ℕ

def clock (s : State α) (p : Prio) : Clock :=
  ⟨s.ledger.ticks, s.ledger.deadline p, s.ledger.delayedTo p, if p ∈ s.ticking then 1 else 0⟩

structure View.OnTime (v : View α) (k : Clock) : Prop where
  unlimited : ∀ t, v.tcb = some t → t.osTcbStat.pend ≠ none → k.deadline = none → t.osTcbDly = 0
  limited : ∀ t d, v.tcb = some t → t.osTcbStat.pend ≠ none → k.deadline = some d →
    t.osTcbDly ≠ 0 ∧ t.osTcbDly + k.ticks = d + k.lag
  expired : ∀ t, v.tcb = some t → v.pc.pends ≠ none → t.osTcbStat.pend = none →
    t.osTcbStatPend = .timeout → ∃ d, k.deadline = some d ∧ d ≤ k.ticks
  delayed : ∀ t, v.tcb = some t → v.pc.pends = none → t.osTcbDly ≠ 0 →
    t.osTcbDly + k.ticks = k.delayedTo + k.lag
  past : (∀ t, v.tcb = some t → v.pc.pends = none → t.osTcbDly = 0) →
    k.delayedTo + k.lag ≤ k.ticks

namespace View.OnTime

variable {v : View α} {k : Clock} {τ : Tcb α}

/-- A change that concerns neither the wait nor the delay of a task. -/
theorem modify (h : v.OnTime k) {v' : View α} {f : Tcb α → Tcb α} (htcb : v'.tcb = v.tcb.map f)
    (hpc : v'.pc.pends = v.pc.pends)
    (hpend : ∀ τ, (f τ).osTcbStat.pend = τ.osTcbStat.pend)
    (hstat : ∀ τ, (f τ).osTcbStatPend = τ.osTcbStatPend) (hdly : ∀ τ, (f τ).osTcbDly = τ.osTcbDly) :
    v'.OnTime k := by
  cases hτ : v.tcb with
  | none =>
    rw [hτ] at htcb
    have hnone (t : Tcb α) (ht : v'.tcb = some t) : False := by
      rw [htcb] at ht
      cases ht
    exact ⟨fun t ht => (hnone t ht).elim, fun t _ ht => (hnone t ht).elim,
      fun t ht => (hnone t ht).elim, fun t ht => (hnone t ht).elim,
      fun _ => h.past fun t ht => by rw [hτ] at ht; cases ht⟩
  | some τ =>
    rw [hτ, Option.map_some] at htcb
    constructor
    · intro t ht hpend' hdeadline
      rw [htcb, Option.some.injEq] at ht
      subst ht
      rw [hpend] at hpend'
      rw [hdly]
      exact h.unlimited τ hτ hpend' hdeadline
    · intro t d ht hpend' hdeadline
      rw [htcb, Option.some.injEq] at ht
      subst ht
      rw [hpend] at hpend'
      rw [hdly]
      exact h.limited τ d hτ hpend' hdeadline
    · intro t ht hpends hpend' hstat'
      rw [htcb, Option.some.injEq] at ht
      subst ht
      rw [hpend] at hpend'
      rw [hstat] at hstat'
      rw [hpc] at hpends
      exact h.expired τ hτ hpends hpend' hstat'
    · intro t ht hpends hdly'
      rw [htcb, Option.some.injEq] at ht
      subst ht
      rw [hdly] at hdly' ⊢
      rw [hpc] at hpends
      exact h.delayed τ hτ hpends hdly'
    · intro hzero
      refine h.past fun t ht hpends => ?_
      rw [hτ, Option.some.injEq] at ht
      subst ht
      rw [← hdly]
      exact hzero _ htcb (hpc.trans hpends)

/-- A task that is ready again in its pend. -/
theorem handed (h : v.OnTime k) {v' : View α} (hτ : v'.tcb = some τ) (hpc : v'.pc = v.pc)
    (hpends : v.pc.pends ≠ none) (hpend : τ.osTcbStat.pend = none) (hok : τ.osTcbStatPend = .ok) :
    v'.OnTime k := by
  constructor
  · intro t ht hpend'
    rw [hτ, Option.some.injEq] at ht
    exact absurd hpend (ht ▸ hpend')
  · intro t d ht hpend'
    rw [hτ, Option.some.injEq] at ht
    exact absurd hpend (ht ▸ hpend')
  · intro t ht _ _ htimeout
    rw [hτ, Option.some.injEq] at ht
    rw [← ht, hok] at htimeout
    cases htimeout
  · exact fun t _ hnone => absurd (hpc ▸ hnone) hpends
  · exact fun _ => h.past fun t _ hnone => absurd hnone hpends

theorem created (h : v.OnTime k) {v' : View α} (hnone : v.tcb = none) (hτ : v'.tcb = some .init) :
    v'.OnTime k := by
  constructor
  · intro t ht hpend
    rw [hτ, Option.some.injEq] at ht
    exact absurd rfl (ht ▸ hpend)
  · intro t d ht hpend
    rw [hτ, Option.some.injEq] at ht
    exact absurd rfl (ht ▸ hpend)
  · intro t ht _ _ htimeout
    rw [hτ, Option.some.injEq] at ht
    rw [← ht] at htimeout
    cases htimeout
  · intro t ht _ hdly
    rw [hτ, Option.some.injEq] at ht
    exact absurd rfl (ht ▸ hdly)
  · intro _
    refine h.past fun t ht => ?_
    rw [hnone] at ht
    cases ht

/-- The first half of a pend that waits. -/
theorem block (h : v.OnTime k) (v' : View α) (type : EventType) (timeout : ℕ)
    (hτ : v.tcb = some τ) (hdly : τ.osTcbDly = 0)
    (hτ' : v'.tcb = some ((τ.block type timeout).point e))
    (hpc : v'.pc.pends ≠ none) (hlag : k.lag = 0) :
    v'.OnTime
      { k with deadline := if timeout = 0 then none else some (k.ticks + timeout) } := by
  constructor
  · intro t ht _ hdeadline
    rw [hτ', Option.some.injEq] at ht
    rw [← ht]
    by_contra htimeout
    rw [if_neg (show ¬ timeout = 0 from htimeout)] at hdeadline
    cases hdeadline
  · intro t d ht _ hdeadline
    rw [hτ', Option.some.injEq] at ht
    rw [← ht]
    simp only [Option.ite_none_left_eq_some, Option.some.injEq] at hdeadline
    obtain ⟨htimeout, rfl⟩ := hdeadline
    exact ⟨htimeout, by rw [Tcb.point, Tcb.block, hlag, Nat.add_comm, Nat.add_zero]⟩
  · intro t ht _ hpend
    rw [hτ', Option.some.injEq] at ht
    rw [← ht] at hpend
    cases hpend
  · exact fun t _ hnone => absurd hnone hpc
  · intro _
    refine h.past fun t ht _ => ?_
    rw [hτ, Option.some.injEq] at ht
    exact ht ▸ hdly

/-- `OSTimeDly`. -/
theorem delay {v' : View α} {ticks : ℕ} (hpend : τ.osTcbStat.pend = none) (hticks : ticks ≠ 0)
    (hτ' : v'.tcb = some { τ with osTcbDly := ticks }) (hpc : v'.pc.pends = none)
    (hlag : k.lag = 0) : v'.OnTime { k with delayedTo := k.ticks + ticks } := by
  constructor
  · intro t ht hpend'
    rw [hτ', Option.some.injEq] at ht
    subst ht
    exact absurd hpend hpend'
  · intro t d ht hpend'
    rw [hτ', Option.some.injEq] at ht
    subst ht
    exact absurd hpend hpend'
  · exact fun t _ hpends => absurd hpc hpends
  · intro t ht _ _
    rw [hτ', Option.some.injEq] at ht
    rw [← ht, hlag]
    exact Nat.add_comm _ _
  · exact fun hzero => absurd (hzero _ hτ' hpc) hticks

/-- The second half of a pend. -/
theorem resumed (h : v.OnTime k) {v' : View α} (hdly : τ.osTcbDly = 0)
    (hpends : v.pc.pends ≠ none) (hτ' : v'.tcb = some τ.clear) (hpc : v'.pc.pends = none) :
    v'.OnTime k := by
  constructor
  · intro t ht hpend
    rw [hτ', Option.some.injEq] at ht
    exact absurd rfl (ht ▸ hpend)
  · intro t d ht hpend
    rw [hτ', Option.some.injEq] at ht
    exact absurd rfl (ht ▸ hpend)
  · exact fun t _ hpends' => absurd hpc hpends'
  · intro t ht _ hdly'
    rw [hτ', Option.some.injEq] at ht
    subst ht
    exact absurd hdly hdly'
  · exact fun _ => h.past fun t _ hnone => absurd hnone hpends

/-- A tick begins, and its loop will come to the task. -/
theorem tick (h : v.OnTime k) (hlag : k.lag = 0) :
    v.OnTime { k with ticks := k.ticks + 1, lag := 1 } := by
  constructor
  · exact h.unlimited
  · intro t d ht hpend hdeadline
    obtain ⟨hdly, hsum⟩ := h.limited t d ht hpend hdeadline
    exact ⟨hdly, by rw [hlag] at hsum; dsimp only; omega⟩
  · intro t ht hpends hpend htimeout
    obtain ⟨d, hd, hle⟩ := h.expired t ht hpends hpend htimeout
    exact ⟨d, hd, hle.trans (Nat.le_succ _)⟩
  · intro t ht hpends hdly
    have hsum := h.delayed t ht hpends hdly
    rw [hlag] at hsum
    dsimp only
    omega
  · intro hzero
    have hpast := h.past hzero
    rw [hlag] at hpast
    exact Nat.succ_le_succ hpast

/-- A tick begins, and the task neither waits nor is delayed. -/
theorem tick_of_awake (h : v.OnTime k)
    (hawake : ∀ t, v.tcb = some t → t.osTcbStat.pend = none ∧ t.osTcbDly = 0) :
    v.OnTime { k with ticks := k.ticks + 1 } := by
  constructor
  · exact h.unlimited
  · exact fun t d ht hpend => absurd (hawake t ht).1 hpend
  · intro t ht hpends hpend htimeout
    obtain ⟨d, hd, hle⟩ := h.expired t ht hpends hpend htimeout
    exact ⟨d, hd, hle.trans (Nat.le_succ _)⟩
  · exact fun t ht _ hdly => absurd (hawake t ht).2 hdly
  · exact fun hzero => (h.past hzero).trans (Nat.le_succ _)

/-- The loop comes to a task that has no time to wait. -/
theorem round_of_zero (h : v.OnTime k) (hzero : ∀ t, v.tcb = some t → t.osTcbDly = 0) :
    v.OnTime { k with lag := 0 } := by
  constructor
  · exact h.unlimited
  · exact fun t d ht hpend hd => absurd (hzero t ht) (h.limited t d ht hpend hd).1
  · exact h.expired
  · exact fun t ht _ hdly => absurd (hzero t ht) hdly
  · exact fun hzero => (Nat.le_add_right _ _).trans (h.past hzero)

/-- The loop comes to a task whose time is not over. -/
theorem round (h : v.OnTime k) {v' : View α} (hτ : v.tcb = some τ) (hlag : k.lag = 1)
    (hdly : τ.osTcbDly - 1 ≠ 0) (hτ' : v'.tcb = some { τ with osTcbDly := τ.osTcbDly - 1 })
    (hpc : v'.pc = v.pc) : v'.OnTime { k with lag := 0 } := by
  constructor
  · intro t ht hpend hdeadline
    rw [hτ', Option.some.injEq] at ht
    subst ht
    have hzero := h.unlimited τ hτ hpend hdeadline
    rw [hzero] at hdly
    exact absurd rfl hdly
  · intro t d ht hpend hdeadline
    rw [hτ', Option.some.injEq] at ht
    subst ht
    obtain ⟨hpos, hsum⟩ := h.limited τ d hτ hpend hdeadline
    rw [hlag] at hsum
    refine ⟨hdly, ?_⟩
    dsimp only
    omega
  · intro t ht hpends hpend htimeout
    rw [hτ', Option.some.injEq] at ht
    subst ht
    exact h.expired τ hτ (hpc ▸ hpends) hpend htimeout
  · intro t ht hpends _
    rw [hτ', Option.some.injEq] at ht
    subst ht
    have hsum := h.delayed τ hτ (hpc ▸ hpends) (by omega)
    rw [hlag] at hsum
    dsimp only
    omega
  · intro hzero
    refine (Nat.le_add_right _ _).trans (h.past fun t ht hpends => ?_)
    exact absurd (hzero _ hτ' (hpc ▸ hpends)) hdly

/-- The loop comes to a task whose time is over. -/
theorem expire (h : v.OnTime k) {v' : View α} (hτ : v.tcb = some τ) (hlag : k.lag = 1)
    (hdly : τ.osTcbDly ≠ 0) (hlast : τ.osTcbDly - 1 = 0)
    (hτ' : v'.tcb = some (Tcb.expire { τ with osTcbDly := τ.osTcbDly - 1 })) :
    v'.OnTime { k with lag := 0 } := by
  have hone : τ.osTcbDly = 1 := by omega
  have hdly' : (Tcb.expire { τ with osTcbDly := τ.osTcbDly - 1 }).osTcbDly = 0 := by
    rw [Tcb.expire]
    split_ifs <;> exact hlast
  have hpend' : (Tcb.expire { τ with osTcbDly := τ.osTcbDly - 1 }).osTcbStat.pend = none := by
    rw [Tcb.expire]
    split_ifs with hpend
    · rfl
    · exact not_not.mp hpend
  constructor
  · intro t ht hpend
    rw [hτ', Option.some.injEq] at ht
    exact absurd hpend' (ht ▸ hpend)
  · intro t d ht hpend
    rw [hτ', Option.some.injEq] at ht
    exact absurd hpend' (ht ▸ hpend)
  · intro t ht hpends _ htimeout
    rw [hτ', Option.some.injEq] at ht
    rw [← ht, Tcb.expire] at htimeout
    split_ifs at htimeout with hpend
    cases hdeadline : k.deadline with
    | none => exact absurd (h.unlimited τ hτ hpend hdeadline) hdly
    | some d =>
      have hsum := (h.limited τ d hτ hpend hdeadline).2
      rw [hlag, hone] at hsum
      exact ⟨d, rfl, by dsimp only; omega⟩
  · intro t ht _ hne
    rw [hτ', Option.some.injEq] at ht
    exact absurd hdly' (ht ▸ hne)
  · intro _
    by_cases hpends : v.pc.pends = none
    · have hsum := h.delayed τ hτ hpends hdly
      rw [hlag, hone] at hsum
      dsimp only
      omega
    · exact (Nat.le_add_right _ _).trans (h.past fun t _ hnone => absurd hnone hpends)

end View.OnTime

/-! ## The list of tasks -/

/-- `OSTCBList` has every task once and the idle task last. -/
def Listed (s : State α) : Prop :=
  ∃ l, s.osTcbList = l ++ [osTaskIdlePrio] ∧ l.Nodup ∧
    ∀ p, p ∈ l ↔ s.osTcbPrioTbl p ≠ none ∧ p ≠ osTaskIdlePrio

theorem Listed.of_frame (h : Listed s) (hframe : t.frame = s.frame) : Listed t := by
  obtain ⟨l, hl, hnodup, hmem⟩ := h
  refine ⟨l, (congrArg Frame.osTcbList hframe).trans hl, hnodup, fun p => (hmem p).trans ?_⟩
  have hcreated : (t.osTcbPrioTbl p).isSome = (s.osTcbPrioTbl p).isSome :=
    congrFun (congrArg Frame.created hframe) p
  rw [← Option.isSome_iff_ne_none, ← Option.isSome_iff_ne_none, hcreated]

/-- The loop of the tick comes to every task but the idle task, and once. -/
theorem Listed.takeWhile (h : Listed s) :
    (s.osTcbList.takeWhile (· ≠ osTaskIdlePrio)).Nodup ∧
      ∀ p, p ∈ s.osTcbList.takeWhile (· ≠ osTaskIdlePrio) ↔
        s.osTcbPrioTbl p ≠ none ∧ p ≠ osTaskIdlePrio := by
  obtain ⟨l, hl, hnodup, hmem⟩ := h
  have htake : s.osTcbList.takeWhile (· ≠ osTaskIdlePrio) = l := by
    rw [hl, List.takeWhile_append_of_pos fun p hp => decide_eq_true ((hmem p).mp hp).2]
    simp
  rw [htake]
  exact ⟨hnodup, hmem⟩

/-! ## One step -/

/-- The times of all tasks are right. -/
structure Timed (s : State α) : Prop where
  listed : Listed s
  nodup : s.ticking.Nodup
  onTime : ∀ p, (s.view p).OnTime (s.clock p)

theorem clock_congr (hticks : t.ledger.ticks = s.ledger.ticks)
    (hdeadline : t.ledger.deadline p = s.ledger.deadline p)
    (hdelayed : t.ledger.delayedTo p = s.ledger.delayedTo p) (hticking : t.ticking = s.ticking) :
    t.clock p = s.clock p := by
  rw [clock, clock, hticks, hdeadline, hdelayed, hticking]

theorem clock_of_frame (h : t.frame = s.frame) : t.clock p = s.clock p :=
  clock_congr (congrArg Frame.ticks h) (congrFun (congrArg Frame.deadline h) p)
    (congrFun (congrArg Frame.delayedTo h) p) (congrArg Frame.ticking h)

theorem Timed.of_onlyFor (h : Timed s) (honly : OnlyFor p s t) (hframe : t.frame = s.frame)
    (hp : (t.view p).OnTime (s.clock p)) : Timed t where
  listed := h.listed.of_frame hframe
  nodup := by
    rw [show t.ticking = s.ticking from congrArg Frame.ticking hframe]
    exact h.nodup
  onTime q := by
    rw [clock_of_frame hframe]
    by_cases hq : q = p
    · exact hq ▸ hp
    · rw [honly q hq]
      exact h.onTime q

theorem Timed.of_view (h : Timed s) (hview : ∀ p, t.view p = s.view p)
    (hframe : t.frame = s.frame) : Timed t :=
  h.of_onlyFor (p := osTaskIdlePrio) (fun q _ => hview q) hframe (hview _ ▸ h.onTime _)

theorem Timed.modifyTcb (h : Timed s) {f : Tcb α → Tcb α}
    (hpend : ∀ τ, (f τ).osTcbStat.pend = τ.osTcbStat.pend)
    (hstat : ∀ τ, (f τ).osTcbStatPend = τ.osTcbStatPend) (hdly : ∀ τ, (f τ).osTcbDly = τ.osTcbDly) :
    Timed (s.modifyTcb p f) := by
  refine h.of_onlyFor (onlyFor_modifyTcb f) (frame_modifyTcb f) ?_
  rw [view_modifyTcb_self]
  exact (h.onTime p).modify rfl rfl hpend hstat hdly

theorem Timed.ready (h : Timed s) : Timed (s.ready p) :=
  h.of_onlyFor onlyFor_ready frame_ready (by
    rw [view_ready_self]
    exact ⟨(h.onTime p).unlimited, (h.onTime p).limited, (h.onTime p).expired,
      (h.onTime p).delayed, (h.onTime p).past⟩)

theorem Timed.unready (h : Timed s) : Timed (s.unready p) :=
  h.of_onlyFor onlyFor_unready frame_unready (by
    rw [view_unready_self]
    exact ⟨(h.onTime p).unlimited, (h.onTime p).limited, (h.onTime p).expired,
      (h.onTime p).delayed, (h.onTime p).past⟩)

theorem Timed.setPc (h : Timed s) {pc : Pc} (hpc : pc.pends = (s.pc p).pends) :
    Timed (s.setPc p pc) where
  listed := h.listed
  nodup := h.nodup
  onTime q := by
    by_cases hq : q = p
    · rw [hq, view_setPc_self]
      exact (h.onTime p).modify (f := id) (congrFun Option.map_id _).symm hpc (fun _ => rfl)
        (fun _ => rfl) fun _ => rfl
    · rw [onlyFor_setPc pc q hq]
      exact h.onTime q

theorem Timed.osEventTaskRdy (h : Timed s) (hcore : Core s) {pmsg : Option α} {msk : EventType}
    (hgrp : (s.osEventTbl e).wait.grp ≠ 0#8)
    (htype : (s.osEventTbl e).content.osEventType = some msk) :
    Timed (s.osEventTaskRdy e pmsg msk) := by
  have hwaits := lowest_waits hgrp
  have honly : OnlyFor _ s (s.osEventTaskRdy e pmsg msk) := onlyFor_osEventTaskRdy
  generalize hp : (s.osEventTbl e).wait.lowest osUnMap = p at hwaits honly
  obtain ⟨τ, hτ, hpend⟩ := hcore.of_waits hwaits
  have hpends := (((hcore.tasks p).waits_iff e).mp hwaits).1
  refine h.of_onlyFor honly frame_osEventTaskRdy ?_
  rw [view_osEventTaskRdy hp hτ]
  refine (h.onTime p).handed rfl rfl (by rw [hpends]; exact Option.some_ne_none e) ?_ rfl
  rw [Tcb.hand, Stat.clear]
  rcases hpend msk htype with hnone | hsome
  · rw [hnone, if_neg (Option.some_ne_none msk).symm, hnone]
  · rw [if_pos hsome]

theorem Timed.readyAll {msk : EventType} (n : ℕ) (h : Timed s) (hcore : Core s)
    (htype : (s.osEventTbl e).content.osEventType = some msk) : Timed (s.readyAll e msk n) := by
  induction n generalizing s with
  | zero => exact h
  | succ n ih =>
    rw [State.readyAll]
    split_ifs with hgrp
    · refine ih (h.osEventTaskRdy hcore hgrp htype) (hcore.osEventTaskRdy hgrp htype) ?_
      rw [content_osEventTaskRdy, htype]
    · exact h

theorem Timed.post (h : Timed s) (hcore : Core s) {type : EventType} {full : OsErr}
    {pmsg : Option α} : Timed (s.post type full e pmsg).1 := by
  rw [State.post]
  split_ifs with htype hgrp
  · exact h
  · exact h.osEventTaskRdy hcore hgrp (not_not.mp htype)
  · cases (s.osEventTbl e).content.put pmsg with
    | none => exact h
    | some c =>
      refine h.of_view (fun p => ?_) (frame_record rfl rfl rfl)
      rw [view_record, view_setContent]

theorem Timed.create (h : Timed s) (hcore : Core s) {c : Content α} : Timed (s.create c).1 :=
  h.of_view (fun _ => view_create hcore) frame_create

theorem Timed.del (h : Timed s) (hcore : Core s) {type : EventType} :
    Timed (s.del type e).1 := by
  rw [State.del]
  split_ifs with htype
  · exact h
  · exact h
  · have hall := h.readyAll 64 hcore (not_not.mp htype)
    dsimp only
    generalize s.readyAll e type 64 = u at hall ⊢
    refine hall.of_view (fun p => ?_) ?_
    · change (u.setContent e .unused).view p = u.view p
      exact view_setContent .unused
    · rw [frame_record rfl rfl rfl, frame_setFreeList, frame_setContent]

theorem Timed.osTaskCreate (h : Timed s)
    (hidle : s.osTcbPrioTbl osTaskIdlePrio ≠ none) : Timed (s.osTaskCreate p).1 := by
  rw [State.osTaskCreate]
  split_ifs with hisr hexists hfree
  · exact h
  · exact h
  · exact h
  · rw [Bool.not_eq_true, Option.isSome_eq_false_iff, Option.isNone_iff_eq_none] at hexists
    have hne : p ≠ osTaskIdlePrio := by
      rintro rfl
      exact hidle hexists
    refine Timed.ready ⟨?_, h.nodup, fun q => ?_⟩
    · obtain ⟨l, hl, hnodup, hmem⟩ := h.listed
      refine ⟨p :: l, congrArg (p :: ·) hl, List.nodup_cons.mpr ⟨?_, hnodup⟩, fun q => ?_⟩
      · exact fun hp => ((hmem p).mp hp).1 hexists
      · change q ∈ p :: l ↔ Function.update s.osTcbPrioTbl p _ q ≠ none ∧ q ≠ osTaskIdlePrio
        by_cases hq : q = p
        · rw [hq, Function.update_self]
          exact iff_of_true List.mem_cons_self ⟨Option.some_ne_none _, hne⟩
        · rw [Function.update_of_ne hq, List.mem_cons, or_iff_right hq, hmem q]
    · by_cases hq : q = p
      · subst hq
        exact (h.onTime q).created hexists (Function.update_self _ _ _)
      · have hview : State.view { s with
            osTcbPrioTbl := Function.update s.osTcbPrioTbl p (some .init)
            osTcbList := p :: s.osTcbList
            osTcbFree := s.osTcbFree - 1 } q = s.view q :=
          view_ext (Function.update_of_ne hq _ _) rfl Iff.rfl fun _ => Iff.rfl
        rw [hview]
        exact h.onTime q

theorem Timed.osTaskSuspend (h : Timed s) : Timed (s.osTaskSuspend p).1 := by
  rw [State.osTaskSuspend]
  split_ifs
  · exact h
  · exact h.unready.modifyTcb (fun _ => rfl) (fun _ => rfl) fun _ => rfl

theorem Timed.osTaskResume (h : Timed s) : Timed (s.osTaskResume p).1 := by
  have hresume : Timed (s.modifyTcb p .resume) :=
    h.modifyTcb (fun _ => rfl) (fun _ => rfl) fun _ => rfl
  rw [State.osTaskResume]
  cases s.osTcbPrioTbl p with
  | none => exact h
  | some τ =>
    dsimp only
    split_ifs
    · exact hresume.ready
    · exact hresume.ready
    · exact hresume
    · exact h

/-! ### Calls that block -/

theorem lag_eq_zero (h : s.ticking = []) : (s.clock p).lag = 0 := by
  rw [clock, h]
  rfl

/-- A pend of a task that has no time to wait, outside the loop of the tick. -/
theorem Timed.pend (h : Timed s) {type : EventType} {timeout : ℕ}
    (hpc : s.pc s.osPrioCur = .user) (hticking : s.ticking = [])
    (hdly : s.osLockNesting = 0 →
      ∃ τ, s.osTcbPrioTbl s.osPrioCur = some τ ∧ τ.osTcbDly = 0) :
    Timed ((s.pend type e timeout).1.setPc s.osPrioCur (s.pend type e timeout).2.2.pc) := by
  have hret {t : State α} (ht : Timed t) (hpc' : t.pc s.osPrioCur = .user) :
      Timed (t.setPc s.osPrioCur Next.ret.pc) := by
    refine ht.setPc ?_
    rw [hpc']
    rfl
  rw [State.pend]
  split_ifs with htype hisr hlock
  · exact hret h hpc
  · exact hret h hpc
  · exact hret h hpc
  · cases (s.osEventTbl e).content.take with
    | some taken =>
      refine hret (h.of_view (fun p => ?_) (frame_record rfl rfl rfl)) hpc
      rw [view_record, view_setContent]
    | none =>
      obtain ⟨τ, hτ, hzero⟩ := hdly (Nat.eq_zero_of_not_pos hlock)
      have honly := onlyFor_blocked (s := s) (e := e) type timeout
      have hframe : ((s.modifyTcb s.osPrioCur (.block type timeout)).osEventTaskWait e).frame =
          s.frame := by
        rw [frame_osEventTaskWait, frame_modifyTcb]
      refine ⟨(h.listed.of_frame hframe :), h.nodup, fun q => ?_⟩
      by_cases hq : q = s.osPrioCur
      · subst hq
        have honTime := (h.onTime s.osPrioCur).block (e := e) (State.view
          (((s.modifyTcb s.osPrioCur (.block type timeout)).osEventTaskWait e).setPc
            s.osPrioCur (.pendSched e)) s.osPrioCur) type timeout hτ hzero
          ?_ ?_ (lag_eq_zero hticking)
        · have hclock : State.clock (((s.modifyTcb s.osPrioCur
              (.block type timeout)).osEventTaskWait e).record
              (.limit s.osPrioCur timeout)) s.osPrioCur = { s.clock s.osPrioCur with
                deadline := if timeout = 0 then none
                  else some ((s.clock s.osPrioCur).ticks + timeout) } := by
            rw [clock, Clock.mk.injEq]
            exact ⟨rfl, Function.update_self _ _ _, rfl, rfl⟩
          exact hclock ▸ honTime
        · exact congrArg View.tcb (view_blocked type timeout hτ)
        · rw [view_setPc_self]
          exact Option.some_ne_none e
      · have hclock : State.clock (((s.modifyTcb s.osPrioCur (.block type timeout)).osEventTaskWait
            e).record (.limit s.osPrioCur timeout)) q = s.clock q :=
          clock_congr rfl (Function.update_of_ne hq _ _) rfl rfl
        exact hclock ▸ (honly q hq).symm ▸ h.onTime q

theorem Timed.osTimeDly (h : Timed s) (hcore : Core s) {ticks : ℕ}
    (hpc : s.pc s.osPrioCur = .user) (hticking : s.ticking = [])
    (hcur : s.osTcbPrioTbl s.osPrioCur ≠ none) :
    Timed ((s.osTimeDly ticks).1.setPc s.osPrioCur (s.osTimeDly ticks).2.pc) := by
  rw [State.osTimeDly]
  split_ifs with hrefused
  · refine h.setPc ?_
    rw [hpc]
    rfl
  · obtain ⟨τ, hτ⟩ := Option.ne_none_iff_exists'.mp hcur
    have hpend : τ.osTcbStat.pend = none := by
      by_contra hpend
      exact ((hcore.tasks _).pends τ hτ hpend).1 (congrArg Pc.pends hpc)
    have hticks : ticks ≠ 0 := fun hzero => hrefused (.inr (.inr hzero))
    have honly : OnlyFor s.osPrioCur s (((s.unready s.osPrioCur).modifyTcb s.osPrioCur fun t =>
        { t with osTcbDly := ticks }).setPc s.osPrioCur .sched) :=
      onlyFor_unready.trans ((onlyFor_modifyTcb _).trans (onlyFor_setPc _))
    have hframe : ((s.unready s.osPrioCur).modifyTcb s.osPrioCur fun t =>
        { t with osTcbDly := ticks }).frame = s.frame := by
      rw [frame_modifyTcb, frame_unready]
    refine ⟨(h.listed.of_frame hframe :), h.nodup, fun q => ?_⟩
    by_cases hq : q = s.osPrioCur
    · subst hq
      have hτ' : (State.view (((s.unready s.osPrioCur).modifyTcb s.osPrioCur fun t =>
          { t with osTcbDly := ticks }).setPc s.osPrioCur .sched) s.osPrioCur).tcb =
            some { τ with osTcbDly := ticks } := by
        refine (Function.update_self _ _ _).trans ?_
        rw [show (s.unready s.osPrioCur).osTcbPrioTbl s.osPrioCur = some τ from hτ]
        rfl
      have honTime := View.OnTime.delay (k := s.clock s.osPrioCur) hpend hticks hτ'
        (by rw [view_setPc_self]; rfl) (lag_eq_zero hticking)
      have hclock : State.clock (((s.unready s.osPrioCur).modifyTcb s.osPrioCur fun t =>
          { t with osTcbDly := ticks }).record fun l => { l with
            delayedTo := Function.update l.delayedTo s.osPrioCur (l.ticks + ticks) })
              s.osPrioCur = { s.clock s.osPrioCur with
                delayedTo := (s.clock s.osPrioCur).ticks + ticks } := by
        rw [clock, Clock.mk.injEq]
        exact ⟨rfl, rfl, Function.update_self _ _ _, rfl⟩
      exact hclock ▸ honTime
    · have hclock : State.clock (((s.unready s.osPrioCur).modifyTcb s.osPrioCur fun t =>
          { t with osTcbDly := ticks }).record fun l => { l with
            delayedTo := Function.update l.delayedTo s.osPrioCur (l.ticks + ticks) }) q =
              s.clock q :=
        clock_congr rfl rfl (Function.update_of_ne hq _ _) rfl
      exact hclock ▸ (honly q hq).symm ▸ h.onTime q

theorem Timed.pendReturn (h : Timed s) (hcore : Core s) (hready : s.osPrioCur ∈ s.osRdy)
    (hpc : s.pc s.osPrioCur = .pending e) :
    Timed ((s.pendReturn e).1.setPc s.osPrioCur .user) := by
  obtain ⟨τ, hτ, -, hdly⟩ := (hcore.tasks s.osPrioCur).ready_iff.mp hready
  have hτ₀ : s.osTcbPrioTbl s.osPrioCur = some τ := hτ
  have hpends : (s.view s.osPrioCur).pc.pends ≠ none := by
    rw [view, hpc]
    exact Option.some_ne_none e
  have hframe := frame_pendReturn (s := s) (e := e)
  have honly : OnlyFor s.osPrioCur s ((s.pendReturn e).1.setPc s.osPrioCur .user) := by
    rw [State.pendReturn, hτ₀]
    dsimp only
    cases τ.osTcbStatPend with
    | ok => exact (onlyFor_modifyTcb _).trans (onlyFor_setPc _)
    | timeout =>
      exact onlyFor_osEventTaskRemove.trans ((onlyFor_modifyTcb _).trans (onlyFor_setPc _))
  have hτ' : (s.pendReturn e).1.osTcbPrioTbl s.osPrioCur = some τ.clear := by
    rw [State.pendReturn, hτ₀]
    dsimp only
    cases τ.osTcbStatPend with
    | ok => exact (Function.update_self _ _ _).trans (congrArg (Option.map Tcb.clear) hτ₀)
    | timeout => exact (Function.update_self _ _ _).trans (congrArg (Option.map Tcb.clear) hτ₀)
  refine ⟨(h.listed.of_frame hframe :), ?_, fun q => ?_⟩
  · change (s.pendReturn e).1.ticking.Nodup
    rw [show (s.pendReturn e).1.ticking = s.ticking from congrArg Frame.ticking hframe]
    exact h.nodup
  · change View.OnTime _ ((s.pendReturn e).1.clock q)
    rw [clock_of_frame hframe]
    by_cases hq : q = s.osPrioCur
    · subst hq
      exact (h.onTime s.osPrioCur).resumed hdly hpends hτ' (by rw [view_setPc_self]; rfl)
    · rw [honly q hq]
      exact h.onTime q

/-! ### The system tick -/

theorem Timed.osTimeTick (h : Timed s) (hticking : s.ticking = [])
    (hidle : ∃ τ, s.osTcbPrioTbl osTaskIdlePrio = some τ ∧ τ.osTcbStat = .rdy ∧ τ.osTcbDly = 0) :
    Timed s.osTimeTick := by
  obtain ⟨hnodup, hmem⟩ := h.listed.takeWhile
  refine ⟨h.listed, hnodup, fun p => ?_⟩
  have hlag : (s.clock p).lag = 0 := lag_eq_zero hticking
  by_cases hp : p ∈ s.osTcbList.takeWhile (· ≠ osTaskIdlePrio)
  · have hclock : s.osTimeTick.clock p =
        { s.clock p with ticks := (s.clock p).ticks + 1, lag := 1 } := by
      rw [clock, Clock.mk.injEq]
      exact ⟨rfl, rfl, rfl, if_pos hp⟩
    rw [hclock]
    exact (h.onTime p).tick hlag
  · have hclock : s.osTimeTick.clock p = { s.clock p with ticks := (s.clock p).ticks + 1 } := by
      rw [clock, Clock.mk.injEq]
      refine ⟨rfl, rfl, rfl, ?_⟩
      rw [hlag]
      exact if_neg hp
    rw [hclock]
    refine (h.onTime p).tick_of_awake fun t ht => ?_
    -- the loop leaves out the idle task and those that do not exist
    have ht₀ : s.osTcbPrioTbl p = some t := ht
    have hpidle : p = osTaskIdlePrio := by
      by_contra hne
      exact hp ((hmem p).mpr ⟨by rw [ht₀]; exact Option.some_ne_none t, hne⟩)
    obtain ⟨τ, hτ, hstat, hdly⟩ := hidle
    rw [← hpidle, ht₀, Option.some.injEq] at hτ
    rw [hτ, hstat]
    exact ⟨rfl, hdly⟩

theorem Timed.tickTask (h : Timed s) {ps : List Prio} (hloop : s.ticking = p :: ps) :
    Timed { s.tickTask p with ticking := ps } := by
  have hnodup := h.nodup
  rw [hloop, List.nodup_cons] at hnodup
  have hframe := frame_tickTask (s := s) (p := p)
  have hlag : (s.clock p).lag = 1 := if_pos (hloop ▸ List.mem_cons_self)
  have hclock : State.clock { s.tickTask p with ticking := ps } p =
      { s.clock p with lag := 0 } := by
    rw [clock, Clock.mk.injEq]
    exact ⟨congrArg Frame.ticks hframe, congrFun (congrArg Frame.deadline hframe) p,
      congrFun (congrArg Frame.delayedTo hframe) p, if_neg hnodup.1⟩
  have hclockOf (q : Prio) (hq : q ≠ p) : State.clock { s.tickTask p with ticking := ps } q =
      s.clock q := by
    rw [clock, clock, Clock.mk.injEq]
    refine ⟨congrArg Frame.ticks hframe, congrFun (congrArg Frame.deadline hframe) q,
      congrFun (congrArg Frame.delayedTo hframe) q, ?_⟩
    rw [hloop]
    simp [hq]
  have hstep : OnlyFor p s (s.tickTask p) ∧
      ((s.tickTask p).view p).OnTime { s.clock p with lag := 0 } := by
    rw [State.tickTask]
    cases hτ : s.osTcbPrioTbl p with
    | none =>
      refine ⟨.refl, (h.onTime p).round_of_zero fun t ht => ?_⟩
      have ht₀ : s.osTcbPrioTbl p = some t := ht
      rw [hτ] at ht₀
      cases ht₀
    | some τ =>
      have hτ₁ : (s.modifyTcb p fun t => { t with osTcbDly := t.osTcbDly - 1 }).osTcbPrioTbl p =
          some { τ with osTcbDly := τ.osTcbDly - 1 } := by
        refine (Function.update_self _ _ _).trans ?_
        rw [hτ]
        rfl
      dsimp only
      split_ifs with hdly hlast
      · refine ⟨(onlyFor_modifyTcb _).trans ((onlyFor_modifyTcb _).trans
          onlyFor_readyUnlessSuspended), (h.onTime p).expire hτ hlag hdly hlast ?_⟩
        change (State.readyUnlessSuspended p _).osTcbPrioTbl p = _
        rw [osTcbPrioTbl_readyUnlessSuspended]
        refine (Function.update_self _ _ _).trans ?_
        rw [hτ₁]
        rfl
      · exact ⟨onlyFor_modifyTcb _, (h.onTime p).round hτ hlag hlast hτ₁ rfl⟩
      · refine ⟨.refl, (h.onTime p).round_of_zero fun t ht => ?_⟩
        have ht₀ : s.osTcbPrioTbl p = some t := ht
        rw [hτ, Option.some.injEq] at ht₀
        rw [← ht₀]
        exact not_not.mp hdly
  refine ⟨(h.listed.of_frame hframe :), hnodup.2, fun q => ?_⟩
  change ((s.tickTask p).view q).OnTime _
  by_cases hq : q = p
  · rw [hq, hclock]
    exact hstep.2
  · rw [hclockOf q hq, hstep.1 q hq]
    exact h.onTime q

/-! ## Every step of a run -/

theorem Timed.call (h : Timed s) (hcore : Core s) (hidle : s.osTcbPrioTbl osTaskIdlePrio ≠ none)
    (hc : c.blocks = false) : Timed (s.call c).1 := by
  cases c with
  | osSemCreate cnt => exact h.create hcore
  | osMboxCreate pmsg => exact h.create hcore
  | osqCreate start size =>
    have hcreate := h.create hcore (c := .q (.osqCreate start size))
    rw [State.call, State.osqCreate]
    split_ifs
    · exact h
    · dsimp only
      split_ifs
      · exact ⟨hcreate.listed, hcreate.nodup, hcreate.onTime⟩
      · exact hcreate
  | osSemPost e => exact h.post hcore
  | osMboxPost e pmsg => exact h.post hcore
  | osqPost e pmsg => exact h.post hcore
  | osSemDel e => exact h.del hcore
  | osMboxDel e => exact h.del hcore
  | osqDel e =>
    have hdel : Timed (s.del .q e).1 := h.del hcore
    rw [State.call, State.osqDel]
    dsimp only
    split_ifs
    · exact ⟨hdel.listed, hdel.nodup, hdel.onTime⟩
    · exact hdel
  | osTaskCreate prio => exact h.osTaskCreate hidle
  | osTaskSuspend prio => exact h.osTaskSuspend
  | osTaskResume prio => exact h.osTaskResume
  | osSchedLock =>
    rw [State.call, State.osSchedLock]
    split_ifs
    · exact ⟨h.listed, h.nodup, h.onTime⟩
    · exact h
  | osSchedUnlock =>
    rw [State.call, State.osSchedUnlock]
    split_ifs
    · exact ⟨h.listed, h.nodup, h.onTime⟩
    · exact h
  | _ => cases hc

/-- A call of the running task, outside the loop of the tick. -/
theorem Timed.callSetPc (h : Timed s) (hsched : Sched s) (hat : s.AtTask)
    (hpc : s.pc s.osPrioCur = .user) (hidle : s.osTcbPrioTbl osTaskIdlePrio ≠ none) :
    Timed ((s.call c).1.setPc s.osPrioCur (s.call c).2.pc) := by
  have hcur := hsched.cur_exists hat.1
  have hticking : s.ticking = [] := by
    by_contra hloop
    obtain ⟨hpos, hle⟩ := hsched.tickLevel hloop
    rw [hat.2.1] at hle
    exact absurd hpos (Nat.not_lt.mpr hle)
  have hdly (hlock : s.osLockNesting = 0) :
      ∃ τ, s.osTcbPrioTbl s.osPrioCur = some τ ∧ τ.osTcbDly = 0 := by
    have hlowest := hsched.highest hat hlock (by rw [hpc]; rfl)
    have hready : s.osPrioCur ∈ s.osRdy := by
      rw [hlowest]
      exact hsched.lowest_ready
    obtain ⟨τ, hτ, -, hdly⟩ := (hsched.core.tasks s.osPrioCur).ready_iff.mp hready
    exact ⟨τ, hτ, hdly⟩
  cases hc : c.blocks with
  | false =>
    refine (h.call hsched.core hidle hc).setPc ?_
    rw [(hsched.core.call hc).2, (called c).pc, hpc]
    rfl
  | true =>
    cases c with
    | osSemPend e timeout => exact h.pend hpc hticking hdly
    | osMboxPend e timeout => exact h.pend hpc hticking hdly
    | osqPend e timeout => exact h.pend hpc hticking hdly
    | osTimeDly ticks => exact h.osTimeDly hsched.core hpc hticking hcur
    | _ => cases hc

theorem Timed.osSched (h : Timed s) : Timed s.osSched := by
  rw [osSched_eq]
  exact ⟨h.listed, h.nodup, h.onTime⟩

theorem Timed.step {e : Step α} (h : Timed s) (hsched : Sched s) (hstep : s.step e = some t) :
    Timed t := by
  have hcore := hsched.core
  have hidle : s.osTcbPrioTbl osTaskIdlePrio ≠ none := by
    obtain ⟨τ, hτ, -⟩ := hsched.idle
    rw [hτ]
    exact Option.some_ne_none τ
  cases steps_of_step hstep with
  | main _ hmain => exact h.call hcore hidle (blocks_of_forMain hmain)
  | start =>
    rw [osStart_eq]
    exact ⟨h.listed, h.nodup, h.onTime⟩
  | call hat _ hpc => exact h.callSetPc hsched hat hpc hidle
  | sched _ hpc => exact h.osSched.setPc (by rw [osSched_eq, hpc]; rfl)
  | pendSched _ hpc => exact h.osSched.setPc (by rw [osSched_eq, hpc]; rfl)
  | pendReturn hat hpc => exact h.pendReturn hcore (hsched.ready_of_pending hat hpc) hpc
  | intEnter =>
    rw [osIntEnter_eq]
    exact ⟨h.listed, h.nodup, h.onTime⟩
  | @isr c hint =>
    cases hc : c.blocks with
    | false => exact h.call hcore hidle hc
    | true =>
      rw [call_of_isr hint hc]
      exact h
  | tick _ hloop => exact h.osTimeTick hloop hsched.idle
  | tickTask hloop => exact h.tickTask hloop
  | intExit =>
    rw [osIntExit_eq]
    exact ⟨h.listed, h.nodup, h.onTime⟩
  | pendSv => exact ⟨h.listed, h.nodup, h.onTime⟩

theorem osTcbPrioTbl_osInit : (State.osInit α).osTcbPrioTbl = Function.update
    (Function.update (fun _ => none) osTaskIdlePrio (some Tcb.init)) osTaskStatPrio
      (some Tcb.init) := rfl

theorem timed_osInit : Timed (State.osInit α) := by
  have htcb (p : Prio) (t : Tcb α) (ht : (State.osInit α).osTcbPrioTbl p = some t) : t = .init := by
    rw [osTcbPrioTbl_osInit, Function.update_apply, Function.update_apply] at ht
    split_ifs at ht <;> exact (Option.some.inj ht).symm
  refine ⟨⟨[osTaskStatPrio], rfl, by simp, fun p => ?_⟩, List.nodup_nil, fun p => ?_⟩
  · rw [osTcbPrioTbl_osInit, Function.update_apply, Function.update_apply, List.mem_singleton]
    by_cases hstat : p = osTaskStatPrio
    · rw [if_pos hstat, hstat]
      exact iff_of_true rfl ⟨Option.some_ne_none _, by decide⟩
    · rw [if_neg hstat]
      refine iff_of_false hstat fun hp => ?_
      rw [if_neg hp.2] at hp
      exact hp.1 rfl
  · constructor
    · intro t ht _ _
      rw [htcb p t ht]
      rfl
    · intro t d ht hpend
      rw [htcb p t ht] at hpend
      exact absurd rfl hpend
    · intro t ht _ _ htimeout
      rw [htcb p t ht] at htimeout
      cases htimeout
    · intro t ht _ hdly
      rw [htcb p t ht] at hdly
      exact absurd rfl hdly
    · exact fun _ => le_rfl

theorem timed_of_reachable (h : (kernel α).Reachable s) : Timed s :=
  (h.invariant (P := fun s => Sched s ∧ Timed s) ⟨sched_osInit, timed_osInit⟩
    fun _ _ _ hs hstep => ⟨hs.1.step hstep, hs.2.step hs.1 hstep⟩).2

/-! ### From a delay on -/

/-- The step is no `OSTimeDly` of the task. -/
def DelaysNot (p : Prio) (s : State α) (e : Step α) : Prop :=
  ∀ ticks, e = .call (.osTimeDly ticks) → s.osPrioCur ≠ p

theorem delayedTo_osTimeDly {ticks : ℕ} (hp : s.osPrioCur ≠ p) :
    (s.osTimeDly ticks).1.ledger.delayedTo p = s.ledger.delayedTo p := by
  rw [State.osTimeDly]
  split_ifs
  · rfl
  · exact Function.update_of_ne hp.symm _ _

/-- Only `OSTimeDly` records a delay. -/
theorem delayedTo_call (hc : ∀ ticks, c ≠ .osTimeDly ticks) :
    (s.call c).1.ledger.delayedTo = s.ledger.delayedTo := by
  have hpend {type : EventType} {e : EventId} {timeout : ℕ} :
      (s.pend type e timeout).1.ledger.delayedTo = s.ledger.delayedTo :=
    congrArg Frame.delayedTo frame_pend.choose_spec
  by_cases hframes : c.frames
  · exact congrArg Frame.delayedTo (frame_call hframes)
  · cases c with
    | osSemPend e timeout => exact hpend
    | osMboxPend e timeout => exact hpend
    | osqPend e timeout => exact hpend
    | osTimeDly ticks => exact absurd rfl (hc ticks)
    | osTaskCreate prio =>
      rw [call, State.osTaskCreate]
      split_ifs <;> rfl
    | osSchedLock =>
      rw [call, State.osSchedLock]
      split_ifs <;> rfl
    | osSchedUnlock =>
      rw [call, State.osSchedUnlock]
      split_ifs <;> rfl
    | _ => exact absurd rfl hframes

theorem delayedTo_step {e : Step α} (he : DelaysNot p s e) (hstep : s.step e = some t) :
    t.ledger.delayedTo p = s.ledger.delayedTo p := by
  cases steps_of_step hstep with
  | main _ hmain =>
    refine congrFun (delayedTo_call fun ticks hc => ?_) p
    rw [hc] at hmain
    cases hmain
  | start => rw [osStart_eq]
  | @call c =>
    change (s.call c).1.ledger.delayedTo p = _
    by_cases hc : ∃ ticks, c = .osTimeDly ticks
    · obtain ⟨ticks, rfl⟩ := hc
      exact delayedTo_osTimeDly (he ticks rfl)
    · exact congrFun (delayedTo_call fun ticks hticks => hc ⟨ticks, hticks⟩) p
  | sched =>
    rw [osSched_eq]
    rfl
  | pendSched =>
    rw [osSched_eq]
    rfl
  | pendReturn => exact congrFun (congrArg Frame.delayedTo frame_pendReturn) p
  | intEnter => rw [osIntEnter_eq]
  | @isr c hint =>
    by_cases hc : ∃ ticks, c = .osTimeDly ticks
    · obtain ⟨ticks, rfl⟩ := hc
      rw [call_of_isr hint rfl]
    · exact congrFun (delayedTo_call fun ticks hticks => hc ⟨ticks, hticks⟩) p
  | tick => rfl
  | tickTask => exact congrFun (congrArg Frame.delayedTo frame_tickTask) p
  | intExit => rw [osIntExit_eq]
  | pendSv => rfl

/-- A task that is in no pend is ready unless it is suspended or delays itself still. -/
theorem Timed.ready_iff (h : Timed s) (hcore : Core s) {τ : Tcb α}
    (hτ : s.osTcbPrioTbl p = some τ) (hpc : (s.pc p).pends = none) :
    p ∈ s.osRdy ↔ τ.osTcbStat.suspend = false ∧
      s.ledger.delayedTo p + (if p ∈ s.ticking then 1 else 0) ≤ s.ledger.ticks := by
  have hok := hcore.tasks p
  have hclock := h.onTime p
  have hpend : τ.osTcbStat.pend = none := by
    by_contra hpend
    exact (hok.pends τ hτ hpend).1 hpc
  have hdly : τ.osTcbDly = 0 ↔
      s.ledger.delayedTo p + (if p ∈ s.ticking then 1 else 0) ≤ s.ledger.ticks := by
    constructor
    · intro hzero
      refine hclock.past fun τ' hτ' _ => ?_
      obtain rfl := Option.some.inj (hτ.symm.trans hτ')
      exact hzero
    · intro hle
      by_contra hdly
      have hsum : τ.osTcbDly + s.ledger.ticks =
          s.ledger.delayedTo p + if p ∈ s.ticking then 1 else 0 := hclock.delayed τ hτ hpc hdly
      omega
  refine hok.ready_iff.trans ⟨?_, ?_⟩
  · rintro ⟨τ', hτ', hstat, hzero⟩
    obtain rfl := Option.some.inj (hτ.symm.trans hτ')
    exact ⟨by rw [hstat]; rfl, hdly.mp hzero⟩
  · rintro ⟨hsuspend, hle⟩
    exact ⟨τ, hτ, Stat.ext hpend hsuspend, hdly.mpr hle⟩

/-- What is recorded of a delay stays as long as the task does not delay itself anew. -/
theorem delayedTo_of_exec {s₀ s₁ : State α} {ticks : ℕ} {es : List (Step α)}
    (h : (kernel α).Reachable s₀) (hcall : s₀.step (.call (.osTimeDly ticks)) = some s₁)
    (hlock : s₀.osLockNesting = 0) (hticks : ticks ≠ 0)
    (hrun : (kernel α).Exec (DelaysNot s₀.osPrioCur) s₁ es s) :
    Sched s ∧ Timed s ∧ s.ledger.delayedTo s₀.osPrioCur = s₀.ledger.ticks + ticks := by
  have hsched := sched_of_reachable h
  refine hrun.invariant (P := fun s => Sched s ∧ Timed s ∧
      s.ledger.delayedTo s₀.osPrioCur = s₀.ledger.ticks + ticks) ?_ ?_
  · refine ⟨hsched.step hcall, (timed_of_reachable h).step hsched hcall, ?_⟩
    cases steps_of_step hcall with
    | call hat =>
      change (s₀.osTimeDly ticks).1.ledger.delayedTo s₀.osPrioCur = _
      rw [State.osTimeDly, if_neg]
      · exact Function.update_self _ _ _
      · rintro (hint | hlock' | hzero)
        · exact hint.ne' hat.2.1
        · exact hlock'.ne' hlock
        · exact hticks hzero
  · intro s e t hs he hstep
    exact ⟨hs.1.step hstep, hs.2.1.step hs.1 hstep, (delayedTo_step he hstep).trans hs.2.2⟩

/-- A round of the loop does not suspend or resume the task. -/
theorem suspend_tickTask {τ : Tcb α} (hτ : s.osTcbPrioTbl p = some τ) :
    ∃ τ', (s.tickTask p).osTcbPrioTbl p = some τ' ∧
      τ'.osTcbStat.suspend = τ.osTcbStat.suspend := by
  have hτ₁ : (s.modifyTcb p fun t => { t with osTcbDly := t.osTcbDly - 1 }).osTcbPrioTbl p =
      some { τ with osTcbDly := τ.osTcbDly - 1 } :=
    (Function.update_self _ _ _).trans (congrArg (Option.map _) hτ)
  rw [State.tickTask, hτ]
  dsimp only
  split_ifs
  · refine ⟨Tcb.expire { τ with osTcbDly := τ.osTcbDly - 1 }, ?_, ?_⟩
    · rw [osTcbPrioTbl_readyUnlessSuspended]
      exact (Function.update_self _ _ _).trans (congrArg (Option.map _) hτ₁)
    · rw [Tcb.expire]
      split_ifs <;> rfl
  · exact ⟨_, hτ₁, rfl⟩
  · exact ⟨τ, hτ, rfl⟩

end State

/-! ## Results -/

section Results

variable {s : State α} {p : Prio} {t : Tcb α}

/-- After `OSTimeDly`, until it calls that again, a task that is in no pend is ready exactly if it
is not suspended and the tick it asked for has come and, in the loop of that tick, its turn. As
long as it sleeps its delay and the ticks so far make that tick, and the round of the loop that
makes it ready belongs to no other. -/
theorem delay_exact {s₀ s₁ : State α} {ticks : ℕ} {es : List (Step α)}
    (h : (kernel α).Reachable s₀) (hcall : s₀.step (.call (.osTimeDly ticks)) = some s₁)
    (hlock : s₀.osLockNesting = 0) (hticks : ticks ≠ 0)
    (hrun : (kernel α).Exec (State.DelaysNot s₀.osPrioCur) s₁ es s)
    (ht : s.osTcbPrioTbl s₀.osPrioCur = some t) (hpc : (s.pc s₀.osPrioCur).pends = none) :
    (s₀.osPrioCur ∈ s.osRdy ↔ t.osTcbStat.suspend = false ∧
      s₀.ledger.ticks + ticks + (if s₀.osPrioCur ∈ s.ticking then 1 else 0) ≤ s.ledger.ticks) ∧
    (t.osTcbDly ≠ 0 → t.osTcbDly + s.ledger.ticks =
      s₀.ledger.ticks + ticks + if s₀.osPrioCur ∈ s.ticking then 1 else 0) ∧
    ∀ s', s.ticking.head? = some s₀.osPrioCur → s.step .tickTask = some s' → t.osTcbDly ≠ 0 →
      (s₀.osPrioCur ∈ s'.osRdy ↔
        t.osTcbStat.suspend = false ∧ s.ledger.ticks = s₀.ledger.ticks + ticks) := by
  obtain ⟨hsched, htimed, hto⟩ := State.delayedTo_of_exec h hcall hlock hticks hrun
  have hsum (hdly : t.osTcbDly ≠ 0) : t.osTcbDly + s.ledger.ticks =
      s.ledger.delayedTo s₀.osPrioCur + if s₀.osPrioCur ∈ s.ticking then 1 else 0 :=
    (htimed.onTime _).delayed t ht hpc hdly
  rw [← hto]
  refine ⟨htimed.ready_iff hsched.core ht hpc, hsum, fun s' hhead hstep hdly => ?_⟩
  obtain ⟨ps, hloop⟩ := List.head?_eq_some_iff.mp hhead
  have hsched' := hsched.step hstep
  have htimed' := htimed.step hsched hstep
  simp only [State.step, hloop, Option.ite_none_right_eq_some, Option.some.injEq] at hstep
  obtain ⟨-, rfl⟩ := hstep
  obtain ⟨t', ht', hsuspend⟩ := State.suspend_tickTask ht
  have hframe := State.frame_tickTask (s := s) (p := s₀.osPrioCur)
  have hpcs : (s.tickTask s₀.osPrioCur).pc = s.pc := congrArg State.Frame.pc hframe
  have hpc' : ((s.tickTask s₀.osPrioCur).pc s₀.osPrioCur).pends = none := by
    rw [hpcs]
    exact hpc
  have hdone : s₀.osPrioCur ∉ ps := by
    have hnodup := htimed.nodup
    rw [hloop, List.nodup_cons] at hnodup
    exact hnodup.1
  have hticks' : (s.tickTask s₀.osPrioCur).ledger.ticks = s.ledger.ticks :=
    congrArg State.Frame.ticks hframe
  have hto' : (s.tickTask s₀.osPrioCur).ledger.delayedTo s₀.osPrioCur =
      s.ledger.delayedTo s₀.osPrioCur :=
    congrFun (congrArg State.Frame.delayedTo hframe) _
  -- before its round the task was a tick behind, so it cannot be late
  have hlag := hsum hdly
  rw [hloop, if_pos List.mem_cons_self] at hlag
  refine (htimed'.ready_iff hsched'.core ht' hpc').trans ?_
  rw [hsuspend]
  refine and_congr_right fun _ => ?_
  dsimp only
  rw [hticks', hto', if_neg hdone]
  omega

/-- A task runs. -/
def lonelyTask : List (Step ℕ) := [.main (.osTaskCreate 5), .start, .pendSv]

theorem lonelyTask_isSome : ((kernel ℕ).run (State.osInit ℕ) lonelyTask).isSome = true := by
  decide +kernel

def lonely : State ℕ := ((kernel ℕ).run (State.osInit ℕ) lonelyTask).get lonelyTask_isSome

theorem lonely_delays : (lonely.step (.call (.osTimeDly 2))).isSome = true := by decide +kernel

def asleep : State ℕ := (lonely.step (.call (.osTimeDly 2))).get lonely_delays

/-- The first of two ticks is over, and the loop of the second one begins. -/
def twoTicks : List (Step ℕ) :=
  [.sched, .pendSv, .intEnter, .tick, .tickTask, .tickTask, .intExit, .intEnter, .tick]

theorem twoTicks_isSome : ((kernel ℕ).run asleep twoTicks).isSome = true := by decide +kernel

def waking : State ℕ := ((kernel ℕ).run asleep twoTicks).get twoTicks_isSome

theorem delaysNot_twoTicks :
    (kernel ℕ).Exec (State.DelaysNot lonely.osPrioCur) asleep twoTicks waking := by
  refine Machine.exec_of_steps (Option.some_get twoTicks_isSome).symm ?_
  intro before e u hpre _ n he
  have hmem : e ∈ twoTicks := hpre.subset (List.mem_append_right _ (List.mem_singleton_self e))
  rw [he] at hmem
  simp [twoTicks] at hmem

theorem waking_created : (waking.osTcbPrioTbl lonely.osPrioCur).isSome = true := by decide +kernel

theorem delay_exact_waking : lonely.osPrioCur ∉ waking.osRdy ∧
    ∀ s', waking.step .tickTask = some s' → lonely.osPrioCur ∈ s'.osRdy := by
  have hdelay := delay_exact
    ⟨lonelyTask, Machine.exec_of_run (Option.some_get lonelyTask_isSome).symm⟩
    (Option.some_get lonely_delays).symm (by decide +kernel) (by decide) delaysNot_twoTicks
    (Option.some_get waking_created).symm (by decide +kernel)
  refine ⟨fun hready => absurd (hdelay.1.mp hready).2 (by decide +kernel), fun s' hstep => ?_⟩
  exact (hdelay.2.2 s' (by decide +kernel) hstep (by decide +kernel)).mpr (by decide +kernel)

/-- A pend with a time limit is ended by it at no earlier tick and does not wait any longer, and a
pend without one is not ended so. -/
theorem timeout_exact (h : (kernel α).Reachable s) (ht : s.osTcbPrioTbl p = some t)
    (hpc : (s.pc p).pends ≠ none) (hloop : p ∉ s.ticking) :
    (t.osTcbStat.pend = none → t.osTcbStatPend = .timeout →
      ∃ d, s.ledger.deadline p = some d ∧ d ≤ s.ledger.ticks) ∧
    (t.osTcbStat.pend ≠ none → ∀ d, s.ledger.deadline p = some d → s.ledger.ticks < d) := by
  have hclock := (State.timed_of_reachable h).onTime p
  have hlag : (s.clock p).lag = 0 := if_neg hloop
  refine ⟨hclock.expired t ht hpc, fun hpend d hd => ?_⟩
  obtain ⟨hdly, hsum⟩ := hclock.limited t d ht hpend hd
  have hsum' : t.osTcbDly + s.ledger.ticks = d + (s.clock p).lag := hsum
  omega

/-- The time limit of a pend ends. -/
def lonelyPend : List (Step ℕ) :=
  [.main (.osSemCreate 0), .main (.osTaskCreate 5), .start, .pendSv, .call (.osSemPend 0 1), .sched,
    .pendSv, .intEnter, .tick, .tickTask, .tickTask, .intExit]

theorem lonelyPend_isSome : ((kernel ℕ).run (State.osInit ℕ) lonelyPend).isSome = true := by
  decide +kernel

theorem lonelyPend_created : ((((kernel ℕ).run (State.osInit ℕ) lonelyPend).get
    lonelyPend_isSome).osTcbPrioTbl 5).isSome = true := by
  decide +kernel

theorem timeout_exact_lonelyPend :
    let s := ((kernel ℕ).run (State.osInit ℕ) lonelyPend).get lonelyPend_isSome
    ∃ d, s.ledger.deadline 5 = some d ∧ d ≤ s.ledger.ticks :=
  (timeout_exact
    ⟨lonelyPend, Machine.exec_of_run (Option.some_get lonelyPend_isSome).symm⟩
    (Option.some_get lonelyPend_created).symm (by decide +kernel) (by decide +kernel)).1
    (by decide +kernel) (by decide +kernel)

end Results

end FanGateway.Kernel
