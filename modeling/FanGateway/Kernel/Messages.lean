import FanGateway.Kernel.Scheduling

/-!
# No message is lost

The messages that an event block has got are those that have left it, in the same order,
followed by those in it. The messages that have left for a task are those that its pends
have returned, followed by the one in its control block if it has not got to the second
half of its pend yet. A semaphore's count is a number of null messages.

A deleted event block loses its messages and hands a null message to the tasks that wait.
A null message posted to a mailbox is lost, too, if no task waits.
-/

namespace FanGateway.Kernel

open Lib

variable {α : Type*}

namespace Ledger

variable {l : Ledger α} {e e' : EventId} {p : Prio} {q : Option Prio} {msg : Option α}

/-- The messages that have left an event block. -/
def handedBy (l : Ledger α) (e : EventId) : List (Option α) :=
  l.handed.filterMap fun h => if h.1 = e then some h.2.2 else none

/-- The messages that have left for a task. -/
def handedTo (l : Ledger α) (p : Prio) : List (EventId × Option α) :=
  l.handed.filterMap fun h => if h.2.1 = some p then some (h.1, h.2.2) else none

theorem handedBy_append {l' : Ledger α} {hs : List (EventId × Option Prio × Option α)}
    (h : l'.handed = l.handed ++ hs) :
    l'.handedBy e = l.handedBy e ++ hs.filterMap fun h => if h.1 = e then some h.2.2 else none := by
  rw [handedBy, h, List.filterMap_append, handedBy]

theorem handedTo_append {l' : Ledger α} {hs : List (EventId × Option Prio × Option α)}
    (h : l'.handed = l.handed ++ hs) :
    l'.handedTo p =
      l.handedTo p ++ hs.filterMap fun h => if h.2.1 = some p then some (h.1, h.2.2) else none := by
  rw [handedTo, h, List.filterMap_append, handedTo]

end Ledger

namespace State

variable {s t : State α} {p q : Prio} {e : EventId} {c : Call α}

/-- The message that a task has been handed and not returned yet. -/
def View.transit (v : View α) : List (EventId × Option α) :=
  match v.pc.pends, v.tcb with
  | some e, some t =>
    if t.osTcbStat.pend = none ∧ t.osTcbStatPend = .ok then [(e, t.osTcbMsg)] else []
  | _, _ => []

theorem View.transit_eq_nil {v : View α} (h : ∀ t, v.pc.pends ≠ none → v.tcb = some t →
    t.osTcbStat.pend = none → t.osTcbStatPend = .timeout) : v.transit = [] := by
  rw [transit]
  cases hpc : v.pc.pends with
  | none => rfl
  | some e =>
    cases ht : v.tcb with
    | none => rfl
    | some t =>
      refine if_neg ?_
      rintro ⟨hpend, hok⟩
      rw [h t (by rw [hpc]; exact Option.some_ne_none e) ht hpend] at hok
      cases hok

theorem View.transit_of_pends {v : View α} (h : v.pc.pends = none) : v.transit = [] :=
  View.transit_eq_nil fun _ hpends => absurd h hpends

theorem View.Ok.transit_of_waits {v : View α} (h : v.Ok) (hwaits : v.waits e) :
    v.transit = [] := by
  obtain ⟨-, τ, hτ, hor⟩ := (h.waits_iff e).mp hwaits
  refine View.transit_eq_nil fun t _ ht hpend => ?_
  rw [hτ, Option.some.injEq] at ht
  subst ht
  exact hor.resolve_left (not_not.mpr hpend)

/-- The books of a state balance. -/
structure Books (s : State α) : Prop where
  kept : ∀ e, s.ledger.posted e = s.ledger.handedBy e ++ (s.osEventTbl e).content.msgs
  delivered : ∀ p, s.ledger.handedTo p = s.ledger.returned p ++ (s.view p).transit

theorem Books.of_same (h : Books s) (hledger : t.ledger.posted = s.ledger.posted ∧
    t.ledger.handed = s.ledger.handed ∧ t.ledger.returned = s.ledger.returned)
    (hmsgs : ∀ e, (t.osEventTbl e).content.msgs = (s.osEventTbl e).content.msgs)
    (htransit : ∀ p, (t.view p).transit = (s.view p).transit) : Books t := by
  obtain ⟨hposted, hhanded, hreturned⟩ := hledger
  refine ⟨fun e => ?_, fun p => ?_⟩
  · rw [hposted, Ledger.handedBy, hhanded, hmsgs]
    exact h.kept e
  · rw [hreturned, Ledger.handedTo, hhanded, htransit]
    exact h.delivered p

/-- A change that one task sees, and that does not concern a message of it. -/
theorem Books.of_onlyFor (h : Books s) (honly : OnlyFor p s t) (hledger : t.ledger = s.ledger)
    (hmsgs : ∀ e, (t.osEventTbl e).content = (s.osEventTbl e).content)
    (htransit : (t.view p).transit = (s.view p).transit) : Books t := by
  refine h.of_same (by rw [hledger]; exact ⟨rfl, rfl, rfl⟩) (fun e => by rw [hmsgs]) fun q => ?_
  by_cases hq : q = p
  · exact hq ▸ htransit
  · rw [honly q hq]

theorem Books.setPc (h : Books s) {pc : Pc} (hpc : pc.pends = (s.pc p).pends) :
    Books (s.setPc p pc) := by
  refine h.of_onlyFor (onlyFor_setPc pc) rfl (fun _ => rfl) ?_
  rw [view_setPc_self, View.transit, View.transit, hpc]
  rfl

@[simp] theorem ledger_readyUnlessSuspended : (s.readyUnlessSuspended p).ledger = s.ledger := by
  rw [readyUnlessSuspended]
  split_ifs <;> rfl

theorem ledger_osEventTaskRdy (pmsg : Option α) (msk : EventType) :
    (s.osEventTaskRdy e pmsg msk).ledger = { s.ledger with
      posted := Function.update s.ledger.posted e (s.ledger.posted e ++ [pmsg])
      handed := s.ledger.handed ++
        [(e, some ((s.osEventTbl e).wait.lowest osUnMap), pmsg)] } := by
  have hledger : ∀ p : Prio, (((s.modifyTcb p (.hand pmsg msk)).readyUnlessSuspended
      p).osEventTaskRemove e p).ledger = s.ledger := by
    intro p
    change ((s.modifyTcb p (.hand pmsg msk)).readyUnlessSuspended p).ledger = _
    rw [ledger_readyUnlessSuspended]
    rfl
  rw [osEventTaskRdy, State.record]
  dsimp only
  rw [hledger]

/-- A message goes to the task of the highest priority that waits. -/
theorem Books.osEventTaskRdy (h : Books s) (hcore : Core s) {pmsg : Option α} {msk : EventType}
    (hgrp : (s.osEventTbl e).wait.grp ≠ 0#8)
    (htype : (s.osEventTbl e).content.osEventType = some msk) :
    Books (s.osEventTaskRdy e pmsg msk) := by
  have hwaits := lowest_waits hgrp
  have hledger := ledger_osEventTaskRdy (s := s) (e := e) pmsg msk
  have honly : OnlyFor _ s (s.osEventTaskRdy e pmsg msk) := onlyFor_osEventTaskRdy
  generalize hp : (s.osEventTbl e).wait.lowest osUnMap = p at hwaits hledger honly
  obtain ⟨τ, hτ, hpend⟩ := hcore.of_waits hwaits
  have hview : (s.osEventTaskRdy e pmsg msk).view p = ⟨some (τ.hand pmsg msk), _, _, _⟩ :=
    view_osEventTaskRdy hp hτ
  have hempty := (hcore.vacant p e hwaits).1
  have hposted := congrArg Ledger.posted hledger
  have hhanded := congrArg Ledger.handed hledger
  have hreturned := congrArg Ledger.returned hledger
  dsimp only at hposted hhanded hreturned
  refine ⟨fun e' => ?_, fun q => ?_⟩
  · rw [Ledger.handedBy_append hhanded, hposted, content_osEventTaskRdy]
    by_cases he : e' = e
    · rw [he, Function.update_self, h.kept e, hempty, List.append_nil]
      simp
    · rw [Function.update_of_ne he, h.kept e']
      simp [Ne.symm he]
  · rw [Ledger.handedTo_append hhanded, hreturned, h.delivered q]
    by_cases hq : q = p
    · have hpc := (((hcore.tasks p).waits_iff e).mp hwaits).1
      have hclear : (τ.osTcbStat.clear msk).pend = none := by
        rw [Stat.clear]
        rcases hpend msk htype with hnone | hsome
        · rw [hnone, if_neg (Option.some_ne_none msk).symm, hnone]
        · rw [if_pos hsome]
      rw [hq, (hcore.tasks p).transit_of_waits hwaits, hview, View.transit]
      simp [hpc, Tcb.hand, hclear]
    · rw [honly q hq]
      simp [Ne.symm hq]

/-- A message that no task waits for stays in the event block. -/
theorem Books.put (h : Books s) {c : Content α} {pmsg : Option α}
    (hmsgs : c.msgs = (s.osEventTbl e).content.msgs ++ [pmsg]) :
    Books ((s.setContent e c).record fun l =>
      { l with posted := Function.update l.posted e (l.posted e ++ [pmsg]) }) := by
  refine ⟨fun e' => ?_, fun p => ?_⟩
  · change Function.update s.ledger.posted e _ e' =
      s.ledger.handedBy e' ++ ((s.setContent e c).osEventTbl e').content.msgs
    rw [State.setContent, content_modifyEvent]
    by_cases he : e' = e
    · rw [he, Function.update_self, if_pos rfl]
      change s.ledger.posted e ++ [pmsg] = s.ledger.handedBy e ++ c.msgs
      rw [h.kept e, hmsgs, List.append_assoc]
    · rw [Function.update_of_ne he, if_neg he, h.kept e']
  · rw [view_record, view_setContent]
    exact h.delivered p

theorem Books.post (h : Books s) (hcore : Core s) {type : EventType} {full : OsErr}
    {pmsg : Option α} (hnull : type = .mbox → pmsg ≠ none) (hsem : type = .sem → pmsg = none) :
    Books (s.post type full e pmsg).1 := by
  rw [State.post]
  split_ifs with htype hgrp
  · exact h
  · exact h.osEventTaskRdy hcore hgrp (not_not.mp htype)
  · rw [not_not] at htype
    cases hput : (s.osEventTbl e).content.put pmsg with
    | none => exact h
    | some c =>
      refine h.put (Content.msgs_put hput (fun hmbox => hnull ?_) fun hsem' => hsem ?_)
      · rw [htype] at hmbox
        exact Option.some.inj hmbox
      · rw [htype] at hsem'
        exact Option.some.inj hsem'

theorem Books.readyAll {msk : EventType} (n : ℕ) (h : Books s) (hcore : Core s)
    (htype : (s.osEventTbl e).content.osEventType = some msk) : Books (s.readyAll e msk n) := by
  induction n generalizing s with
  | zero => exact h
  | succ n ih =>
    rw [State.readyAll]
    split_ifs with hgrp
    · refine ih (h.osEventTaskRdy hcore hgrp htype) (hcore.osEventTaskRdy hgrp htype) ?_
      rw [content_osEventTaskRdy, htype]
    · exact h

/-- A deleted event block loses what is in it. -/
theorem Books.del (h : Books s) (hcore : Core s) {type : EventType} :
    Books (s.del type e).1 := by
  rw [State.del]
  split_ifs with htype
  · exact h
  · exact h
  · obtain ⟨-, -, -, hcontent⟩ := hcore.readyAll 64 (not_not.mp htype) card_wait_le
    have hall := h.readyAll 64 hcore (not_not.mp htype)
    dsimp only
    generalize s.readyAll e type 64 = u at hall hcontent
    refine ⟨fun e' => ?_, fun p => ?_⟩
    · rw [Ledger.handedBy_append rfl]
      change u.ledger.posted e' = u.ledger.handedBy e' ++ _ ++
        ((u.setContent e .unused).osEventTbl e').content.msgs
      rw [State.setContent, content_modifyEvent, hall.kept e']
      by_cases he : e' = e
      · rw [he, if_pos rfl, hcontent]
        simp [List.filterMap_map]
      · rw [if_neg he]
        simp [List.filterMap_map, Ne.symm he]
    · rw [Ledger.handedTo_append rfl, view_record]
      change u.ledger.handedTo p ++ _ =
        u.ledger.returned p ++ ((u.setContent e .unused).view p).transit
      rw [view_setContent, hall.delivered p]
      simp [List.filterMap_map]

/-- No task sees that an event block is created. -/
theorem view_create (hcore : Core s) {c : Content α} : (s.create c).1.view p = s.view p := by
  rw [State.create]
  split_ifs
  · rfl
  · cases hfree : s.osEventFreeList with
    | nil => rfl
    | cons e free =>
      have hunused : (s.osEventTbl e).content = .unused := hcore.free e (by simp [hfree])
      have hnone (p : Prio) : ¬ (s.view p).waits e := fun hp => (hcore.vacant p e hp).2 hunused
      refine view_ext rfl rfl Iff.rfl fun e' => ?_
      change p ∈ ((s.modifyEvent e fun _ => ⟨c, .empty 8⟩).osEventTbl e').wait ↔ _
      rw [wait_modifyEvent]
      split_ifs with he
      · exact iff_of_false PriorityTable.not_mem_empty (he ▸ hnone p)
      · exact Iff.rfl

theorem Books.create (h : Books s) (hcore : Core s) {c : Content α} : Books (s.create c).1 := by
  have hview (p : Prio) := view_create (p := p) hcore (c := c)
  rw [State.create] at hview ⊢
  split_ifs at hview ⊢
  · exact h
  · cases hfree : s.osEventFreeList with
    | nil => exact h
    | cons e free =>
      have hunused : (s.osEventTbl e).content = .unused := hcore.free e (by simp [hfree])
      rw [hfree] at hview
      refine ⟨fun e' => ?_, fun p => ?_⟩
      · change Function.update s.ledger.posted e (s.ledger.posted e ++ c.msgs) e' =
          s.ledger.handedBy e' ++
            ((s.modifyEvent e fun _ => ⟨c, .empty 8⟩).osEventTbl e').content.msgs
        rw [content_modifyEvent]
        by_cases he : e' = e
        · rw [he, Function.update_self, if_pos rfl, h.kept e, hunused, Content.msgs_unused,
            List.append_nil]
        · rw [Function.update_of_ne he, if_neg he, h.kept e']
      · refine (h.delivered p).trans (congrArg _ ?_)
        rw [← hview p]

/-! ## Changes of the control block of one task -/

theorem Books.modifyTcb (h : Books s) {f : Tcb α → Tcb α}
    (hpend : ∀ τ, s.osTcbPrioTbl p = some τ → (f τ).osTcbStat.pend = τ.osTcbStat.pend)
    (hok : ∀ τ, s.osTcbPrioTbl p = some τ → (f τ).osTcbStatPend = τ.osTcbStatPend)
    (hmsg : ∀ τ, s.osTcbPrioTbl p = some τ → (f τ).osTcbMsg = τ.osTcbMsg) :
    Books (s.modifyTcb p f) := by
  refine h.of_onlyFor (onlyFor_modifyTcb f) rfl (fun _ => rfl) ?_
  rw [view_modifyTcb_self, View.transit, View.transit]
  change (match (s.pc p).pends, (s.osTcbPrioTbl p).map f with | some e, some t => _ | _, _ => _) =
    (match (s.pc p).pends, s.osTcbPrioTbl p with | some e, some t => _ | _, _ => _)
  cases hτ : s.osTcbPrioTbl p with
  | none => cases (s.pc p).pends <;> rfl
  | some τ =>
    cases (s.pc p).pends with
    | none => rfl
    | some e => simp only [Option.map_some, hpend τ hτ, hok τ hτ, hmsg τ hτ]

theorem Books.ready (h : Books s) : Books (s.ready p) :=
  h.of_same ⟨rfl, rfl, rfl⟩ (fun _ => rfl) fun _ => rfl

theorem Books.unready (h : Books s) : Books (s.unready p) :=
  h.of_same ⟨rfl, rfl, rfl⟩ (fun _ => rfl) fun _ => rfl

theorem Books.readyUnlessSuspended (h : Books s) : Books (s.readyUnlessSuspended p) := by
  rw [State.readyUnlessSuspended]
  split_ifs
  · exact h.ready
  · exact h

theorem Books.osTaskCreate (h : Books s) (hcore : Core s) : Books (s.osTaskCreate p).1 := by
  rw [State.osTaskCreate]
  split_ifs with hisr hexists hfree
  · exact h
  · exact h
  · exact h
  · rw [Bool.not_eq_true, Option.isSome_eq_false_iff, Option.isNone_iff_eq_none] at hexists
    have hpc : (s.view p).pc.pends = none :=
      congrArg Pc.pends ((hcore.tasks p).exists_of_pc hexists)
    refine Books.ready (h.of_onlyFor (p := p) (fun q hq => ?_) rfl (fun _ => rfl) ?_)
    · exact view_ext (Function.update_of_ne hq _ _) rfl Iff.rfl fun _ => Iff.rfl
    · rw [View.transit_of_pends hpc]
      exact View.transit_of_pends (v := State.view _ p) hpc

theorem Books.osTaskSuspend (h : Books s) : Books (s.osTaskSuspend p).1 := by
  rw [State.osTaskSuspend]
  split_ifs
  · exact h
  · exact h.unready.modifyTcb (fun _ _ => rfl) (fun _ _ => rfl) fun _ _ => rfl

theorem Books.osTaskResume (h : Books s) : Books (s.osTaskResume p).1 := by
  have hresume : Books (s.modifyTcb p .resume) :=
    h.modifyTcb (fun _ _ => rfl) (fun _ _ => rfl) fun _ _ => rfl
  rw [State.osTaskResume]
  cases s.osTcbPrioTbl p with
  | none => exact h
  | some τ =>
    dsimp only
    split_ifs
    · exact hresume.ready
    · exact hresume.ready
    · exact hresume
    · exact h

theorem Books.osTimeDly (h : Books s) {ticks : ℕ} : Books (s.osTimeDly ticks).1 := by
  rw [State.osTimeDly]
  split_ifs
  · exact h
  · have hdelayed : Books ((s.unready s.osPrioCur).modifyTcb s.osPrioCur fun t =>
        { t with osTcbDly := ticks }) :=
      h.unready.modifyTcb (fun _ _ => rfl) (fun _ _ => rfl) fun _ _ => rfl
    exact hdelayed.of_same ⟨rfl, rfl, rfl⟩ (fun _ => rfl) fun _ => rfl

/-- A task whose time runs out has no message. -/
theorem Books.tickTask (h : Books s) (hcore : Core s) : Books (s.tickTask p) := by
  have htick : Books (s.modifyTcb p fun t => { t with osTcbDly := t.osTcbDly - 1 }) :=
    h.modifyTcb (fun _ _ => rfl) (fun _ _ => rfl) fun _ _ => rfl
  rw [State.tickTask]
  cases hτ : s.osTcbPrioTbl p with
  | none => exact h
  | some τ =>
    dsimp only
    split_ifs with hdly hlast
    · -- a delay is in no pend; a pend that ends so has no message before or after
      have hpend (hpc : (s.view p).pc.pends ≠ none) : τ.osTcbStat.pend ≠ none :=
        fun hpend => hdly ((hcore.tasks p).awake τ hτ hpc hpend)
      have hview := view_modifyTcb_self (s := s) (p := p) fun t =>
        { t with osTcbDly := t.osTcbDly - 1 }
      have hτ' : (s.view p).tcb = some τ := hτ
      rw [hτ', Option.map_some] at hview
      refine Books.readyUnlessSuspended (htick.of_onlyFor (onlyFor_modifyTcb _) rfl
        (fun _ => rfl) ?_)
      rw [view_modifyTcb_self, hview, Option.map_some]
      refine (View.transit_eq_nil fun t hpc ht hnone => ?_).trans
        (View.transit_eq_nil fun t hpc ht hnone => ?_).symm
      · rw [← Option.some.inj ht, Tcb.expire, if_pos (hpend hpc)]
      · rw [← Option.some.inj ht] at hnone
        exact absurd hnone (hpend hpc)
    · exact htick
    · exact h

/-! ## Pends -/

theorem Books.pend (h : Books s) {type : EventType} {timeout : ℕ}
    (hpc : s.pc s.osPrioCur = .user) :
    Books ((s.pend type e timeout).1.setPc s.osPrioCur (s.pend type e timeout).2.2.pc) := by
  have hpends : (s.view s.osPrioCur).pc.pends = none := congrArg Pc.pends hpc
  have hret {t : State α} (ht : Books t) (hpc' : t.pc s.osPrioCur = .user) :
      Books (t.setPc s.osPrioCur Next.ret.pc) := by
    refine ht.setPc ?_
    rw [hpc']
    rfl
  rw [State.pend]
  split_ifs
  · exact hret h hpc
  · exact hret h hpc
  · exact hret h hpc
  · cases htake : (s.osEventTbl e).content.take with
    | some taken =>
      obtain ⟨hmsgs, -⟩ := Content.msgs_take htake
      dsimp only
      refine hret ⟨fun e' => ?_, fun p => ?_⟩ hpc
      · rw [Ledger.handedBy_append rfl]
        change s.ledger.posted e' = s.ledger.handedBy e' ++ _ ++
          ((s.setContent e taken.2).osEventTbl e').content.msgs
        rw [State.setContent, content_modifyEvent, h.kept e']
        by_cases he : e' = e
        · rw [he, if_pos rfl, hmsgs]
          simp
        · rw [if_neg he]
          simp [Ne.symm he]
      · rw [Ledger.handedTo_append rfl, view_record, view_setContent]
        change s.ledger.handedTo p ++ _ =
          Function.update s.ledger.returned s.osPrioCur _ p ++ (s.view p).transit
        rw [h.delivered p]
        by_cases hp : p = s.osPrioCur
        · rw [hp, Function.update_self, View.transit_of_pends hpends]
          simp [State.setContent, modifyEvent]
        · rw [Function.update_of_ne hp]
          simp [State.setContent, modifyEvent, Ne.symm hp]
    | none =>
      refine h.of_same ⟨rfl, rfl, rfl⟩ (fun e' => ?_) fun p => ?_
      · exact congrArg Content.msgs (content_wait e')
      · by_cases hp : p = s.osPrioCur
        · rw [hp, View.transit_of_pends hpends]
          refine View.transit_eq_nil fun t _ ht hnone => ?_
          have ht' := (osTcbPrioTbl_blocked (e := e) type timeout).symm.trans ht
          obtain ⟨τ', hτ', rfl⟩ := Option.map_eq_some_iff.mp ht'
          obtain ⟨τ, -, rfl⟩ := Option.map_eq_some_iff.mp hτ'
          cases hnone
        · exact congrArg View.transit (onlyFor_blocked type timeout p hp)

/-- The second half of a pend returns the message in the control block. -/
theorem Books.pendReturn (h : Books s) (hcore : Core s) (hready : s.osPrioCur ∈ s.osRdy)
    (hpc : s.pc s.osPrioCur = .pending e) : Books ((s.pendReturn e).1.setPc s.osPrioCur .user) := by
  obtain ⟨τ, hτ, hstat, -⟩ := (hcore.tasks s.osPrioCur).ready_iff.mp hready
  have hτ₀ : s.osTcbPrioTbl s.osPrioCur = some τ := hτ
  have hpends : (s.view s.osPrioCur).pc.pends = some e := congrArg Pc.pends hpc
  rw [State.pendReturn, hτ₀]
  dsimp only
  cases hok : τ.osTcbStatPend with
  | ok =>
    have htransit : (s.view s.osPrioCur).transit = [(e, τ.osTcbMsg)] := by
      rw [View.transit, hpends, hτ]
      exact if_pos ⟨by rw [hstat]; rfl, hok⟩
    refine ⟨h.kept, fun p => ?_⟩
    change s.ledger.handedTo p = Function.update s.ledger.returned s.osPrioCur _ p ++
      (((s.modifyTcb s.osPrioCur .clear).setPc s.osPrioCur .user).view p).transit
    by_cases hp : p = s.osPrioCur
    · rw [hp, Function.update_self, view_setPc_self, h.delivered, htransit,
        View.transit_of_pends rfl, List.append_nil]
      rfl
    · rw [Function.update_of_ne hp, h.delivered p,
        ((onlyFor_modifyTcb _).trans (onlyFor_setPc _)) p hp]
  | timeout =>
    have htransit : (s.view s.osPrioCur).transit = [] := by
      refine View.transit_eq_nil fun t _ ht _ => ?_
      rw [hτ, Option.some.injEq] at ht
      rw [← ht, hok]
    refine h.of_onlyFor (onlyFor_osEventTaskRemove.trans ((onlyFor_modifyTcb _).trans
      (onlyFor_setPc _))) rfl (fun e' => content_osEventTaskRemove e') ?_
    rw [view_setPc_self, htransit]
    exact View.transit_of_pends rfl

end State

/-! ## Every step of a run -/

/-- A post to a mailbox has a message. -/
def Call.HasMessage : Call α → Prop
  | .osMboxPost _ pmsg => pmsg ≠ none
  | _ => True

def Step.HasMessage : Step α → Prop
  | .main c | .call c | .isr c => c.HasMessage
  | _ => True

namespace State

variable {s t : State α} {p q : Prio} {e : EventId} {c : Call α}

theorem Books.call (h : Books s) (hcore : Core s) (hmsg : c.HasMessage) (hc : c.blocks = false) :
    Books (s.call c).1 := by
  cases c with
  | osSemCreate cnt => exact h.create hcore
  | osMboxCreate pmsg => exact h.create hcore
  | osqCreate start size =>
    have hcreate := h.create hcore (c := .q (.osqCreate start size))
    rw [State.call, State.osqCreate]
    split_ifs
    · exact h
    · dsimp only
      split_ifs
      · exact ⟨hcreate.kept, hcreate.delivered⟩
      · exact hcreate
  | osSemPost e => exact h.post hcore (fun htype => by cases htype) fun _ => rfl
  | osMboxPost e pmsg => exact h.post hcore (fun _ => hmsg) fun htype => by cases htype
  | osqPost e pmsg => exact h.post hcore (fun htype => by cases htype) fun htype => by cases htype
  | osSemDel e => exact h.del hcore
  | osMboxDel e => exact h.del hcore
  | osqDel e =>
    have hdel : Books (s.del .q e).1 := h.del hcore
    rw [State.call, State.osqDel]
    dsimp only
    split_ifs
    · exact ⟨hdel.kept, hdel.delivered⟩
    · exact hdel
  | osTaskCreate prio => exact h.osTaskCreate hcore
  | osTaskSuspend prio => exact h.osTaskSuspend
  | osTaskResume prio => exact h.osTaskResume
  | osSchedLock =>
    rw [State.call, State.osSchedLock]
    split_ifs
    · exact ⟨h.kept, h.delivered⟩
    · exact h
  | osSchedUnlock =>
    rw [State.call, State.osSchedUnlock]
    split_ifs
    · exact ⟨h.kept, h.delivered⟩
    · exact h
  | _ => cases hc

theorem Books.callSetPc (h : Books s) (hcore : Core s) (hmsg : c.HasMessage)
    (hpc : s.pc s.osPrioCur = .user) :
    Books ((s.call c).1.setPc s.osPrioCur (s.call c).2.pc) := by
  cases hc : c.blocks with
  | false =>
    refine (h.call hcore hmsg hc).setPc ?_
    rw [(hcore.call hc).2, (called c).pc, hpc]
    rfl
  | true =>
    cases c with
    | osSemPend e timeout => exact h.pend hpc
    | osMboxPend e timeout => exact h.pend hpc
    | osqPend e timeout => exact h.pend hpc
    | osTimeDly ticks =>
      have hdly : Books (s.osTimeDly ticks).1 := h.osTimeDly
      refine hdly.setPc ?_
      rw [(Called.of_frame frame_osTimeDly.choose_spec).pc, hpc, State.call, State.osTimeDly]
      split_ifs <;> rfl
    | _ => cases hc

/-- The same for a call of an interrupt, of which a pend does nothing. -/
theorem Books.callOfIsr (h : Books s) (hcore : Core s) (hmsg : c.HasMessage)
    (hisr : s.osIntNesting > 0) : Books (s.call c).1 := by
  cases hc : c.blocks with
  | false => exact h.call hcore hmsg hc
  | true =>
    rw [call_of_isr hisr hc]
    exact h

theorem Books.osSched (h : Books s) : Books s.osSched := by
  rw [osSched_eq]
  exact ⟨h.kept, h.delivered⟩

theorem Books.step {e : Step α} (h : Books s) (hsched : Sched s) (hmsg : e.HasMessage)
    (hstep : s.step e = some t) : Books t := by
  have hcore := hsched.core
  cases steps_of_step hstep with
  | main _ hmain => exact h.call hcore hmsg (blocks_of_forMain hmain)
  | start =>
    rw [osStart_eq]
    exact ⟨h.kept, h.delivered⟩
  | call _ _ hpc => exact h.callSetPc hcore hmsg hpc
  | sched _ hpc => exact h.osSched.setPc (by rw [osSched_eq, hpc]; rfl)
  | pendSched _ hpc => exact h.osSched.setPc (by rw [osSched_eq, hpc]; rfl)
  | pendReturn hat hpc => exact h.pendReturn hcore (hsched.ready_of_pending hat hpc) hpc
  | intEnter =>
    rw [osIntEnter_eq]
    exact ⟨h.kept, h.delivered⟩
  | isr hint => exact h.callOfIsr hcore hmsg hint
  | tick => exact ⟨h.kept, h.delivered⟩
  | tickTask => exact ⟨(h.tickTask hcore).kept, (h.tickTask hcore).delivered⟩
  | intExit =>
    rw [osIntExit_eq]
    exact ⟨h.kept, h.delivered⟩
  | pendSv => exact ⟨h.kept, h.delivered⟩

end State

/-! ## Results -/

section Results

variable {s : State α} {es : List (Step α)}

/-- In every run in which no null message is posted to a mailbox, what an event block has got is
what has left it, in the same order, and then what is in it; and what has left for a task is what
its pends have returned and then the message it has not fetched yet. -/
theorem messages_kept (h : (kernel α).run (State.osInit α) es = some s)
    (hmsg : ∀ e ∈ es, e.HasMessage) :
    (∀ e, s.ledger.posted e = s.ledger.handedBy e ++ (s.osEventTbl e).content.msgs) ∧
    ∀ p, s.ledger.handedTo p = s.ledger.returned p ++ (s.view p).transit := by
  have hexec : (kernel α).Exec (fun _ e => e.HasMessage) (State.osInit α) es s :=
    Machine.exec_of_steps h fun _ e _ hpre _ => hmsg e (hpre.subset (by simp))
  have hinv := hexec.invariant (P := fun s => State.Sched s ∧ State.Books s)
    ⟨State.sched_osInit, fun _ => rfl, fun _ => rfl⟩
    fun _ _ _ hs hmsg hstep => ⟨hs.1.step hstep, hs.2.step hs.1 hmsg hstep⟩
  exact ⟨hinv.2.kept, hinv.2.delivered⟩

/-- A task waits for a queue; an interrupt posts two messages, of which the task gets the first. -/
def twoPosts : List (Step ℕ) :=
  [.main (.osqCreate (fun _ => none) 4), .main (.osTaskCreate 5), .start, .pendSv,
    .call (.osqPend 0 10), .sched, .pendSv, .intEnter, .isr (.osqPost 0 (some 1)),
    .isr (.osqPost 0 (some 2)), .intExit, .pendSv, .pendReturn]

theorem twoPosts_isSome : ((kernel ℕ).run (State.osInit ℕ) twoPosts).isSome = true := by
  decide +kernel

theorem messages_kept_twoPosts :
    let s := ((kernel ℕ).run (State.osInit ℕ) twoPosts).get twoPosts_isSome
    s.ledger.posted 0 = [some 1, some 2] ∧ s.ledger.returned 5 = [(0, some 1)] ∧
      s.ledger.posted 0 = s.ledger.handedBy 0 ++ (s.osEventTbl 0).content.msgs :=
  ⟨by decide +kernel, by decide +kernel,
    (messages_kept (Option.some_get twoPosts_isSome).symm (by simp [twoPosts, Step.HasMessage,
      Call.HasMessage])).1 0⟩

end Results

end FanGateway.Kernel
