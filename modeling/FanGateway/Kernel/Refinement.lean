import FanGateway.Kernel.Scheduling
import FanGateway.Port.Mailbox

/-!
# The queues that the port of the network stack sees

The port of the network stack knows a queue by its size, its messages and the number of
tasks that wait. A creation, a deletion, a post and the first half of a pend do with the
ring, the table of waiting tasks and the control blocks what the port expects, and a pend
and a post hand out the messages it expects. No other step of the kernel concerns a queue,
but the second half of a pend whose time has run out.
-/

namespace FanGateway.Kernel

open Lib

variable {α : Type*}

namespace State

variable {s t : State α} {p : Prio} {e e' : EventId} {msg : Option α}

/-- The queue in an event block as the port sees it. -/
def toPort (s : State α) (e : EventId) : Option (Port.OsQ α) :=
  match (s.osEventTbl e).content with
  | .q pq => some ⟨pq.osqSize, pq.contents, (s.osEventTbl e).wait.toFinset.card⟩
  | _ => none

theorem toPort_eq_some_iff {q : Port.OsQ α} : s.toPort e = some q ↔
    ∃ pq, (s.osEventTbl e).content = .q pq ∧
      q = ⟨pq.osqSize, pq.contents, (s.osEventTbl e).wait.toFinset.card⟩ := by
  rw [toPort]
  cases (s.osEventTbl e).content with
  | q pq => simp [eq_comm]
  | _ => simp

theorem toPort_eq_none_iff :
    s.toPort e = none ↔ (s.osEventTbl e).content.osEventType ≠ some .q := by
  rw [toPort]
  cases (s.osEventTbl e).content <;> simp [Content.osEventType]

/-- Other event blocks do not matter. -/
theorem toPort_congr (h : t.osEventTbl e = s.osEventTbl e) : t.toPort e = s.toPort e := by
  rw [toPort, toPort, h]

theorem toPort_of_osEventTbl (h : t.osEventTbl = s.osEventTbl) : t.toPort = s.toPort :=
  funext fun e => toPort_congr (congrFun h e)

/-- A change of one event block. -/
theorem toPort_eq_update {q : Option (Port.OsQ α)}
    (hother : ∀ e', e' ≠ e → t.osEventTbl e' = s.osEventTbl e') (hq : t.toPort e = q) :
    t.toPort = Function.update s.toPort e q := by
  funext e'
  by_cases he : e' = e
  · rw [he, Function.update_self, hq]
  · rw [Function.update_of_ne he, toPort_congr (hother e' he)]

/-- A change of an event block that is no queue before and after. -/
theorem toPort_of_type (hother : ∀ e', e' ≠ e → t.osEventTbl e' = s.osEventTbl e')
    (hbefore : (s.osEventTbl e).content.osEventType ≠ some .q)
    (hafter : (t.osEventTbl e).content.osEventType ≠ some .q) : t.toPort = s.toPort := by
  rw [toPort_eq_update hother (toPort_eq_none_iff.mpr hafter),
    ← toPort_eq_none_iff.mpr hbefore, Function.update_eq_self]

/-! ## Calls concern one event block -/

theorem osEventTbl_modifyEvent {f : Event α → Event α} (he : e' ≠ e) :
    (s.modifyEvent e f).osEventTbl e' = s.osEventTbl e' :=
  Function.update_of_ne he _ _

@[simp] theorem osEventTbl_readyUnlessSuspended :
    (s.readyUnlessSuspended p).osEventTbl = s.osEventTbl := by
  rw [readyUnlessSuspended]
  split_ifs <;> rfl

theorem osEventTbl_osEventTaskRdy {msk : EventType} (he : e' ≠ e) :
    (s.osEventTaskRdy e msg msk).osEventTbl e' = s.osEventTbl e' := by
  rw [osEventTaskRdy]
  change (State.osEventTaskRemove e _ _).osEventTbl e' = _
  rw [osEventTaskRemove, osEventTbl_modifyEvent he, osEventTbl_readyUnlessSuspended]
  rfl

theorem osEventTbl_post {type : EventType} {full : OsErr} (he : e' ≠ e) :
    (s.post type full e msg).1.osEventTbl e' = s.osEventTbl e' := by
  rw [post]
  split_ifs
  · rfl
  · exact osEventTbl_osEventTaskRdy he
  · cases (s.osEventTbl e).content.put msg with
    | none => rfl
    | some c =>
      change (s.setContent e c).osEventTbl e' = _
      rw [setContent, osEventTbl_modifyEvent he]

theorem osEventTbl_pend {type : EventType} {timeout : ℕ} (he : e' ≠ e) :
    (s.pend type e timeout).1.osEventTbl e' = s.osEventTbl e' := by
  rw [pend]
  split_ifs
  · rfl
  · rfl
  · rfl
  · cases (s.osEventTbl e).content.take with
    | some taken =>
      change (s.setContent e taken.2).osEventTbl e' = _
      rw [setContent, osEventTbl_modifyEvent he]
    | none =>
      change (s.wait e s.osPrioCur).osEventTbl e' = _
      rw [wait, osEventTbl_modifyEvent he]

theorem osEventTbl_readyAll {msk : EventType} (n : ℕ) (he : e' ≠ e) :
    (s.readyAll e msk n).osEventTbl e' = s.osEventTbl e' := by
  -- induction on the rounds, the first one split off
  induction n generalizing s with
  | zero => rfl
  | succ n ih =>
    rw [readyAll]
    split_ifs
    · rw [ih, osEventTbl_osEventTaskRdy he]
    · rfl

theorem osEventTbl_del {type : EventType} (he : e' ≠ e) :
    (s.del type e).1.osEventTbl e' = s.osEventTbl e' := by
  rw [del]
  split_ifs
  · rfl
  · rfl
  · change (State.setContent e .unused _).osEventTbl e' = _
    rw [setContent, osEventTbl_modifyEvent he, osEventTbl_readyAll 64 he]

/-- A creation takes a block that is not in use, or changes nothing. -/
theorem create_cases (h : Core s) (c : Content α) :
    (s.create c).2 = none ∧ (s.create c).1 = s ∨
      ∃ e, (s.create c).2 = some e ∧ (s.osEventTbl e).content = .unused ∧
        (s.create c).1.osEventTbl = Function.update s.osEventTbl e ⟨c, .empty 8⟩ := by
  rw [create]
  split_ifs
  · exact .inl ⟨rfl, rfl⟩
  · cases hfree : s.osEventFreeList with
    | nil => exact .inl ⟨rfl, rfl⟩
    | cons e free =>
      have hunused : (s.osEventTbl e).content = .unused := h.free e (by simp [hfree])
      exact .inr ⟨e, rfl, hunused, rfl⟩

/-! ## Calls that concern no queue -/

/-- The type of an event block outlives what is put in and taken out. -/
theorem osEventType_post {type : EventType} {full : OsErr} :
    ((s.post type full e msg).1.osEventTbl e).content.osEventType =
      (s.osEventTbl e).content.osEventType := by
  rw [post]
  split_ifs
  · rfl
  · rw [content_osEventTaskRdy]
  · cases hput : (s.osEventTbl e).content.put msg with
    | none => rfl
    | some c =>
      change ((s.setContent e c).osEventTbl e).content.osEventType = _
      rw [setContent, content_modifyEvent, if_pos rfl]
      exact Content.osEventType_put hput

theorem osEventType_pend {type : EventType} {timeout : ℕ} :
    ((s.pend type e timeout).1.osEventTbl e).content.osEventType =
      (s.osEventTbl e).content.osEventType := by
  rw [pend]
  split_ifs
  · rfl
  · rfl
  · rfl
  · cases htake : (s.osEventTbl e).content.take with
    | some taken =>
      change ((s.setContent e taken.2).osEventTbl e).content.osEventType = _
      rw [setContent, content_modifyEvent, if_pos rfl]
      exact (Content.msgs_take htake).2
    | none => exact congrArg Content.osEventType (content_wait e)

theorem toPort_post {type : EventType} {full : OsErr} (htype : type ≠ .q) :
    (s.post type full e msg).1.toPort = s.toPort := by
  by_cases hq : (s.osEventTbl e).content.osEventType = some .q
  · rw [post, if_pos (by rw [hq]; exact fun h => htype (Option.some.inj h).symm)]
  · exact toPort_of_type (fun _ => osEventTbl_post) hq (by rwa [osEventType_post])

theorem toPort_pend {type : EventType} {timeout : ℕ} (htype : type ≠ .q) :
    (s.pend type e timeout).1.toPort = s.toPort := by
  by_cases hq : (s.osEventTbl e).content.osEventType = some .q
  · rw [pend, if_pos (by rw [hq]; exact fun h => htype (Option.some.inj h).symm)]
  · exact toPort_of_type (fun _ => osEventTbl_pend) hq (by rwa [osEventType_pend])

/-- A deletion leaves an unused block. -/
theorem toPort_del_self {type : EventType}
    (htype : (s.osEventTbl e).content.osEventType = some type) (hint : s.osIntNesting = 0) : (s.del type e).1.toPort e = none := by
  rw [toPort_eq_none_iff, del, if_neg (not_not.mpr htype), if_neg (by omega)]
  change ((State.setContent e .unused _).osEventTbl e).content.osEventType ≠ _
  rw [setContent, content_modifyEvent, if_pos rfl]
  exact (Option.some_ne_none _).symm

theorem toPort_del {type : EventType} (htype : type ≠ .q) :
    (s.del type e).1.toPort = s.toPort := by
  by_cases he : (s.osEventTbl e).content.osEventType = some type
  · by_cases hint : s.osIntNesting = 0
    · have hq : (s.osEventTbl e).content.osEventType ≠ some .q := by
        rw [he]
        exact fun h => htype (Option.some.inj h)
      exact toPort_of_type (fun _ => osEventTbl_del) hq
        (toPort_eq_none_iff.mp (toPort_del_self he hint))
    · rw [del, if_neg (not_not.mpr he), if_pos (Nat.pos_of_ne_zero hint)]
  · rw [del, if_pos he]

theorem toPort_create (h : Core s) {c : Content α} (hc : c.osEventType ≠ some .q) :
    (s.create c).1.toPort = s.toPort := by
  rcases create_cases h c with ⟨-, hsame⟩ | ⟨e, -, hunused, htbl⟩
  · rw [hsame]
  · refine toPort_of_type (e := e) (fun e' he => ?_) ?_ ?_
    · rw [htbl, Function.update_of_ne he]
    · rw [hunused]
      exact (Option.some_ne_none _).symm
    · rwa [htbl, Function.update_self]

/-! ## Calls of a queue -/

/-- A post. -/
theorem toPort_osqPost {q : Port.OsQ α} (hq : s.toPort e = some q) :
    (s.osqPost e msg).1.toPort e = some (q.osqPost msg).2 ∧
      (s.osqPost e msg).2.1 = (if (q.osqPost msg).1 = 0 then .none else .qFull) := by
  obtain ⟨pq, hcontent, rfl⟩ := toPort_eq_some_iff.mp hq
  have htype : ¬ (s.osEventTbl e).content.osEventType ≠ some EventType.q := by
    rw [hcontent]
    exact not_not.mpr rfl
  rw [State.osqPost, State.post, if_neg htype, Port.OsQ.osqPost]
  dsimp only
  by_cases hgrp : (s.osEventTbl e).wait.grp = 0#8
  · have hnone : ¬ 0 < (s.osEventTbl e).wait.toFinset.card := by
      rw [PriorityTable.card_pos_iff]
      exact not_not.mpr hgrp
    rw [if_neg (not_not.mpr hgrp), if_neg hnone, hcontent, Content.put]
    cases hpost : pq.osqPost msg with
    | none =>
      rw [if_pos (OsQ.osqPost_eq_none_iff.mp hpost)]
      exact ⟨hq, rfl⟩
    | some pq' =>
      obtain ⟨hcontents, hsize⟩ := OsQ.contents_osqPost hpost
      have hroom : ¬ pq.contents.length ≥ pq.osqSize := by
        rw [← OsQ.osqPost_eq_none_iff, hpost]
        exact Option.some_ne_none pq'
      rw [if_neg hroom]
      refine ⟨toPort_eq_some_iff.mpr ⟨pq', ?_, ?_⟩, rfl⟩
      · change ((s.setContent e (.q pq')).osEventTbl e).content = _
        rw [setContent, content_modifyEvent, if_pos rfl]
      · change _ = Port.OsQ.mk _ _ ((s.setContent e (.q pq')).osEventTbl e).wait.toFinset.card
        rw [setContent, wait_modifyEvent, if_pos rfl, hcontents, hsize]
  · have hcard : 0 < (s.osEventTbl e).wait.toFinset.card := PriorityTable.card_pos_iff.mpr hgrp
    rw [if_pos hgrp, if_pos hcard]
    refine ⟨toPort_eq_some_iff.mpr ⟨pq, ?_, ?_⟩, rfl⟩
    · rw [content_osEventTaskRdy, hcontent]
    · rw [wait_osEventTaskRdy, PriorityTable.card_remove (PriorityTable.lowest_mem osUnMap hgrp)]

/-- The first half of a pend of a task that may pend. -/
theorem toPort_osqPend (h : Core s) {q : Port.OsQ α} {timeout : ℕ}
    (hq : s.toPort e = some q) (hint : s.osIntNesting = 0) (hlock : s.osLockNesting = 0)
    (hpc : s.pc s.osPrioCur = .user) :
    (s.osqPend e timeout).1.toPort e = some q.osqPend := by
  obtain ⟨pq, hcontent, rfl⟩ := toPort_eq_some_iff.mp hq
  have htype : ¬ (s.osEventTbl e).content.osEventType ≠ some EventType.q := by
    rw [hcontent]
    exact not_not.mpr rfl
  rw [State.osqPend, State.pend, if_neg htype, if_neg (by omega), if_neg (by omega), hcontent,
    Content.take, Port.OsQ.osqPend]
  dsimp only
  cases haccept : pq.osqAccept with
  | none =>
    have hempty := OsQ.osqAccept_eq_none_iff.mp haccept
    rw [hempty, List.length_nil, if_neg (Nat.lt_irrefl 0)]
    have hnew : s.osPrioCur ∉ (s.osEventTbl e).wait :=
      (h.tasks s.osPrioCur).not_waits (congrArg Pc.pends hpc)
    refine toPort_eq_some_iff.mpr ⟨pq, ?_, ?_⟩
    · exact (content_wait e).trans hcontent
    · change _ = Port.OsQ.mk _ _ ((s.wait e s.osPrioCur).osEventTbl e).wait.toFinset.card
      rw [wait, wait_modifyEvent, if_pos rfl, PriorityTable.card_insert hnew, hempty]
  | some taken =>
    obtain ⟨hcontents, hsize⟩ := OsQ.contents_osqAccept haccept
    rw [hcontents, List.length_cons, if_pos (Nat.succ_pos _), List.tail_cons]
    refine toPort_eq_some_iff.mpr ⟨taken.2, ?_, ?_⟩
    · change ((s.setContent e (.q taken.2)).osEventTbl e).content = _
      rw [setContent, content_modifyEvent, if_pos rfl]
    · change _ = Port.OsQ.mk _ _ ((s.setContent e (.q taken.2)).osEventTbl e).wait.toFinset.card
      rw [setContent, wait_modifyEvent, if_pos rfl, hsize]

/-- The second half of a pend: it takes the task off the table if its time has run out. -/
theorem toPort_pendReturn (h : Core s) {q : Port.OsQ α} {t : Tcb α}
    (hq : s.toPort e = some q) (hpc : s.pc s.osPrioCur = .pending e)
    (ht : s.osTcbPrioTbl s.osPrioCur = some t) :
    (s.pendReturn e).1.toPort e = some
      (if t.osTcbStatPend = .timeout then { q with waiting := q.waiting - 1 } else q) := by
  obtain ⟨pq, hcontent, rfl⟩ := toPort_eq_some_iff.mp hq
  rw [State.pendReturn, ht]
  dsimp only
  cases hstat : t.osTcbStatPend with
  | ok =>
    rw [if_neg (by decide)]
    exact toPort_eq_some_iff.mpr ⟨pq, hcontent, rfl⟩
  | timeout =>
    have hwaits : s.osPrioCur ∈ (s.osEventTbl e).wait :=
      ((h.tasks s.osPrioCur).waits_iff e).mpr ⟨congrArg Pc.pends hpc, t, ht, .inr hstat⟩
    rw [if_pos rfl]
    refine toPort_eq_some_iff.mpr ⟨pq, ?_, ?_⟩
    · exact (content_osEventTaskRemove e).trans hcontent
    · change _ = Port.OsQ.mk _ _
        ((s.osEventTaskRemove e s.osPrioCur).osEventTbl e).wait.toFinset.card
      rw [osEventTaskRemove, wait_modifyEvent, if_pos rfl, PriorityTable.card_remove hwaits]

/-! ## The queues along calls and steps -/

section Calls

/-- A post changes nothing but its queue, and nothing if there is none. -/
theorem toPort_osqPost_update : (s.osqPost e msg).1.toPort =
    Function.update s.toPort e ((s.toPort e).map fun q => (q.osqPost msg).2) := by
  refine toPort_eq_update (fun _ => osEventTbl_post) ?_
  cases hq : s.toPort e with
  | none =>
    rw [osqPost, post, if_pos (toPort_eq_none_iff.mp hq), hq]
    rfl
  | some q => exact (toPort_osqPost hq).1

theorem toPort_osqPend_update (h : Core s) {timeout : ℕ} (hint : s.osIntNesting = 0)
    (hlock : s.osLockNesting = 0) (hpc : s.pc s.osPrioCur = .user) :
    (s.osqPend e timeout).1.toPort =
      Function.update s.toPort e ((s.toPort e).map Port.OsQ.osqPend) := by
  refine toPort_eq_update (fun _ => osEventTbl_pend) ?_
  cases hq : s.toPort e with
  | none =>
    rw [osqPend, pend, if_pos (toPort_eq_none_iff.mp hq), hq]
    rfl
  | some q => exact toPort_osqPend h hq hint hlock hpc

/-- With the scheduler locked no task pends. -/
theorem osqPend_of_locked {timeout : ℕ} (hlock : s.osLockNesting ≠ 0) :
    (s.osqPend e timeout).1 = s := by
  rw [osqPend, pend]
  split_ifs with htype hint
  · rfl
  · rfl
  · rfl
  · exact absurd (Nat.eq_zero_of_not_pos ‹_›) hlock

/-- A pend of a queue that holds messages returns the first one. -/
theorem returned_osqPend {q : Port.OsQ α} {timeout : ℕ} {rest : List (Option α)}
    (hq : s.toPort e = some q) (hint : s.osIntNesting = 0) (hlock : s.osLockNesting = 0)
    (hmsgs : q.osqEntries = msg :: rest) :
    (s.osqPend e timeout).1.ledger.returned s.osPrioCur =
      s.ledger.returned s.osPrioCur ++ [(e, msg)] := by
  obtain ⟨pq, hcontent, rfl⟩ := toPort_eq_some_iff.mp hq
  have htype : ¬ (s.osEventTbl e).content.osEventType ≠ some EventType.q := by
    rw [hcontent]
    exact not_not.mpr rfl
  rw [State.osqPend, State.pend, if_neg htype, if_neg (by omega), if_neg (by omega), hcontent,
    Content.take]
  cases haccept : pq.osqAccept with
  | none =>
    rw [OsQ.osqAccept_eq_none_iff.mp haccept] at hmsgs
    cases hmsgs
  | some taken =>
    have hfirst := (OsQ.contents_osqAccept haccept).1.symm.trans hmsgs
    rw [List.cons.injEq] at hfirst
    rw [← hfirst.1]
    exact Function.update_self _ _ _

/-- A post to a queue for which tasks wait gives one of them the message. -/
theorem handed_osqPost (h : Core s) {q : Port.OsQ α} (hq : s.toPort e = some q)
    (hwaiting : 0 < q.waiting) :
    ∃ p τ, p ∈ (s.osEventTbl e).wait ∧ (s.osqPost e msg).1.osTcbPrioTbl p = some τ ∧
      τ.osTcbStatPend = .ok ∧ τ.osTcbMsg = msg := by
  obtain ⟨pq, hcontent, rfl⟩ := toPort_eq_some_iff.mp hq
  have hgrp : (s.osEventTbl e).wait.grp ≠ 0#8 := PriorityTable.card_pos_iff.mp hwaiting
  obtain ⟨τ, hτ, -⟩ := h.of_waits (lowest_waits hgrp)
  refine ⟨_, τ.hand msg .q, lowest_waits hgrp, ?_, rfl, rfl⟩
  rw [osqPost, post, if_neg (by rw [hcontent]; exact not_not.mpr rfl), if_pos hgrp]
  exact congrArg View.tcb (view_osEventTaskRdy rfl hτ)

/-- The second half of a pend concerns its queue if its time has run out, and none otherwise. -/
theorem toPort_pendReturn_cases (h : Core s) (hpc : s.pc s.osPrioCur = .pending e) :
    (s.pendReturn e).1.toPort = s.toPort ∨ ∃ q, s.toPort e = some q ∧ 0 < q.waiting ∧
      (s.pendReturn e).1.toPort =
        Function.update s.toPort e (some { q with waiting := q.waiting - 1 }) := by
  cases hτ : s.osTcbPrioTbl s.osPrioCur with
  | none => exact .inl (by rw [pendReturn, hτ])
  | some τ =>
    have hother (e' : EventId) (he : e' ≠ e) :
        (s.pendReturn e).1.osEventTbl e' = s.osEventTbl e' := by
      rw [pendReturn, hτ]
      dsimp only
      cases τ.osTcbStatPend with
      | ok => rfl
      | timeout =>
        change (s.osEventTaskRemove e s.osPrioCur).osEventTbl e' = _
        rw [osEventTaskRemove, osEventTbl_modifyEvent he]
    cases hq : s.toPort e with
    | none =>
      have htype := toPort_eq_none_iff.mp hq
      refine .inl (toPort_of_type hother htype ?_)
      rw [pendReturn, hτ]
      dsimp only
      cases τ.osTcbStatPend with
      | ok => exact htype
      | timeout =>
        change ((s.osEventTaskRemove e s.osPrioCur).osEventTbl e).content.osEventType ≠ _
        rwa [content_osEventTaskRemove]
    | some q =>
      have hself := toPort_pendReturn h hq hpc hτ
      by_cases htimeout : τ.osTcbStatPend = .timeout
      · rw [if_pos htimeout] at hself
        refine .inr ⟨q, rfl, ?_, toPort_eq_update hother hself⟩
        obtain ⟨pq, -, rfl⟩ := toPort_eq_some_iff.mp hq
        have hwaits : s.osPrioCur ∈ (s.osEventTbl e).wait :=
          ((h.tasks s.osPrioCur).waits_iff e).mpr ⟨congrArg Pc.pends hpc, τ, hτ, .inr htimeout⟩
        exact PriorityTable.card_pos_iff.mpr (PriorityTable.grp_ne_zero hwaits)
      · rw [if_neg htimeout, ← hq] at hself
        rw [toPort_eq_update hother hself, Function.update_eq_self]
        exact .inl rfl

/-- `OSQCreate` makes an empty queue of an event block that was none, or changes nothing. -/
theorem toPort_osqCreate (h : Core s) (start : ℕ → Option α) (size : ℕ) :
    (s.osqCreate start size).2 = none ∧ (s.osqCreate start size).1.toPort = s.toPort ∨
      ∃ e, (s.osqCreate start size).2 = some e ∧ s.toPort e = none ∧
        (s.osqCreate start size).1.toPort =
          Function.update s.toPort e (some ⟨size, [], 0⟩) := by
  rw [osqCreate]
  split_ifs with hfree
  · exact .inl ⟨rfl, rfl⟩
  · have hsame : (if (s.create (.q (.osqCreate start size))).2.isSome then
        { (s.create (.q (.osqCreate start size))).1 with
          osqFree := (s.create (.q (.osqCreate start size))).1.osqFree - 1 }
        else (s.create (.q (.osqCreate start size))).1).osEventTbl =
        (s.create (.q (.osqCreate start size))).1.osEventTbl := by
      split_ifs <;> rfl
    dsimp only
    rw [toPort_of_osEventTbl hsame]
    rcases create_cases h (.q (.osqCreate start size)) with ⟨hnone, heq⟩ | ⟨e, he, hunused, htbl⟩
    · exact .inl ⟨hnone, by rw [heq]⟩
    · have hcard : (PriorityTable.empty 8).toFinset.card = 0 :=
        Nat.eq_zero_of_not_pos fun hpos => PriorityTable.card_pos_iff.mp hpos rfl
      refine .inr ⟨e, he, ?_, toPort_eq_update (fun e' hne => ?_) ?_⟩
      · rw [toPort_eq_none_iff, hunused]
        exact (Option.some_ne_none _).symm
      · rw [htbl, Function.update_of_ne hne]
      · rw [toPort, htbl, Function.update_self]
        dsimp only
        rw [hcard]
        rfl

/-- `OSQDel` outside of interrupts leaves no queue behind. -/
theorem toPort_osqDel (hint : s.osIntNesting = 0) :
    (s.osqDel e).1.toPort = Function.update s.toPort e none := by
  have htbl : (s.osqDel e).1.osEventTbl = (s.del .q e).1.osEventTbl := by
    rw [osqDel]
    dsimp only
    split_ifs <;> rfl
  rw [toPort_of_osEventTbl htbl]
  refine toPort_eq_update (fun _ => osEventTbl_del) ?_
  by_cases htype : (s.osEventTbl e).content.osEventType = some .q
  · exact toPort_del_self htype hint
  · rw [del, if_pos htype]
    exact toPort_eq_none_iff.mpr htype

end Calls

end State

/-- The calls of a queue. -/
def Call.onQueue : Call α → Bool
  | .osqCreate _ _ | .osqPend _ _ | .osqPost _ _ | .osqDel _ => true
  | _ => false

/-- The steps that are calls of a queue. -/
def Step.onQueue : Step α → Bool
  | .main c | .call c | .isr c => c.onQueue
  | _ => false

namespace State

variable {s t : State α} {c : Call α} {a : Step α}

theorem toPort_call (h : Core s) (hc : c.onQueue = false) : (s.call c).1.toPort = s.toPort := by
  cases c with
  | osSemCreate cnt => exact toPort_create h (by simp [Content.osEventType])
  | osMboxCreate pmsg => exact toPort_create h (by simp [Content.osEventType])
  | osqCreate start size => cases hc
  | osSemPend e timeout => exact toPort_pend (by decide)
  | osMboxPend e timeout => exact toPort_pend (by decide)
  | osqPend e timeout => cases hc
  | osSemPost e => exact toPort_post (by decide)
  | osMboxPost e pmsg => exact toPort_post (by decide)
  | osqPost e pmsg => cases hc
  | osSemDel e => exact toPort_del (by decide)
  | osMboxDel e => exact toPort_del (by decide)
  | osqDel e => cases hc
  | osTaskCreate prio =>
    rw [call, osTaskCreate]
    split_ifs <;> rfl
  | osTaskSuspend prio =>
    rw [call, osTaskSuspend]
    split_ifs <;> rfl
  | osTaskResume prio =>
    rw [call, osTaskResume]
    cases s.osTcbPrioTbl prio with
    | none => rfl
    | some τ =>
      dsimp only
      split_ifs <;> rfl
  | osTimeDly ticks =>
    rw [call, osTimeDly]
    split_ifs <;> rfl
  | osSchedLock =>
    rw [call, osSchedLock]
    split_ifs <;> rfl
  | osSchedUnlock =>
    rw [call, osSchedUnlock]
    split_ifs <;> rfl

/-- A task's time runs out without a look at event blocks. -/
theorem osEventTbl_tickTask {p : Prio} : (s.tickTask p).osEventTbl = s.osEventTbl := by
  rw [tickTask]
  cases s.osTcbPrioTbl p with
  | none => rfl
  | some τ =>
    dsimp only
    split_ifs with hdly
    · rw [osEventTbl_readyUnlessSuspended]
      rfl
    · rfl
    · rfl

/-- A step that is no call of a queue leaves the queues alone, up to the end of a wait in vain. -/
theorem toPort_step (h : Sched s) (hstep : s.step a = some t) (ha : a.onQueue = false) :
    t.toPort = s.toPort ∨ ∃ e q, s.toPort e = some q ∧ 0 < q.waiting ∧
      t.toPort = Function.update s.toPort e (some { q with waiting := q.waiting - 1 }) := by
  cases steps_of_step hstep with
  | main => exact .inl (toPort_call h.core ha)
  | start => exact .inl (toPort_of_osEventTbl (by rw [osStart_eq]))
  | call => exact .inl (toPort_call h.core ha)
  | sched => exact .inl (toPort_of_osEventTbl (by rw [osSched_eq]; rfl))
  | pendSched => exact .inl (toPort_of_osEventTbl (by rw [osSched_eq]; rfl))
  | @pendReturn e _ hpc =>
    rcases toPort_pendReturn_cases h.core hpc with hsame | ⟨q, hq, hwaiting, hless⟩
    · exact .inl hsame
    · exact .inr ⟨e, q, hq, hwaiting, hless⟩
  | intEnter => exact .inl (toPort_of_osEventTbl (by rw [osIntEnter_eq]))
  | isr => exact .inl (toPort_call h.core ha)
  | tick => exact .inl rfl
  | tickTask => exact .inl (toPort_of_osEventTbl osEventTbl_tickTask)
  | intExit => exact .inl (toPort_of_osEventTbl (by rw [osIntExit_eq]))
  | pendSv => exact .inl rfl

end State

end FanGateway.Kernel
