import FanGateway.Enc28j60.Init
import FanGateway.Lib.Machine

/-!
# The receive buffer and the driver in step

Frames are stored and dropped by the chip and read by the interrupt handler, in any
order. Beside the chip and the driver the state keeps every frame that was stored, with
its position, and every packet that was returned.

The driver is in step with the chip if the packets it returned are the frames stored
first, if it goes on at the oldest frame it has not returned, and if EPKTCNT counts the
frames from there on.

The branch of the handler for a receive error counts a frame less and reads none. It does
no harm while nothing is counted, but for ERXRDPT: the branch moves it on, and the chip
goes by it when it looks for room.
-/

namespace FanGateway.Enc28j60

open Lib

/-- The driver, the frames stored so far and the packets returned so far. -/
structure State where
  driver : Driver
  stored : List (ℕ × Frame)
  returned : List (List UInt8)

inductive Event
  /-- A frame arrives and is stored. -/
  | store (f : Frame)
  | drop
  /-- A transmission ends. -/
  | sent (failed : Bool)
  /-- The interrupt handler runs; `mymalloc` is whether it gets memory. -/
  | interrupt (mymalloc : Bool)

/-- What the chip does by itself. -/
def State.withChip (s : State) (c : Chip) : State :=
  { s with driver := { s.driver with chip := c } }

/-- The chip and the driver after `ENC28J60_Init`, whatever the chip held before. -/
def receiver (temp : ℕ) (c : Chip) : Machine State Event where
  init := ⟨(Driver.init temp ⟨c, ⟨0, 0, fun _ => 0⟩⟩).2, [], []⟩
  step s
    | .store f =>
      if s.driver.chip.Accepts f then
        some ⟨{ s.driver with chip := s.driver.chip.receive f },
          s.stored ++ [(s.driver.chip.ptr Reg.erxwrptl, f)], s.returned⟩
      else none
    | .drop => some (s.withChip s.driver.chip.drop)
    | .sent failed => some (s.withChip (s.driver.chip.sent failed))
    | .interrupt mymalloc => (s.driver.isrHandler mymalloc).map fun r =>
      { s with driver := r.2, returned := s.returned ++ r.1.toList }

namespace State

/-- The stored frames no packet was returned for. -/
def unread (s : State) : List (ℕ × Frame) := s.stored.drop s.returned.length

/-- The driver is in step with the chip. -/
structure Synced (s : State) : Prop where
  /-- `NextPacketPtr` is the position of the oldest frame not read. -/
  next : ∀ r, s.unread.head? = some r → s.driver.dev.nextPacketPtr = r.1
  /-- EPKTCNT is the number of frames not read. -/
  count : (s.driver.chip.regs Reg.epktcnt).toNat = s.unread.length
  /-- The packets returned are the frames stored first, in order. -/
  inOrder : s.returned = (s.stored.take s.returned.length).map fun r => r.2.payload
  /-- No frame is left behind. -/
  drained : s.driver.chip.regs Reg.epktcnt = 0 → s.returned = s.stored.map fun r => r.2.payload

/-- RXERIF is up. -/
def RxError (s : State) : Prop := s.driver.chip.eir &&& 0x01 ≠ 0

/-- A frame fits into the ring beside those that are not read. One byte stays free. -/
def Fits (s : State) (f : Frame) : Prop :=
  Ring.total Frame.size (s.unread.map Prod.snd) + f.size < rxSize

/-- ERXRDPT is where the driver goes on reading. -/
def Released (s : State) : Prop := s.driver.core.ptr Reg.erxrdptl = s.driver.dev.nextPacketPtr

end State

/-! ## Every step keeps the driver in step -/

/-- The driver and the chip agree about the frames in the ring, and what is not in the ring any
more has been returned. -/
structure Inv (s : State) : Prop where
  known : s.driver.BankKnown
  fifo : Fifo s.driver.core s.driver.dev.nextPacketPtr s.unread
  inOrder : s.returned = (s.stored.take s.returned.length).map fun r => r.2.payload

section Steps

variable {s t : State} {d : Driver} {f : Frame} {a : ℕ} {rs : List (ℕ × Frame)}

theorem Inv.le (h : Inv s) : s.returned.length ≤ s.stored.length := by
  have hlen := congrArg List.length h.inOrder
  rw [List.length_map, List.length_take] at hlen
  omega

theorem Inv.synced (h : Inv s) : s.Synced where
  -- the oldest frame not read is where the queue begins
  next r hr := by
    have hqueue := h.fifo.queue
    obtain ⟨rs, hrs⟩ : ∃ rs, s.unread = r :: rs := List.head?_eq_some_iff.1 hr
    rw [hrs] at hqueue
    exact hqueue.head.1.symm
  count := h.fifo.count
  inOrder := h.inOrder
  -- nothing is counted, so nothing is unread and all has been returned
  drained hzero := by
    have hcount : s.unread.length = 0 := by
      rw [← h.fifo.count]
      exact congrArg UInt8.toNat hzero
    have hall : s.stored.take s.returned.length = s.stored := by
      rw [State.unread, List.length_drop] at hcount
      exact List.take_of_length_le (Nat.le_of_sub_eq_zero hcount)
    rw [← hall]
    exact h.inOrder

/-- A step that leaves the core alone and returns nothing. -/
theorem Inv.of_sameCore (h : Inv s) (hsame : Driver.SameCore s.driver d) :
    Inv { s with driver := d } := by
  refine ⟨hsame.known h.known, ?_, h.inOrder⟩
  rw [hsame.core, hsame.next]
  exact h.fifo

/-- The chip stores a frame whatever is not in its core, and leaves that as it is. -/
theorem core_receive (hconf : Configured d.core) (hwrite : d.core.ptr Reg.erxwrptl < rxSize) :
    Driver.core { d with chip := d.chip.receive f } = d.core.receive f ∧
      (d.chip.receive f).econ1 = d.chip.econ1 ∧ (d.chip.receive f).eir = d.chip.eir := by
  have hchip : Configured d.chip := hconf.of_regs fun _ _ => rfl
  have hwrite' : d.chip.ptr Reg.erxwrptl < rxSize := hwrite
  simp only [Chip.receive]
  rw [hchip.storeBytes_eq hwrite', hconf.storeBytes_eq hwrite]
  exact ⟨rfl, rfl, rfl⟩

theorem Inv.store (h : Inv s) (haccepts : s.driver.chip.Accepts f) (hfits : s.Fits f) :
    Inv ⟨{ s.driver with chip := s.driver.chip.receive f },
      s.stored ++ [(s.driver.chip.ptr Reg.erxwrptl, f)], s.returned⟩ := by
  have hunread : (s.stored ++ [(s.driver.chip.ptr Reg.erxwrptl, f)]).drop s.returned.length =
      s.unread ++ [(s.driver.chip.ptr Reg.erxwrptl, f)] := List.drop_append_of_le_length h.le
  obtain ⟨hcore, hbank, -⟩ := core_receive (f := f) h.fifo.conf h.fifo.queue.last_lt
  refine ⟨?_, ?_, ?_⟩
  · have hknown := h.known
    rw [Driver.BankKnown, Chip.bank] at hknown ⊢
    rw [hbank]
    exact hknown
  · rw [State.unread, hunread, hcore]
    exact h.fifo.receive haccepts hfits
  · rw [List.take_append_of_le_length h.le]
    exact h.inOrder

/-- The chip stores in the room it sees, and that is free while ERXRDPT is where reading goes
on. -/
theorem Inv.fits (h : Inv s) (hreleased : s.Released) (haccepts : s.driver.chip.Accepts f) :
    s.Fits f :=
  h.fifo.room_of_accepts hreleased haccepts

theorem Inv.released_store (h : Inv s) (hreleased : s.Released) {returned : List (List UInt8)} :
    State.Released ⟨{ s.driver with chip := s.driver.chip.receive f },
      s.stored ++ [(s.driver.chip.ptr Reg.erxwrptl, f)], returned⟩ := by
  have hconf := h.fifo.conf
  have hwrite := h.fifo.queue.last_lt
  rw [State.Released, (core_receive hconf hwrite).1, Chip.receive, hconf.storeBytes_eq hwrite,
    Chip.ptr_withCount (by decide), Chip.ptr_setPtr_of_apart (by decide)]
  exact hreleased

/-- The oldest frame is returned. -/
theorem Inv.consume (h : Inv s) (hunread : s.unread = (a, f) :: rs) {q : ℕ}
    (hknown : d.BankKnown)
    (hcore : d.core = s.driver.core.consumed q ((s.driver.dev.nextPacketPtr + f.size) % rxSize))
    (hnext : d.dev.nextPacketPtr = (s.driver.dev.nextPacketPtr + f.size) % rxSize) :
    Inv { s with driver := d, returned := s.returned ++ [f.payload] } := by
  have hfifo := h.fifo
  rw [hunread] at hfifo
  have hrest : s.stored.drop (s.returned.length + 1) = rs := by
    rw [← List.tail_drop]
    exact congrArg List.tail hunread
  have hread : s.stored.take (s.returned.length + 1) =
      s.stored.take s.returned.length ++ [(a, f)] := by
    have hhead : s.stored[s.returned.length]? = some (a, f) := by
      rw [← List.head?_drop]
      exact congrArg List.head? hunread
    rw [List.take_add_one, hhead]
    rfl
  refine ⟨hknown, ?_, ?_⟩
  · rw [State.unread, List.length_append, List.length_singleton, hrest, hcore, hnext]
    exact hfifo.consume
  · rw [List.length_append, List.length_singleton, hread, List.map_append, ← h.inOrder]
    rfl

/-- What the handler has done before it comes to the branches for the other flags: it has
returned the oldest frame, or none. -/
structure Inv.Input (s : State) (mymalloc : Bool) (r : Option (List UInt8)) (d : Driver) :
    Prop where
  inv : Inv ⟨d, s.stored, s.returned ++ r.toList⟩
  /-- A frame is read if one is counted and there is memory for it. -/
  count : (d.core.regs Reg.epktcnt).toNat =
    (s.driver.core.regs Reg.epktcnt).toNat - mymalloc.toNat
  released : s.Released → d.core.ptr Reg.erxrdptl = d.dev.nextPacketPtr

theorem Inv.handler (h : Inv s) (mymalloc : Bool) :
    ∃ r d, s.driver.isrHandler mymalloc =
        some (r, Driver.otherFlags (Driver.flags s.driver) d) ∧ Inv.Input s mymalloc r d := by
  have hidle (hno : s.driver.core.regs Reg.epktcnt = 0 ∨ mymalloc = false) :
      ∃ r d, s.driver.isrHandler mymalloc =
          some (r, Driver.otherFlags (Driver.flags s.driver) d) ∧ Inv.Input s mymalloc r d := by
    obtain ⟨d, hsame, hrun⟩ := Driver.isrHandler_idle hno
    refine ⟨none, d, hrun, ?_, ?_, fun hreleased => ?_⟩
    · rw [Option.toList_none, List.append_nil]
      exact h.of_sameCore hsame
    · rw [hsame.core]
      rcases hno with hzero | rfl
      · rw [hzero]
        exact (Nat.zero_sub _).symm
      · rfl
    · rw [hsame.core, hsame.next]
      exact hreleased
  have hcount := h.fifo.count
  -- nothing to read, no memory, or the oldest frame is read
  cases hunread : s.unread with
  | nil =>
    rw [hunread] at hcount
    exact hidle (.inl (UInt8.toNat_inj.mp hcount))
  | cons r rs =>
    cases mymalloc with
    | false => exact hidle (.inr rfl)
    | true =>
      obtain ⟨a, f⟩ := r
      have hfifo := h.fifo
      rw [hunread] at hfifo hcount
      have hpos : s.driver.core.regs Reg.epktcnt ≠ 0 := by
        intro hzero
        rw [hzero] at hcount
        exact absurd hcount (Nat.succ_ne_zero _).symm
      obtain ⟨d, q, hrun, hknown, hcore, hnext⟩ := Driver.isrHandler_frame h.known hfifo.conf
        hfifo.idle hpos hfifo.queue.first_lt ((Nat.mod_lt _ (Nat.succ_pos _)).trans (by decide))
        hfifo.queue.head.2 (hfifo.whole _ List.mem_cons_self)
      refine ⟨some f.payload, d, hrun, h.consume hunread hknown hcore hnext, ?_, fun _ => ?_⟩
      · rw [hcore, Chip.consumed, Chip.toNat_count_counted]
        rfl
      · rw [hcore, hnext, Chip.consumed, Chip.counted, Chip.ptr_withCount (by decide)]
        exact Chip.ptr_setPtr ((Nat.mod_lt _ (Nat.succ_pos _)).trans (by decide))

/-- A step that does not bring the driver out of step: no frame is stored over one that is not
read, and no frame is counted when the handler comes to the branch for a receive error. -/
def KeepsCount (s : State) : Event → Prop
  | .store f => s.Fits f
  | .interrupt mymalloc => s.RxError → (s.driver.chip.regs Reg.epktcnt).toNat ≤ mymalloc.toNat
  | _ => True

/-- Such a step keeps the driver in step. -/
theorem Inv.step {temp : ℕ} {c : Chip} (h : Inv s) (e : Event) (hkeeps : KeepsCount s e)
    (hstep : (receiver temp c).step s e = some t) : Inv t := by
  cases e with
  | store f =>
    simp only [receiver, Option.ite_none_right_eq_some, Option.some.injEq] at hstep
    obtain ⟨haccepts, rfl⟩ := hstep
    exact h.store haccepts hkeeps
  -- a dropped frame only raises RXERIF
  | drop =>
    cases hstep
    exact h.of_sameCore ⟨rfl, rfl, id⟩
  | sent failed =>
    cases hstep
    exact h.of_sameCore ⟨rfl, rfl, id⟩
  | interrupt mymalloc =>
    obtain ⟨r, d, hrun, hinput⟩ := h.handler mymalloc
    simp only [receiver, hrun, Option.map_some, Option.some.injEq] at hstep
    rw [← hstep]
    have hinv := hinput.inv
    by_cases herror : s.RxError
    · -- nothing is counted, so nothing is unread and the error branch counts nothing down
      have hrxerif : Driver.flags s.driver &&& 0x01 ≠ 0 := by
        rw [Driver.flags_rxerif]
        exact herror
      obtain ⟨hknown, hcore, hnext⟩ := Driver.otherFlags_error hrxerif hinv.known
      have hzero : (d.core.regs Reg.epktcnt).toNat = 0 := by
        rw [hinput.count]
        exact Nat.sub_eq_zero_of_le (hkeeps herror)
      have hnone : State.unread ⟨d, s.stored, s.returned ++ r.toList⟩ = [] := by
        rw [← List.length_eq_zero_iff, ← hinv.fifo.count]
        exact hzero
      have hfifo := hinv.fifo
      rw [hnone] at hfifo
      refine ⟨hknown, ?_, hinv.inOrder⟩
      change Fifo _ _ (State.unread ⟨d, s.stored, s.returned ++ r.toList⟩)
      rw [hnone, hcore, hnext]
      exact (hfifo.setPtr (.inr rfl) _).counted_nil
    · have hrxerif : Driver.flags s.driver &&& 0x01 = 0 := by
        rw [Driver.flags_rxerif]
        exact not_not.1 herror
      exact hinv.of_sameCore (Driver.sameCore_otherFlags hrxerif d)

/-- With a receive error and a frame still counted the handler brings the driver out of step: it
counts a frame less and reads none for it. -/
theorem Inv.not_synced_of_rxError {temp : ℕ} {c : Chip} (h : Inv s) {mymalloc : Bool}
    (herror : s.RxError)
    (hcounted : mymalloc.toNat < (s.driver.chip.regs Reg.epktcnt).toNat)
    (hstep : (receiver temp c).step s (.interrupt mymalloc) = some t) : ¬t.Synced := by
  intro hsynced
  obtain ⟨r, d, hrun, hinput⟩ := h.handler mymalloc
  simp only [receiver, hrun, Option.map_some, Option.some.injEq] at hstep
  have hrxerif : Driver.flags s.driver &&& 0x01 ≠ 0 := by
    rw [Driver.flags_rxerif]
    exact herror
  obtain ⟨-, hcore, -⟩ := Driver.otherFlags_error hrxerif hinput.inv.known
  have hbefore := hinput.inv.fifo.count
  have hafter := hsynced.count
  rw [← hstep] at hafter
  -- no frame was read between the two counts, but the second is one less
  have hless : ((Driver.otherFlags (Driver.flags s.driver) d).core.regs Reg.epktcnt).toNat =
      (d.core.regs Reg.epktcnt).toNat - 1 := by
    rw [hcore, Chip.toNat_count_counted]
    rfl
  have hsame : ((Driver.otherFlags (Driver.flags s.driver) d).core.regs Reg.epktcnt).toNat =
      (d.core.regs Reg.epktcnt).toNat := hafter.trans hbefore.symm
  have hleft : (d.core.regs Reg.epktcnt).toNat =
      (s.driver.chip.regs Reg.epktcnt).toNat - mymalloc.toNat := hinput.count
  omega

/-- A handler run that finds no receive error. -/
def Quiet (s : State) : Event → Prop
  | .interrupt _ => ¬s.RxError
  | _ => True

/-- Without receive errors ERXRDPT stays where reading goes on, so that the chip stores nothing
over frames that are not read. -/
theorem Inv.quiet_step {temp : ℕ} {c : Chip} (h : Inv s) (hreleased : s.Released) {e : Event}
    (hquiet : Quiet s e) (hstep : (receiver temp c).step s e = some t) :
    KeepsCount s e ∧ t.Released := by
  cases e with
  | store f =>
    simp only [receiver, Option.ite_none_right_eq_some, Option.some.injEq] at hstep
    obtain ⟨haccepts, rfl⟩ := hstep
    exact ⟨h.fits hreleased haccepts, h.released_store hreleased⟩
  | drop =>
    cases hstep
    exact ⟨trivial, hreleased⟩
  | sent failed =>
    cases hstep
    exact ⟨trivial, hreleased⟩
  | interrupt mymalloc =>
    refine ⟨fun herror => absurd herror hquiet, ?_⟩
    obtain ⟨r, d, hrun, hinput⟩ := h.handler mymalloc
    simp only [receiver, hrun, Option.map_some, Option.some.injEq] at hstep
    have hrxerif : Driver.flags s.driver &&& 0x01 = 0 := by
      rw [Driver.flags_rxerif]
      exact not_not.1 hquiet
    have hsame := Driver.sameCore_otherFlags hrxerif d
    rw [← hstep, State.Released]
    dsimp only
    rw [hsame.core, hsame.next]
    exact hinput.released hreleased

theorem inv_init (temp : ℕ) (c : Chip) : Inv (receiver temp c).init := by
  obtain ⟨-, hknown, hfifo, -, hnext⟩ := Driver.init_spec temp c (fun _ => 0) 0
  refine ⟨hknown, ?_, rfl⟩
  change Fifo _ (Driver.init temp ⟨c, ⟨0, 0, fun _ => 0⟩⟩).2.dev.nextPacketPtr []
  rw [hnext]
  exact hfifo

theorem released_init (temp : ℕ) (c : Chip) : (receiver temp c).init.Released := by
  obtain ⟨-, -, -, hread, hnext⟩ := Driver.init_spec temp c (fun _ => 0) 0
  exact hread.trans hnext.symm

end Steps

/-! ## Whole runs -/

/-- The driver is in step with the chip in every state of a run. -/
def AlwaysSynced (temp : ℕ) (c : Chip) (events : List Event) : Prop :=
  ∀ before t, before <+: events →
    (receiver temp c).run (receiver temp c).init before = some t → t.Synced

/-- No handler run starts with RXERIF up. -/
def NeverRxError (temp : ℕ) (c : Chip) (events : List Event) : Prop :=
  ∀ before mymalloc t, before ++ [.interrupt mymalloc] <+: events →
    (receiver temp c).run (receiver temp c).init before = some t → ¬t.RxError

/-- No handler run that starts with RXERIF up comes to the branch for it with a frame counted:
none was, or the only one has been read. -/
def NeverLosesCount (temp : ℕ) (c : Chip) (events : List Event) : Prop :=
  ∀ before mymalloc t, before ++ [.interrupt mymalloc] <+: events →
    (receiver temp c).run (receiver temp c).init before = some t → t.RxError →
      (t.driver.chip.regs Reg.epktcnt).toNat ≤ mymalloc.toNat

/-- No frame is stored over one that is not read. -/
def NeverOverwrites (temp : ℕ) (c : Chip) (events : List Event) : Prop :=
  ∀ before f t, before ++ [.store f] <+: events →
    (receiver temp c).run (receiver temp c).init before = some t → t.Fits f

section Runs

variable {temp : ℕ} {c : Chip} {s : State} {events : List Event}

theorem inv_of_run (hrun : (receiver temp c).run (receiver temp c).init events = some s)
    (hcount : NeverLosesCount temp c events) (hfits : NeverOverwrites temp c events) :
    Inv s := by
  have hexec : (receiver temp c).Exec KeepsCount (receiver temp c).init events s :=
    Machine.exec_of_steps hrun fun before e t hpre hbefore => by
      cases e with
      | store f => exact hfits before f t hpre hbefore
      | interrupt mymalloc => exact hcount before mymalloc t hpre hbefore
      | drop => trivial
      | sent failed => trivial
  exact hexec.invariant (inv_init temp c) fun _ e _ hinv hkeeps hstep => hinv.step e hkeeps hstep

/-- The two conditions on a run are one on its steps. -/
theorem never_of_exec (h : (receiver temp c).Exec KeepsCount (receiver temp c).init events s) :
    NeverLosesCount temp c events ∧ NeverOverwrites temp c events := by
  constructor
  · intro before mymalloc t hpre hbefore
    have hkeeps : KeepsCount t (.interrupt mymalloc) := h.of_prefix hpre hbefore
    exact hkeeps
  · intro before f t hpre hbefore
    have hkeeps : KeepsCount t (.store f) := h.of_prefix hpre hbefore
    exact hkeeps

/-- A run none of whose handler runs finds a receive error. -/
theorem inv_of_quiet (hrun : (receiver temp c).run (receiver temp c).init events = some s)
    (hquiet : NeverRxError temp c events) : Inv s ∧ s.Released := by
  have hexec : (receiver temp c).Exec Quiet (receiver temp c).init events s :=
    Machine.exec_of_steps hrun fun before e t hpre hbefore => by
      cases e with
      | interrupt mymalloc => exact hquiet before mymalloc t hpre hbefore
      | store f => trivial
      | drop => trivial
      | sent failed => trivial
  refine hexec.invariant (P := fun s => Inv s ∧ s.Released)
    ⟨inv_init temp c, released_init temp c⟩ fun s e t hs hok hstep => ?_
  obtain ⟨hkeeps, hreleased⟩ := hs.1.quiet_step hs.2 hok hstep
  exact ⟨hs.1.step e hkeeps hstep, hreleased⟩

/-- Where nothing is overwritten, a driver in step loses no count: up to the first handler run
that does, the frames are where the driver looks for them. -/
theorem neverLosesCount_of_synced
    (hrun : (receiver temp c).run (receiver temp c).init events = some s)
    (hfits : NeverOverwrites temp c events) (hsynced : AlwaysSynced temp c events) :
    NeverLosesCount temp c events := by
  intro before
  induction hn : before.length using Nat.strong_induction_on generalizing before with
  | _ n ih =>
    intro mymalloc t hpre hbefore herror
    have hinv : Inv t := by
      refine inv_of_run hbefore (fun first mymalloc' u hfirst => ?_) fun first f u hfirst =>
        hfits first f u (hfirst.trans ((List.prefix_append _ _).trans hpre))
      have hshort : first.length < n := by
        have hlen := hfirst.length_le
        rw [List.length_append, List.length_singleton, hn] at hlen
        exact hlen
      exact ih _ hshort first rfl mymalloc' u (hfirst.trans ((List.prefix_append _ _).trans hpre))
    obtain ⟨u, hu⟩ := Machine.run_of_prefix hpre hrun
    have hstep := hu
    rw [Machine.run_append, hbefore, Option.bind_some, Machine.run_cons] at hstep
    obtain ⟨v, hv, hend⟩ := Option.bind_eq_some_iff.1 hstep
    cases hend
    by_contra hcounted
    exact hinv.not_synced_of_rxError herror (Nat.lt_of_not_le hcounted) hv (hsynced _ _ hpre hu)

/-- **Synchronisation of the receive buffer.** From `ENC28J60_Init` on, the driver is in step
with the chip in every state of a run no handler run of which starts with RXERIF up. It is in
every run in which no frame is stored over one not read exactly when no handler run comes to the
branch for a receive error with a frame counted. -/
theorem synced_iff_keepsCount
    (hrun : (receiver temp c).run (receiver temp c).init events = some s) :
    (NeverRxError temp c events → AlwaysSynced temp c events) ∧
      (NeverOverwrites temp c events →
        (AlwaysSynced temp c events ↔ NeverLosesCount temp c events)) := by
  refine ⟨fun hquiet before t hpre hbefore => ?_, fun hfits =>
    ⟨neverLosesCount_of_synced hrun hfits, fun hcount before t hpre hbefore => ?_⟩⟩
  · have hinv := inv_of_quiet hbefore fun first mymalloc u hfirst =>
      hquiet first mymalloc u (hfirst.trans hpre)
    exact hinv.1.synced
  · have hinv := inv_of_run hbefore
      (fun first mymalloc u hfirst => hcount first mymalloc u (hfirst.trans hpre))
      fun first f u hfirst => hfits first f u (hfirst.trans hpre)
    exact hinv.synced

/-- A whole frame is stored while there is room. -/
theorem Inv.exists_store (temp : ℕ) (c : Chip) (h : Inv s) (hreleased : s.Released) {f : Frame}
    (hf : f.Whole) (hfits : s.Fits f) (hlt : s.unread.length < 255) :
    ∃ t, (receiver temp c).step s (.store f) = some t ∧ Inv t ∧ t.Released ∧
      t.unread.map Prod.snd = s.unread.map Prod.snd ++ [f] ∧ (t.RxError ↔ s.RxError) := by
  have haccepts : s.driver.chip.Accepts f := h.fifo.accepts hreleased hf hfits hlt
  obtain ⟨-, -, hflags⟩ := core_receive (f := f) h.fifo.conf h.fifo.queue.last_lt
  refine ⟨_, if_pos haccepts, h.store haccepts hfits, h.released_store hreleased, ?_, ?_⟩
  · rw [State.unread, List.drop_append_of_le_length h.le, List.map_append]
    rfl
  · rw [State.RxError, hflags, State.RxError]

theorem Inv.exists_step_interrupt (temp : ℕ) (c : Chip) (h : Inv s) (mymalloc : Bool) :
    ∃ t, (receiver temp c).step s (.interrupt mymalloc) = some t := by
  obtain ⟨r, d, hrun, -⟩ := h.handler mymalloc
  exact ⟨_, congrArg (Option.map _) hrun⟩

/-- A handler run that finds no receive error reads a frame if there is one and memory for it. -/
theorem Inv.exists_interrupt (temp : ℕ) (c : Chip) (h : Inv s) (hreleased : s.Released)
    (hquiet : ¬s.RxError) (mymalloc : Bool) :
    ∃ t, (receiver temp c).step s (.interrupt mymalloc) = some t ∧ Inv t ∧ t.Released ∧
      t.unread = s.unread.drop mymalloc.toNat := by
  obtain ⟨r, d, hrun, hinput⟩ := h.handler mymalloc
  have hstep : (receiver temp c).step s (.interrupt mymalloc) = some _ :=
    congrArg (Option.map _) hrun
  obtain ⟨hkeeps, hreleased'⟩ := h.quiet_step hreleased (e := .interrupt mymalloc) hquiet hstep
  refine ⟨_, hstep, h.step _ hkeeps hstep, hreleased', ?_⟩
  have hdrop : State.unread ⟨d, s.stored, s.returned ++ r.toList⟩ =
      s.unread.drop r.toList.length := by
    rw [State.unread, State.unread, List.drop_drop, List.length_append]
  have hleft := hinput.inv.fifo.count
  have hcount : (s.driver.core.regs Reg.epktcnt).toNat = s.unread.length := h.fifo.count
  have hread : (d.core.regs Reg.epktcnt).toNat =
      (s.driver.core.regs Reg.epktcnt).toNat - mymalloc.toNat := hinput.count
  change (d.core.regs Reg.epktcnt).toNat = _ at hleft
  rw [hdrop, List.length_drop] at hleft
  change State.unread ⟨d, s.stored, s.returned ++ r.toList⟩ = _
  rw [hdrop, List.drop_eq_drop_iff]
  omega

/-- A dropped frame changes nothing but RXERIF. -/
theorem Inv.drop (h : Inv s) (hreleased : s.Released) :
    Inv (s.withChip s.driver.chip.drop) ∧ (s.withChip s.driver.chip.drop).Released ∧
      (s.withChip s.driver.chip.drop).RxError :=
  ⟨h.of_sameCore ⟨rfl, rfl, id⟩, hreleased, Driver.flag_set _ (by decide)⟩

end Runs

/-! ## One frame, and two with an error -/

/-- A chip before initialisation. -/
def blank : Chip := ⟨0, 0, 0, 0, 0, fun _ => 0, fun _ => 0⟩

/-- A frame of zeros of the least length. -/
def zeros : Frame := ⟨List.replicate 64 0, 0x80, []⟩

theorem zeros_whole : zeros.Whole := ⟨by decide, by decide, by decide⟩

theorem quiet_init : ¬(receiver 0 blank).init.RxError := by
  have heir : (receiver 0 blank).init.driver.chip.eir = 0 := by decide +kernel
  rw [State.RxError, heir]
  decide

/-- A first frame is stored and read, a second one is stored and a third is dropped. When the
handler comes to the branch for the dropped frame it has read the second one. -/
theorem synced_of_two_frames :
    ∃ s, (receiver 0 blank).run (receiver 0 blank).init
        [.store zeros, .interrupt true, .store zeros, .drop, .interrupt true] = some s ∧
      AlwaysSynced 0 blank
        [.store zeros, .interrupt true, .store zeros, .drop, .interrupt true] := by
  have hfits {s : State} (hunread : s.unread.map Prod.snd = []) : s.Fits zeros := by
    rw [State.Fits, hunread]
    decide
  have hinit := inv_init 0 blank
  have hfits₀ : (receiver 0 blank).init.Fits zeros := hfits rfl
  obtain ⟨s₁, hs₁, hinv₁, hreleased₁, hunread₁, hflag₁⟩ :=
    hinit.exists_store 0 blank (released_init 0 blank) zeros_whole hfits₀ (by decide)
  have hquiet₁ : ¬s₁.RxError := hflag₁.not.mpr quiet_init
  obtain ⟨s₂, hs₂, hinv₂, hreleased₂, hunread₂⟩ :=
    hinv₁.exists_interrupt 0 blank hreleased₁ hquiet₁ true
  have hnone : s₂.unread.map Prod.snd = [] := by
    rw [hunread₂, List.map_drop, hunread₁]
    rfl
  have hlen : s₂.unread.length = 0 := by
    rw [← List.length_map Prod.snd, hnone]
    rfl
  obtain ⟨s₃, hs₃, hinv₃, hreleased₃, hunread₃, -⟩ :=
    hinv₂.exists_store 0 blank hreleased₂ zeros_whole (hfits hnone) (by rw [hlen]; decide)
  obtain ⟨hinv₄, -, herror⟩ := hinv₃.drop hreleased₃
  -- one frame is counted, and there is memory for it
  have hone : ((s₃.withChip s₃.driver.chip.drop).driver.chip.regs Reg.epktcnt).toNat = 1 := by
    refine hinv₄.fifo.count.trans ?_
    rw [← List.length_map Prod.snd]
    change (s₃.unread.map Prod.snd).length = 1
    rw [hunread₃, hnone]
    rfl
  obtain ⟨s₅, hs₅⟩ := hinv₄.exists_step_interrupt 0 blank true
  have hexec : (receiver 0 blank).Exec KeepsCount (receiver 0 blank).init
      [.store zeros, .interrupt true, .store zeros, .drop, .interrupt true] s₅ := by
    have hok₀ : KeepsCount (receiver 0 blank).init (.store zeros) := hfits₀
    have hok₁ : KeepsCount s₁ (.interrupt true) := fun herror => absurd herror hquiet₁
    have hok₂ : KeepsCount s₂ (.store zeros) := hfits hnone
    have hok₃ : KeepsCount s₃ .drop := trivial
    have hok₄ : KeepsCount (s₃.withChip s₃.driver.chip.drop) (.interrupt true) := fun _ => hone.le
    exact .snoc (.snoc (.snoc (.snoc (.snoc .nil hok₀ hs₁) hok₁ hs₂) hok₂ hs₃) hok₃ rfl) hok₄ hs₅
  have hrun := hexec.run_eq
  obtain ⟨hcount, hoverwrites⟩ := never_of_exec hexec
  exact ⟨s₅, hrun, ((synced_iff_keepsCount hrun).2 hoverwrites).mpr hcount⟩

/-- Two frames are stored and a third is dropped. The handler reads the first and counts the
second as read. -/
theorem dropped_frame_not_synced :
    ∃ s, (receiver 0 blank).run (receiver 0 blank).init
        [.store zeros, .store zeros, .drop, .interrupt true] = some s ∧ ¬s.Synced := by
  obtain ⟨s₁, hs₁, hinv₁, hreleased₁, hunread₁, -⟩ :=
    (inv_init 0 blank).exists_store 0 blank (released_init 0 blank) zeros_whole (by
      rw [State.Fits]
      decide) (by decide)
  have hone : s₁.unread.map Prod.snd = [zeros] := hunread₁
  have hlen : s₁.unread.length = 1 := by
    rw [← List.length_map Prod.snd, hone]
    rfl
  obtain ⟨s₂, hs₂, hinv₂, hreleased₂, hunread₂, -⟩ := hinv₁.exists_store 0 blank hreleased₁
    zeros_whole (by rw [State.Fits, hone]; decide) (by rw [hlen]; decide)
  obtain ⟨hinv₃, -, herror⟩ := hinv₂.drop hreleased₂
  have htwo : ((s₂.withChip s₂.driver.chip.drop).driver.chip.regs Reg.epktcnt).toNat = 2 := by
    refine hinv₃.fifo.count.trans ?_
    rw [← List.length_map Prod.snd]
    change (s₂.unread.map Prod.snd).length = 2
    rw [hunread₂, hone]
    rfl
  obtain ⟨s₄, hs₄⟩ := hinv₃.exists_step_interrupt 0 blank true
  refine ⟨s₄, ?_, hinv₃.not_synced_of_rxError herror ?_ hs₄⟩
  · rw [Machine.run_cons, hs₁, Option.bind_some, Machine.run_cons, hs₂, Option.bind_some,
      Machine.run_cons]
    change ((receiver 0 blank).step (s₂.withChip s₂.driver.chip.drop) (.interrupt true)).bind _ = _
    rw [hs₄]
    rfl
  · rw [htwo]
    decide

end FanGateway.Enc28j60
