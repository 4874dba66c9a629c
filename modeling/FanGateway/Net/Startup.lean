import FanGateway.Enc28j60.Receive

/-!
# Frames that arrive while the network is brought up

The chip is enabled early: frames and interrupts may arrive while the stack is
still being initialised. The interrupt handler passes a packet on as soon as it
gets memory for it, through a pointer of the interface that is set late. In
between the pool for packets is ready and the pointer is not.
-/

namespace FanGateway.Net

open Lib Enc28j60

/-! ## Enabling reception -/

/-- What `ENC28J60_Init` does once the clock is stable, up to the line that enables reception. -/
def enableReception (macaddr : Fin 6 → UInt8) (d : Driver) : Driver :=
  let d := (Driver.read Reg.erevid d).2
  let d := { d with dev := { d.dev with nextPacketPtr := 0 } }
  let d := (Driver.setup macaddr).foldl (fun d w => Driver.write w.1 w.2 d) d
  let d := Driver.phyWrite 0x00 0x0100 d
  let d := Driver.phyWrite 0x10 0x0100 d
  let d := Driver.setBank Reg.econ1 d
  let d := Driver.writeOp .bitFieldSet Reg.eie (0x80 ||| 0x40 ||| 0x08 ||| 0x02 ||| 0x01) d
  Driver.writeOp .bitFieldSet Reg.econ1 0x04 d

/-- `ENC28J60_Init` up to there. -/
def enable (temp : ℕ) (d : Driver) : Driver :=
  let macaddr : Fin 6 → UInt8 :=
    ![2, 0, 0, UInt8.ofNat (temp >>> 16 &&& 0xFF), UInt8.ofNat (temp >>> 8 &&& 0xFFF),
      UInt8.ofNat (temp &&& 0xFF)]
  let d := { d with dev := { d.dev with macaddr } }
  enableReception macaddr (Driver.waitClock 250 (Driver.writeOp .softReset 0 0xFF d)).2

/-- With the duplex mode read behind it, that is all of `ENC28J60_Init`. -/
theorem getDuplex_enable (temp : ℕ) (c : Chip) (macaddr : Fin 6 → UInt8) (next : ℕ) :
    Driver.init temp ⟨c, ⟨0, next, macaddr⟩⟩ =
      (0, (Driver.getDuplex (enable temp ⟨c, ⟨0, next, macaddr⟩⟩)).2) := by
  have hready := (Driver.init_spec temp c macaddr next).1
  simp only [Driver.init] at hready ⊢
  split_ifs at hready ⊢ with hclock
  rfl

/-! ## The start -/

/-- The statements of `lwip_comm_init` in their order, those of the functions it calls among
them. -/
inductive Stmt
  /-- `lwip_comm_mem_malloc`. -/
  | memMalloc
  /-- `ENC28J60_Init` up to the line that enables reception. -/
  | chipInit
  | getDuplex
  /-- `lwip_init` before `memp_init`. -/
  | memInit
  | mempInit
  /-- `lwip_init` behind `memp_init`. -/
  | modulesInit
  | mboxNew
  | threadNew
  | defaultIpSet
  /-- `netif_add` before it sets `input`. -/
  | netifReset
  | setInput
  | netifSetAddr
  | ethernetifInit
  | netifSetDefault
  | netifSetUp
  | returned
  deriving DecidableEq

/-- The function that goes to `lwip_netif.input`. -/
inductive Input
  | tcpipInput
  deriving DecidableEq

/-- What matters while the network is brought up. -/
structure Startup where
  pc : Stmt
  /-- `memp_init` has been called. -/
  pools : Bool
  /-- `lwip_netif.input`, or NULL. -/
  input : Option Input
  rx : Enc28j60.State
  /-- What `ethernetif_input` has called so far. -/
  called : List (Option Input)

inductive StartupEvent
  /-- The initialisation goes on; `ok` is whether memory was allocated or the chip answered. -/
  | next (ok : Bool)
  /-- Something happens at the chip; `pbufAlloc` is whether the pool, once there is one, has
  packets left. -/
  | chip (e : Enc28j60.Event) (pbufAlloc : Bool)

/-- Reception is enabled. -/
def Stmt.Receives (stmt : Stmt) : Prop := stmt ≠ .memMalloc ∧ stmt ≠ .chipInit

instance (stmt : Stmt) : Decidable stmt.Receives := inferInstanceAs (Decidable (_ ∧ _))

namespace Startup

/-- One statement of `lwip_comm_init`. When it fails, `main` calls it again. -/
def next (temp : ℕ) (ok : Bool) (s : Startup) : Option Startup :=
  match s.pc with
  | .memMalloc => some (if ok then { s with pc := .chipInit } else s)
  | .chipInit =>
    some (if ok then
      { s with pc := .getDuplex, rx := { s.rx with driver := enable temp s.rx.driver } }
    else { s with pc := .memMalloc })
  | .getDuplex =>
    some { s with
      pc := .memInit, rx := { s.rx with driver := (Driver.getDuplex s.rx.driver).2 } }
  | .memInit => some { s with pc := .mempInit }
  | .mempInit => some { s with pc := .modulesInit, pools := true }
  | .modulesInit => some { s with pc := .mboxNew }
  | .mboxNew => some { s with pc := .threadNew }
  | .threadNew => some { s with pc := .defaultIpSet }
  | .defaultIpSet => some { s with pc := .netifReset }
  | .netifReset => some { s with pc := .setInput }
  | .setInput => some { s with pc := .netifSetAddr, input := some .tcpipInput }
  | .netifSetAddr => some { s with pc := .ethernetifInit }
  | .ethernetifInit => some { s with pc := .netifSetDefault }
  | .netifSetDefault => some { s with pc := .netifSetUp }
  | .netifSetUp => some { s with pc := .returned }
  | .returned => none

/-- The handler finds a frame, and gets memory to read it and, if there is a pool, a packet. -/
def FindsFrame (s : Startup) : Enc28j60.Event → Bool → Prop
  | .interrupt mymalloc, pbufAlloc =>
    Driver.flags s.rx.driver &&& 0x40 ≠ 0 ∧ mymalloc = true ∧ pbufAlloc = true
  | _, _ => False

instance (s : Startup) : ∀ e pbufAlloc, Decidable (s.FindsFrame e pbufAlloc)
  | .interrupt _, _ => inferInstanceAs (Decidable (_ ∧ _ ∧ _))
  | .store _, _ | .drop, _ | .sent _, _ => inferInstanceAs (Decidable False)

/-- `ethernetif_input` calls what the interface holds with the packet, if it got one. -/
def ethernetifInput (s : Startup) (e : Enc28j60.Event) (pbufAlloc : Bool) :
    List (Option Input) :=
  if s.FindsFrame e pbufAlloc ∧ s.pools = true then [s.input] else []

end Startup

/-- Bringing up the network, from a chip that may hold anything. -/
def startup (temp : ℕ) (c : Chip) : Machine Startup StartupEvent where
  init := ⟨.memMalloc, false, none, ⟨⟨c, ⟨0, 0, fun _ => 0⟩⟩, [], []⟩, []⟩
  step s
    | .next ok => s.next temp ok
    | .chip e pbufAlloc =>
      if s.pc.Receives then
        ((receiver temp c).step s.rx e).map fun rx =>
          { s with rx, called := s.called ++ s.ethernetifInput e pbufAlloc }
      else none

/-! ## The window -/

namespace Stmt

/-- `memp_init` has been called before. -/
def HasPools : Stmt → Prop
  | memMalloc | chipInit | getDuplex | memInit | mempInit => False
  | _ => True

/-- `input` has been set before. -/
def HasInput : Stmt → Prop
  | netifSetAddr | ethernetifInit | netifSetDefault | netifSetUp | returned => True
  | _ => False

/-- There are pools and no input function. -/
def InWindow (stmt : Stmt) : Prop := stmt.HasPools ∧ ¬stmt.HasInput

end Stmt

/-- The handler does not find a frame in the window. -/
def NotInWindow (s : Startup) : StartupEvent → Prop
  | .next _ => True
  | .chip e pbufAlloc => s.pc.InWindow → ¬s.FindsFrame e pbufAlloc

/-- The pools and the input function are there when the initialisation has come so far. -/
structure OnTime (s : Startup) : Prop where
  pools : s.pools = true ↔ s.pc.HasPools
  input : s.input = none ↔ ¬s.pc.HasInput

section Runs

variable {temp : ℕ} {c : Chip} {s t : Startup} {e : StartupEvent} {events : List StartupEvent}

theorem onTime_init : OnTime (startup temp c).init := by
  constructor <;> simp [startup, Stmt.HasPools, Stmt.HasInput]

/-- A statement sets what it is there to set, and calls nothing. -/
theorem OnTime.next (h : OnTime s) {ok : Bool} (hstep : s.next temp ok = some t) :
    OnTime t ∧ t.called = s.called := by
  obtain ⟨hpools, hinput⟩ := h
  cases hpc : s.pc <;> rw [hpc] at hpools hinput <;> simp only [Startup.next, hpc] at hstep
  case memMalloc =>
    cases ok with
    | false =>
      cases hstep
      rw [← hpc] at hpools hinput
      exact ⟨⟨hpools, hinput⟩, rfl⟩
    | true =>
      cases hstep
      exact ⟨⟨hpools, hinput⟩, rfl⟩
  case chipInit =>
    cases ok <;> cases hstep <;> exact ⟨⟨hpools, hinput⟩, rfl⟩
  case mempInit =>
    cases hstep
    exact ⟨⟨iff_of_true rfl trivial, hinput⟩, rfl⟩
  case setInput =>
    cases hstep
    exact ⟨⟨hpools, iff_of_false (Option.some_ne_none _) (not_not_intro trivial)⟩, rfl⟩
  case returned => cases hstep
  -- the others set neither
  all_goals
    cases hstep
    exact ⟨⟨hpools, hinput⟩, rfl⟩

/-- What happens at the chip does not concern the initialisation. -/
theorem chip_step {e : Enc28j60.Event} {pbufAlloc : Bool}
    (hstep : (startup temp c).step s (.chip e pbufAlloc) = some t) :
    t.pc = s.pc ∧ t.pools = s.pools ∧ t.input = s.input ∧
      t.called = s.called ++ s.ethernetifInput e pbufAlloc := by
  simp only [startup, Option.ite_none_right_eq_some, Option.map_eq_some_iff] at hstep
  obtain ⟨-, rx, -, rfl⟩ := hstep
  exact ⟨rfl, rfl, rfl, rfl⟩

theorem OnTime.step (h : OnTime s) (hstep : (startup temp c).step s e = some t) : OnTime t := by
  cases e with
  | next ok => exact (h.next hstep).1
  | chip e pbufAlloc =>
    obtain ⟨hpc, hpools, hinput, -⟩ := chip_step hstep
    constructor
    · rw [hpools, hpc]
      exact h.pools
    · rw [hinput, hpc]
      exact h.input

/-- The missing function is called if a frame is found in the window, and only then. -/
theorem OnTime.mem_ethernetifInput (h : OnTime s) {e : Enc28j60.Event} {pbufAlloc : Bool} :
    none ∈ s.ethernetifInput e pbufAlloc ↔ s.pc.InWindow ∧ s.FindsFrame e pbufAlloc := by
  rw [Stmt.InWindow, ← h.pools, ← h.input, Startup.ethernetifInput]
  split_ifs with hcalls
  · rw [List.mem_singleton]
    constructor
    · intro hnone
      exact ⟨⟨hcalls.2, hnone.symm⟩, hcalls.1⟩
    · rintro ⟨⟨-, hnone⟩, -⟩
      exact hnone.symm
  · refine iff_of_false List.not_mem_nil ?_
    rintro ⟨⟨hpools, -⟩, hfinds⟩
    exact hcalls ⟨hfinds, hpools⟩

theorem OnTime.called_step (h : OnTime s) (hstep : (startup temp c).step s e = some t) :
    none ∉ t.called ↔ none ∉ s.called ∧ NotInWindow s e := by
  cases e with
  | next ok =>
    rw [(h.next hstep).2]
    exact (and_iff_left trivial).symm
  | chip e pbufAlloc =>
    obtain ⟨-, -, -, hcalled⟩ := chip_step hstep
    rw [hcalled, List.mem_append, h.mem_ethernetifInput, not_or, not_and]
    rfl

/-- **Input pointer.** From the first call of `lwip_comm_init` on, `ethernetif_input` has never
called a missing function exactly when no handler run found a frame in the window. -/
theorem input_set_iff (hrun : (startup temp c).run (startup temp c).init events = some s) :
    none ∉ s.called ↔ (startup temp c).Exec NotInWindow (startup temp c).init events s :=
  Machine.iff_exec hrun List.not_mem_nil onTime_init (fun _ _ _ h hstep => h.step hstep)
    fun _ _ _ h hstep => h.called_step hstep

/-- What happens at the chip while reception is enabled. -/
theorem step_chip {e : Enc28j60.Event} {pbufAlloc : Bool} {rx : Enc28j60.State}
    (hreceives : s.pc.Receives) (hrx : (receiver temp c).step s.rx e = some rx) :
    (startup temp c).step s (.chip e pbufAlloc) =
      some { s with rx, called := s.called ++ s.ethernetifInput e pbufAlloc } := by
  simp [startup, hreceives, hrx]

theorem findsFrame_of_unread (h : Enc28j60.Inv s.rx) (hunread : s.rx.unread ≠ []) :
    s.FindsFrame (.interrupt true) true := by
  refine ⟨Driver.flags_pktif.mpr fun hzero => hunread ?_, rfl, rfl⟩
  rw [← List.length_eq_zero_iff, ← h.fifo.count, hzero]
  rfl

end Runs

/-! ## A frame that arrives early -/

/-- Up to `lwip_init` a chip that answers is brought up as `ENC28J60_Init` does it. -/
theorem run_chipInit (temp : ℕ) (c : Chip) :
    (startup temp c).run (startup temp c).init [.next true, .next true, .next true] =
      some ⟨.memInit, false, none, (receiver temp c).init, []⟩ := by
  have hinit := congrArg Prod.snd (getDuplex_enable temp c (fun _ => 0) 0)
  simp only [receiver, hinit]
  rfl

/-- A frame that arrives before the pools are there, and a handler run once the initialisation
has come to another statement. -/
def earlyFrame (n : ℕ) : List StartupEvent :=
  [.next true, .next true, .next true] ++ [.chip (.store zeros) false] ++
    List.replicate n (.next true) ++ [.chip (.interrupt true) true]

/-- The frame is passed to whatever the interface holds by then. -/
theorem run_earlyFrame {stmt : Stmt} {n : ℕ} {input : Option Input} (hreceives : stmt.Receives)
    (hnext : ∀ rx, (startup 0 blank).run ⟨.memInit, false, none, rx, []⟩
      (List.replicate n (.next true)) = some ⟨stmt, true, input, rx, []⟩) :
    ∃ rx, (startup 0 blank).run (startup 0 blank).init (earlyFrame n) =
      some ⟨stmt, true, input, rx, [input]⟩ := by
  have hfits : (receiver 0 blank).init.Fits zeros := by
    rw [State.Fits]
    decide
  obtain ⟨r, hr, hinv, -, hunread, -⟩ :=
    (inv_init 0 blank).exists_store 0 blank (released_init 0 blank) zeros_whole hfits (by decide)
  obtain ⟨q, hq⟩ := hinv.exists_step_interrupt 0 blank true
  -- the frame is stored, and nothing is called yet
  have hstore : (startup 0 blank).step ⟨.memInit, false, none, (receiver 0 blank).init, []⟩
      (.chip (.store zeros) false) = some ⟨.memInit, false, none, r, []⟩ :=
    step_chip ⟨by decide, by decide⟩ hr
  -- it is still there when the handler runs
  have hfinds : Startup.FindsFrame ⟨stmt, true, input, r, []⟩ (.interrupt true) true :=
    findsFrame_of_unread hinv fun hnone => by simp [hnone] at hunread
  have hcalls : Startup.ethernetifInput ⟨stmt, true, input, r, []⟩ (.interrupt true) true =
      [input] := if_pos ⟨hfinds, rfl⟩
  have hinterrupt : (startup 0 blank).step ⟨stmt, true, input, r, []⟩
      (.chip (.interrupt true) true) = some ⟨stmt, true, input, q, [input]⟩ := by
    rw [step_chip hreceives hq, hcalls]
    rfl
  refine ⟨q, ?_⟩
  rw [earlyFrame, Machine.run_append, Machine.run_append, Machine.run_append, run_chipInit,
    Option.bind_some, Machine.run_cons, hstore, Option.bind_some, Machine.run_nil,
    Option.bind_some, hnext, Option.bind_some, Machine.run_cons, hinterrupt]
  rfl

/-- Memory is allocated, the chip answers, and the frame waits until the network is up. -/
theorem input_set_iff_of_patience :
    ∃ s, (startup 0 blank).run (startup 0 blank).init (earlyFrame 12) = some s ∧
      (none ∉ s.called ↔
        (startup 0 blank).Exec NotInWindow (startup 0 blank).init (earlyFrame 12) s) := by
  obtain ⟨rx, hrun⟩ : ∃ rx, (startup 0 blank).run (startup 0 blank).init (earlyFrame 12) =
      some ⟨.returned, true, some .tcpipInput, rx, [some .tcpipInput]⟩ :=
    run_earlyFrame ⟨by decide, by decide⟩ fun _ => rfl
  exact ⟨_, hrun, input_set_iff hrun⟩

/-- If the handler runs while the modules are initialised, the frame is passed to a function that
is not there. -/
theorem early_frame_calls_null :
    ∃ s, (startup 0 blank).run (startup 0 blank).init (earlyFrame 2) = some s ∧
      none ∈ s.called := by
  obtain ⟨rx, hrun⟩ : ∃ rx, (startup 0 blank).run (startup 0 blank).init (earlyFrame 2) =
      some ⟨.modulesInit, true, none, rx, [none]⟩ :=
    run_earlyFrame ⟨by decide, by decide⟩ fun _ => rfl
  exact ⟨_, hrun, List.mem_singleton_self _⟩

end FanGateway.Net
