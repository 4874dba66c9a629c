import FanGateway.Enc28j60.Length
import FanGateway.Lib.Machine
import FanGateway.Net.CommInit
import FanGateway.Net.Ethernet

/-!
# Critical sections

Each function of the driver that works on the chip's buffer masks interrupts on entry
and restores the mask on exit. One exit does not: `ENC28J60_Packet_Receive` returns at
once if no frame is counted. Whoever called it goes on with interrupts masked, the
interrupt handler included, and every later call saves and restores that.
-/

namespace FanGateway.Enc28j60.Sys

variable {σ : Type*} {B : Bus σ} {s t : Sys σ} {polls : ℕ}

theorem masked_packetSend {packet : List UInt8} (h : packetSend B polls packet s = some t) :
    t.masked = s.masked := by
  obtain ⟨u, -, rfl⟩ := Option.map_eq_some_iff.mp h
  rfl

/-- The mask is restored unless no frame is counted. -/
theorem masked_packetReceive {maxlen : ℕ} {r : Received × Sys σ}
    (h : packetReceive B polls maxlen s = some r) :
    r.2.masked = false ↔ s.masked = false ∧ (B.read Reg.epktcnt s.bus).1 ≠ 0 := by
  by_cases hcount : (B.read Reg.epktcnt s.bus).1 = 0
  · obtain rfl := Option.some.inj ((if_pos hcount).symm.trans h)
    exact iff_of_false (fun htrue => Bool.noConfusion htrue) fun hall => hall.2 hcount
  · obtain ⟨u, -, rfl⟩ := Option.map_eq_some_iff.mp ((if_neg hcount).symm.trans h)
    exact (and_iff_left hcount).symm

theorem masked_otherFlags (status : UInt8) (s : Sys σ) :
    (otherFlags B status s).masked = s.masked := by
  rw [otherFlags]
  split_ifs <;> rfl

end FanGateway.Enc28j60.Sys

namespace FanGateway.Net

open Lib Enc28j60 Malloc

variable {σ : Type*} {b : Bank} {B : Bus σ} {polls : ℕ}
  {input : List (List UInt8) → Board σ b → ℤ × Board σ b} {s t : Board σ b}

/-! ## One call -/

/-- The functions with critical sections, called to an end, and what happens between the calls. -/
inductive Entry (σ : Type*) (b : Bank)
  | packetReceive (maxlen : ℕ)
  | packetSend (packet : List UInt8)
  | lowLevelInput
  | ethernetifInput
  | isrHandler
  /-- The chip and the rest of the program do as they like. -/
  | between (bus : σ × Host b)

/-- One call; none if it waits for ever. -/
def Entry.perform (B : Bus σ) (polls : ℕ) (input : List (List UInt8) → Board σ b → ℤ × Board σ b)
    (s : Board σ b) : Entry σ b → Option (Board σ b)
  | .packetReceive maxlen => (Sys.packetReceive (B.beside (Host b)) polls maxlen s).map Prod.snd
  | .packetSend packet => Sys.packetSend (B.beside (Host b)) polls packet s
  | .lowLevelInput => (Net.lowLevelInput B polls s).map Prod.snd
  | .ethernetifInput => (Net.ethernetifInput B polls input s).map Prod.snd
  | .isrHandler => (Net.isrHandler B polls input s).map Prod.snd
  | .between bus => some { s with bus }

/-- The state in which `low_level_input` calls `ENC28J60_Packet_Receive`, if it does. -/
def entersInput (s : Board σ b) : Option (Board σ b) :=
  let buffer := s.malloc 1600
  if buffer.1 = 0 then none else some buffer.2

/-- The state in which a call comes to `ENC28J60_Packet_Receive`, if it does. -/
def Entry.enters (B : Bus σ) (s : Board σ b) : Entry σ b → Option (Board σ b)
  | .packetReceive _ => some s
  | .lowLevelInput | .ethernetifInput => entersInput s
  | .isrHandler =>
    let status := Sys.read (B.beside (Host b)) Reg.eir
      (Sys.writeOp (B.beside (Host b)) .bitFieldClr Reg.eie 0x80 s)
    if status.1 &&& 0x40 ≠ 0 then
      entersInput (Sys.writeOp (B.beside (Host b)) .bitFieldClr Reg.eir 0x40 status.2)
    else none
  | _ => none

/-- A call that comes to look for a frame finds one counted. -/
def FindsFrame (B : Bus σ) (s : Board σ b) (e : Entry σ b) : Prop :=
  ∀ u ∈ e.enters B s, (B.read Reg.epktcnt u.bus.1).1 ≠ 0

instance (e : Entry σ b) : Decidable (FindsFrame B s e) :=
  inferInstanceAs (Decidable (∀ u ∈ e.enters B s, _))

theorem masked_takeFrame (buffer : ℕ) (r : Received) (s : Board σ b) :
    (takeFrame buffer r s).2.masked = s.masked := by
  rw [takeFrame]
  split <;> rfl

theorem masked_lowLevelInput {p : Option (List (List UInt8)) × Board σ b}
    (h : lowLevelInput B polls s = some p) :
    p.2.masked = false ↔
      s.masked = false ∧ ∀ u ∈ entersInput s, (B.read Reg.epktcnt u.bus.1).1 ≠ 0 := by
  simp only [lowLevelInput] at h
  simp only [entersInput]
  split_ifs at h ⊢
  · obtain rfl := Option.some.inj h
    exact (and_iff_left fun u hu => absurd hu (Option.not_mem_none u)).symm
  · obtain ⟨r, hr, rfl⟩ := Option.map_eq_some_iff.mp h
    rw [masked_takeFrame, Sys.masked_packetReceive hr]
    refine and_congr_right fun _ => ⟨fun hcount u hu => ?_, fun hall => hall _ rfl⟩
    obtain rfl := Option.mem_some_iff.mp hu
    exact hcount

/-- The stack leaves critical sections as it enters them. -/
theorem masked_passOn (hinput : ∀ chain s, (input chain s).2.masked = s.masked)
    (p : Option (List (List UInt8)) × Board σ b) : (passOn input p).2.masked = p.2.masked := by
  rw [passOn]
  split
  · rfl
  · rename_i chain _
    dsimp only
    split_ifs
    · exact hinput chain p.2
    · exact hinput chain p.2

theorem masked_ethernetifInput (hinput : ∀ chain s, (input chain s).2.masked = s.masked)
    {r : ℤ × Board σ b} (h : ethernetifInput B polls input s = some r) :
    r.2.masked = false ↔
      s.masked = false ∧ ∀ u ∈ entersInput s, (B.read Reg.epktcnt u.bus.1).1 ≠ 0 := by
  obtain ⟨p, hp, rfl⟩ := Option.map_eq_some_iff.mp h
  rw [masked_passOn hinput]
  exact masked_lowLevelInput hp

/-- **One call.** Interrupts are enabled afterwards if they were before, and if the call has not
looked in vain for a frame. -/
theorem masked_perform (hinput : ∀ chain s, (input chain s).2.masked = s.masked) {e : Entry σ b}
    (h : e.perform B polls input s = some t) :
    t.masked = false ↔ s.masked = false ∧ FindsFrame B s e := by
  cases e with
  | packetReceive maxlen =>
    obtain ⟨r, hr, rfl⟩ := Option.map_eq_some_iff.mp h
    rw [Sys.masked_packetReceive hr]
    refine and_congr_right fun _ => ⟨fun hcount u hu => ?_, fun hall => hall _ rfl⟩
    obtain rfl := Option.mem_some_iff.mp hu
    exact hcount
  | packetSend packet =>
    rw [Sys.masked_packetSend h]
    exact (and_iff_left fun u hu => absurd hu (Option.not_mem_none u)).symm
  | lowLevelInput =>
    obtain ⟨p, hp, rfl⟩ := Option.map_eq_some_iff.mp h
    exact masked_lowLevelInput hp
  | ethernetifInput =>
    obtain ⟨r, hr, rfl⟩ := Option.map_eq_some_iff.mp h
    exact masked_ethernetifInput hinput hr
  | isrHandler =>
    obtain ⟨r, hr, rfl⟩ := Option.map_eq_some_iff.mp h
    obtain ⟨q, hq, rfl⟩ := Option.map_eq_some_iff.mp hr
    rw [Sys.masked_otherFlags, FindsFrame, Entry.enters]
    split_ifs at hq ⊢
    · obtain ⟨err, herr, rfl⟩ := Option.map_eq_some_iff.mp hq
      exact masked_ethernetifInput hinput herr
    · obtain rfl := Option.some.inj hq
      exact (and_iff_left fun u hu => absurd hu (Option.not_mem_none u)).symm
  | between bus =>
    obtain rfl := Option.some.inj h
    exact (and_iff_left fun u hu => absurd hu (Option.not_mem_none u)).symm

/-! ## Runs of calls -/

/-- Calls in any order, from any state. -/
def entries (B : Bus σ) (polls : ℕ) (input : List (List UInt8) → Board σ b → ℤ × Board σ b)
    (s : Board σ b) : Machine (Board σ b) (Entry σ b) where
  init := s
  step := Entry.perform B polls input

/-- **Critical sections.** After a run of calls interrupts are masked as before exactly if they
were masked before, or no call of the run has looked in vain for a frame. -/
theorem balanced_iff (hinput : ∀ chain s, (input chain s).2.masked = s.masked)
    {es : List (Entry σ b)} (h : (entries B polls input s).run s es = some t) :
    t.masked = s.masked ↔
      s.masked = true ∨ (entries B polls input s).Exec (FindsFrame B) s es t := by
  have hstep (s' : Board σ b) (e : Entry σ b) (t' : Board σ b)
      (hs : (entries B polls input s).step s' e = some t') :
      t'.masked = false ↔ s'.masked = false ∧ FindsFrame B s' e := masked_perform hinput hs
  cases hmasked : s.masked with
  | false =>
    rw [Machine.iff_exec (I := fun _ => True) h hmasked trivial (fun _ _ _ _ _ => trivial)
      fun s' e t' _ => hstep s' e t']
    simp
  | true =>
    -- what is masked stays masked
    refine iff_of_true ?_ (.inl rfl)
    refine (Machine.exec_of_run h).invariant (P := fun u : Board σ b => u.masked = true) hmasked
      fun s' e t' hs' _ hs => ?_
    have hiff := hstep s' e t' hs
    rw [hs'] at hiff
    simpa using hiff

/-- Frames are counted and PKTIF is set, and the bytes of the frames are read in order. -/
def announcing : Bus (List UInt8) :=
  { Bus.delivering with
    read := fun addr bytes =>
      (if addr = Reg.epktcnt then 1 else if addr = Reg.eir then 0x40 else 0, bytes) }

/-- A controller for which two frames of three and of two bytes have arrived. -/
def twoFrames : Board (List UInt8) Net.sram :=
  ⟨([0, 0x10, 7, 0, 0x80, 0, 7, 8, 9, 0, 0x11, 6, 0, 0x80, 0, 5, 6], (started Net.sram).host), 0,
    fun _ => 0, false⟩

/-- The handler takes the first frame, a frame is sent, and the second one is read. -/
def threeCalls : List (Entry (List UInt8) Net.sram) :=
  [.isrHandler, .packetSend [1, 2], .packetReceive 1518]

theorem threeCalls_isSome : ((entries announcing 1 (fun _ s => (errOk, s)) twoFrames).run
    twoFrames threeCalls).isSome = true := by
  decide +kernel

theorem balanced_while_counted :
    let t := ((entries announcing 1 (fun _ s => (errOk, s)) twoFrames).run
      twoFrames threeCalls).get threeCalls_isSome
    (t.bus.1 = [] ∧ t.bus.2.received = [⟨3, [7, 8, 9, 0]⟩] ∧ t.masked = twoFrames.masked) ∧
    (t.masked = twoFrames.masked ↔ twoFrames.masked = true ∨
      (entries announcing 1 (fun _ s => (errOk, s)) twoFrames).Exec
        (FindsFrame announcing) twoFrames threeCalls t) :=
  ⟨by decide +kernel,
    balanced_iff (fun _ _ => rfl) (Option.some_get threeCalls_isSome).symm⟩

/-- The interrupt line is down and PKTIF is set, but no frame is counted: the handler returns with
interrupts masked. -/
theorem not_balanced_without_frame :
    ((entries (still fun addr => if addr = Reg.eir then 0x40 else 0) 1
      (fun _ s => (errOk, s)) (started Net.sram)).run (started Net.sram) [.isrHandler]).map
      (fun t => t.masked) = some true ∧ (started Net.sram).masked = false := by
  decide

end FanGateway.Net
