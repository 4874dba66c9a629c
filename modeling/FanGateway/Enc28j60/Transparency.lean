import FanGateway.Enc28j60.Flat

/-!
# Runs of calls on the chip and on the flat file

From power-up the functions of the driver are called one after the other, in any order
and with any arguments. The answers and the state of the register file are those of
direct access, and after every access through `ENC28J60_Read` or `ENC28J60_Write` the
remembered bank is the selected one.
-/

namespace FanGateway.Enc28j60

variable {σ τ : Type*}

/-! ## Calls -/

/-- The functions of the driver with their arguments. -/
inductive Call
  | init (temp : ℕ)
  | read (addr : ℕ)
  | write (addr : ℕ) (data : UInt8)
  | phyRead (addr : UInt8)
  | phyWrite (addr : UInt8) (data : ℕ)
  | packetSend (packet : List UInt8)
  | packetReceive (maxlen : ℕ)
  /-- An interrupt, with room for a packet or without. -/
  | isrHandler (mymalloc : Bool)

/-- What they return. -/
inductive Answer
  | done
  | value (n : ℕ)
  | packet (p : Received)
  | input (p : Option (Option Received))
  deriving DecidableEq

namespace Call

/-- A register is given by its name, the bank is not switched by hand, and a frame has at most
the length the chip is set up for. -/
def Legal : Call → Prop
  | .read addr => Symbolic addr
  | .write addr data => KeepsBank addr data
  | .packetSend packet => packet.length ≤ maxFramelen
  | _ => True

instance : DecidablePred Legal := fun call => by
  cases call <;> unfold Legal <;> infer_instance

/-- One call; none if a wait has not ended within the polls. -/
def perform (B : Bus σ) (polls : ℕ) (call : Call) (s : Sys σ) : Option (Answer × Sys σ) :=
  match call with
  | .init temp => let r := Sys.init B temp s; some (.value r.1, r.2)
  | .read addr => let r := Sys.read B addr s; some (.value r.1.toNat, r.2)
  | .write addr data => some (.done, Sys.write B addr data s)
  | .phyRead addr => let r := Sys.phyRead B addr s; some (.value r.1, r.2)
  | .phyWrite addr data => some (.done, Sys.phyWrite B addr data s)
  | .packetSend packet => (Sys.packetSend B polls packet s).map fun s => (.done, s)
  | .packetReceive maxlen =>
    (Sys.packetReceive B polls maxlen s).map fun r => (.packet r.1, r.2)
  | .isrHandler mymalloc =>
    (Sys.isrHandler B (Sys.pktHandle B mymalloc polls) s).map fun r => (.input r.1, r.2)

/-- The calls one after the other, with their answers. -/
def performAll (B : Bus σ) (polls : ℕ) : List Call → Sys σ → Option (List Answer × Sys σ)
  | [], s => some ([], s)
  | call :: calls, s =>
    (call.perform B polls s).bind fun r =>
      (performAll B polls calls r.2).map fun q => (r.1 :: q.1, q.2)

end Call

/-- The variables of the driver at power-up. -/
def powerUp (bus : σ) : Sys σ := ⟨bus, 0, fun _ => 0, false⟩

/-! ## Calls on buses in step -/

namespace Bus.Sim

open Sys

variable {I : Bus σ} {J : Bus τ} {R Fresh : σ → τ → Prop} {s : Sys σ} {t : Sys τ}

/-- Every call answers alike and keeps the buses in step. -/
theorem perform (h : Bus.Sim I J R Fresh) (hs : InStep R s t) (polls : ℕ) {call : Call}
    (hlegal : call.Legal) :
    Option.Rel (Alike (InStep R)) (call.perform I polls s) (call.perform J polls t) := by
  cases call with
  | init temp =>
    obtain ⟨hanswer, hnext⟩ := h.sysInit hs temp
    exact .some ⟨congrArg Answer.value hanswer, hnext⟩
  | read addr =>
    obtain ⟨hanswer, hnext⟩ := h.sysRead hs addr hlegal
    exact .some ⟨congrArg (fun v => Answer.value (UInt8.toNat v)) hanswer, hnext⟩
  | write addr data => exact .some ⟨rfl, h.sysWrite hs addr hlegal⟩
  | phyRead addr =>
    obtain ⟨hanswer, hnext⟩ := h.sysPhyRead hs addr
    exact .some ⟨congrArg Answer.value hanswer, hnext⟩
  | phyWrite addr data => exact .some ⟨rfl, h.sysPhyWrite hs addr data⟩
  | packetSend packet =>
    exact rel_map (h.sysPacketSend hs polls packet hlegal) fun _ _ hnext => ⟨rfl, hnext⟩
  | packetReceive maxlen =>
    refine rel_map (h.sysPacketReceive hs polls maxlen) fun _ _ hxy => ?_
    exact ⟨congrArg Answer.packet hxy.1, hxy.2⟩
  | isrHandler mymalloc =>
    have hhandler := h.sysIsrHandler hs fun s t hs => h.sysPktHandle hs mymalloc polls
    refine rel_map hhandler fun _ _ hxy => ?_
    exact ⟨congrArg Answer.input hxy.1, hxy.2⟩

/-- So does every run of calls. -/
theorem performAll (h : Bus.Sim I J R Fresh) (hs : InStep R s t) (polls : ℕ) {calls : List Call}
    (hlegal : ∀ call ∈ calls, call.Legal) :
    Option.Rel (Alike (InStep R)) (Call.performAll I polls calls s)
      (Call.performAll J polls calls t) := by
  -- induction on the calls, from any two states in step
  induction calls generalizing s t with
  | nil => exact .some ⟨rfl, hs⟩
  | cons call calls ih =>
    rw [List.forall_mem_cons] at hlegal
    have hcall := h.perform hs polls hlegal.1
    simp only [Call.performAll]
    generalize call.perform I polls s = x, call.perform J polls t = y at hcall
    cases hcall with
    | none => exact .none
    | some hxy =>
      refine rel_map (ih hxy.2 hlegal.2) fun _ _ hrest => ?_
      exact ⟨congrArg₂ List.cons hxy.1 hrest.1, hrest.2⟩

end Bus.Sim

/-! ## Watching the bus -/

/-- The accesses, with what is seen after each through `ENC28J60_Read` or `ENC28J60_Write`. -/
def Bus.watch {β : Type*} (B : Bus σ) (look : σ → β) : Bus (σ × List β) where
  readOp op addr s := let r := B.readOp op addr s.1; (r.1, r.2, s.2)
  writeOp op addr data s := (B.writeOp op addr data s.1, s.2)
  setBank bank s := (B.setBank bank s.1, s.2)
  read addr s := let r := B.read addr s.1; (r.1, r.2, s.2 ++ [look r.2])
  write addr data s := let t := B.write addr data s.1; (t, s.2 ++ [look t])
  reset s := (B.reset s.1, s.2)

/-- What holds of buses in step is seen after every access. -/
theorem Bus.Sim.watch {β : Type*} {I : Bus σ} {J : Bus τ} {R Fresh : σ → τ → Prop}
    (h : Bus.Sim I J R Fresh) (look : σ → β) (Good : β → Prop)
    (hgood : ∀ s t, R s t → Good (look s)) :
    Bus.Sim (I.watch look) J (fun s t => R s.1 t ∧ ∀ x ∈ s.2, Good x)
      (fun s t => Fresh s.1 t ∧ ∀ x ∈ s.2, Good x) := by
  have hseen {seen : List β} {s : σ} {t : τ} (hs : R s t) (hall : ∀ x ∈ seen, Good x) :
      R s t ∧ ∀ x ∈ seen ++ [look s], Good x := by
    refine ⟨hs, fun x hx => ?_⟩
    rcases List.mem_append.mp hx with hold | hnew
    · exact hall x hold
    · rw [List.mem_singleton.mp hnew]
      exact hgood s t hs
  exact {
    reset := fun s t hs => ⟨h.reset _ _ hs.1, hs.2⟩
    softReset := fun s t hs => ⟨h.softReset _ _ hs.1, hs.2⟩
    first := fun s t hs => ⟨(h.first _ _ hs.1).1, hseen (h.first _ _ hs.1).2 hs.2⟩
    read := fun addr s t haddr hs =>
      ⟨(h.read addr _ _ haddr hs.1).1, hseen (h.read addr _ _ haddr hs.1).2 hs.2⟩
    write := fun addr v s t hkeeps hs => hseen (h.write addr v _ _ hkeeps hs.1) hs.2
    setBank := fun addr s t hs => ⟨h.setBank addr _ _ hs.1, hs.2⟩
    readBuf := fun s t hs => ⟨(h.readBuf _ _ hs.1).1, (h.readBuf _ _ hs.1).2, hs.2⟩
    writeBuf := fun v s t hs => ⟨h.writeBuf v _ _ hs.1, hs.2⟩
    setBits := fun addr v s t hbits hs => ⟨h.setBits addr v _ _ hbits hs.1, hs.2⟩
    clearBits := fun addr v s t hbits hs => ⟨h.clearBits addr v _ _ hbits hs.1, hs.2⟩ }

/-! ## The remembered bank is transparent -/

/-- The variables of the driver with something else behind the bus. -/
def Sys.mapBus (g : σ → τ) (s : Sys σ) : Sys τ := ⟨g s.bus, s.nextPacketPtr, s.macaddr, s.masked⟩

theorem Sys.InStep.mapBus_eq {R : σ → τ → Prop} {g : σ → τ} {s : Sys σ} {t : Sys τ}
    (hR : ∀ s t, R s t → g s = t) (h : InStep R s t) : s.mapBus g = t := by
  obtain ⟨hbus, hnext, hmac, hmasked⟩ := h
  rw [Sys.mapBus, hR _ _ hbus, hnext, hmac, hmasked]

section Transparent

variable {φ : Type*}

/-- A register file behind the chip's four banks, as it is powered up: bank 0 is selected and
remembered. -/
def Cached.start (f : φ) : Cached (Banked φ) := ⟨⟨f, 0⟩, 0⟩

/-- The remembered bank and the selected one. -/
def Cached.banks (c : Cached (Banked φ)) : ℕ × ℕ := (c.enc28j60bank, 32 * c.chip.bank)

/-- **Transparency.** Whatever the registers do, every run of calls gives the answers of direct
access and leaves the registers as direct access does, and after every access the remembered
bank is the selected one. -/
theorem bank_transparent (F : File φ) (f : φ) (polls : ℕ) (calls : List Call)
    (hlegal : ∀ call ∈ calls, call.Legal) :
    (Call.performAll (Cached.bus (Banked.wire F)) polls calls (powerUp (Cached.start f))).map
        (fun r => (r.1, r.2.mapBus fun c => c.chip.file)) =
      Call.performAll F.bus polls calls (powerUp f) ∧
    ∀ r, Call.performAll ((Cached.bus (Banked.wire F)).watch Cached.banks) polls calls
        (powerUp (Cached.start f, [])) = some r →
      ∀ banks ∈ r.2.bus.2, banks.1 = banks.2 := by
  have hstart : AsFlat (Cached.start f) f := by
    have hbank : (0 : ℕ) = 32 * ((0 : UInt8) &&& 0x03).toNat := by decide
    exact ⟨rfl, hbank⟩
  constructor
  · have hrun := (sim_flat F).performAll (s := powerUp (Cached.start f)) (t := powerUp f)
      ⟨hstart, rfl, rfl, rfl⟩ polls hlegal
    generalize Call.performAll _ polls calls (powerUp (Cached.start f)) = x,
      Call.performAll _ polls calls (powerUp f) = y at hrun
    cases hrun with
    | none => rfl
    | some hxy =>
      exact congrArg some (Prod.ext hxy.1 (hxy.2.mapBus_eq fun c f h => h.1))
  · intro r hr
    have hwatch := (sim_flat F).watch Cached.banks (fun banks => banks.1 = banks.2)
      fun c f h => h.2
    have hrun := hwatch.performAll (s := powerUp (Cached.start f, [])) (t := powerUp f)
      ⟨⟨hstart, List.forall_mem_nil _⟩, rfl, rfl, rfl⟩ polls hlegal
    rw [hr] at hrun
    generalize Call.performAll _ polls calls (powerUp f) = y at hrun
    cases hrun with
    | some hxy => exact hxy.2.bus.2

/-! Reads and writes in different banks, an interrupt and a second initialisation. -/

/-- A register file that does nothing but store. -/
def File.store (pad : UInt8) : File (RegName → UInt8) where
  ctrl op r v f :=
    match op with
    | .readCtrlReg => (f r, f)
    | .writeCtrlReg => (0, Function.update f r v)
    | .bitFieldSet => (0, Function.update f r (f r ||| v))
    | .bitFieldClr => (0, Function.update f r (f r &&& ~~~v))
    | _ => (0, f)
  buf _ _ f := (0, f)
  reset _ _ := 0
  pad := pad

theorem bank_transparent_after_reinit :
    let calls := [Call.init 0, .read Reg.epktcnt, .packetSend [1, 2, 3], .init 1, .isrHandler true]
    (Call.performAll (Cached.bus (Banked.wire (File.store 0xFF))) 1 calls
        (powerUp (Cached.start fun _ => 0))).map
        (fun r => (r.1, r.2.mapBus fun c => c.chip.file)) =
      Call.performAll (File.store 0xFF).bus 1 calls (powerUp fun _ => 0) ∧
    ∀ r, Call.performAll ((Cached.bus (Banked.wire (File.store 0xFF))).watch Cached.banks) 1 calls
        (powerUp (Cached.start fun _ => 0, [])) = some r →
      ∀ banks ∈ r.2.bus.2, banks.1 = banks.2 :=
  bank_transparent (File.store 0xFF) (fun _ => 0) 1 _ (by decide)

/-- Bank bits written to ECON1 by hand select a bank the driver does not know of: it reads a
register of bank 1 under the name of one of bank 0. -/
theorem not_transparent_after_bank_bits :
    let f := fun r => if r = RegName.banked 1 0x00 then (7 : UInt8) else 0
    let calls := [Call.write Reg.econ1 0x01, .read Reg.erdptl]
    (Call.performAll (File.store 0xFF).bus 1 calls (powerUp f)).map Prod.fst =
        some [.done, .value 0] ∧
      (Call.performAll (Cached.bus (Banked.wire (File.store 0xFF))) 1 calls
        (powerUp (Cached.start f))).map Prod.fst = some [.done, .value 7] ∧
      (Call.performAll ((Cached.bus (Banked.wire (File.store 0xFF))).watch Cached.banks) 1 calls
        (powerUp (Cached.start f, []))).map (fun r => r.2.bus.2) = some [(0, 32), (0, 32)] := by
  decide

end Transparent

end FanGateway.Enc28j60
