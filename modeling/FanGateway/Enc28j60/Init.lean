import FanGateway.Enc28j60.Fifo

/-!
# What initialisation leaves

After `ENC28J60_Init` the receive buffer is set up and empty, whatever the chip held
before. Most of what the function writes does not concern the receive buffer.
-/

namespace FanGateway.Enc28j60

open Lib

/-- The registers of the receive buffer. -/
def rxRegs : List ℕ :=
  setupRegs ++ [Reg.erxrdptl, Reg.erxrdpth, Reg.erxwrptl, Reg.erxwrptl + 1, Reg.epktcnt]

namespace Driver

/-- A step that does not concern the receive buffer if the selected bank is known. -/
structure SameRx (d d' : Driver) : Prop where
  known : BankKnown d → BankKnown d'
  estat : BankKnown d → d'.core.estat = d.core.estat
  regs : BankKnown d → ∀ a ∈ rxRegs, d'.core.regs a = d.core.regs a
  next : BankKnown d → d'.dev.nextPacketPtr = d.dev.nextPacketPtr

theorem SameRx.trans {d₁ d₂ d₃ : Driver} (h : SameRx d₁ d₂) (h' : SameRx d₂ d₃) :
    SameRx d₁ d₃ where
  known hknown := h'.known (h.known hknown)
  estat hknown := (h'.estat (h.known hknown)).trans (h.estat hknown)
  regs hknown a ha := (h'.regs (h.known hknown) a ha).trans (h.regs hknown a ha)
  next hknown := (h'.next (h.known hknown)).trans (h.next hknown)

theorem SameRx.refl (d : Driver) : SameRx d d := ⟨id, fun _ => rfl, fun _ _ _ => rfl, fun _ => rfl⟩

theorem SameRx.sameCore {d₁ d₂ d₃ : Driver} (h : SameRx d₁ d₂) (h' : SameCore d₂ d₃) :
    SameRx d₁ d₃ :=
  h.trans ⟨h'.known, fun _ => by rw [h'.core], fun _ _ _ => by rw [h'.core], fun _ => h'.next⟩

/-- A banked register that is none of the receive buffer. -/
def Foreign (addr : ℕ) : Prop := addr &&& 0x1F < 0x1B ∧ Reg.slot addr ∉ rxRegs

instance (addr : ℕ) : Decidable (Foreign addr) := inferInstanceAs (Decidable (_ ∧ _))

theorem SameRx.write {d d' : Driver} (h : SameRx d d') (addr : ℕ) (v : UInt8)
    (haddr : Foreign addr) : SameRx d (write addr v d') := by
  obtain ⟨hbanked, hslot⟩ := haddr
  refine h.trans ⟨fun hknown => hknown.write hbanked, fun hknown => ?_, fun hknown a ha => ?_,
    fun hknown => next_write hknown hbanked⟩
  · rw [core_write hknown hbanked]
  · rw [core_write hknown hbanked]
    exact Function.update_of_ne (ne_of_mem_of_not_mem ha hslot) _ _

/-! ## The PHY -/

section Phy

variable (addr : UInt8) (d : Driver)

theorem sameCore_phyWait (retry : ℕ) : SameCore d (phyWait retry d) := by
  -- induction on the polls that are left
  induction retry generalizing d with
  | zero => exact sameCore_read _ _
  | succ retry ih =>
    have hread := sameCore_read Reg.mistat d
    rw [phyWait]
    split_ifs
    · exact hread.trans (ih _)
    · exact hread

theorem sameRx_phyWrite (data : ℕ) : SameRx d (phyWrite addr data d) := by
  have hreg := (SameRx.refl d).write Reg.miregadr addr (by decide)
  have hlow := hreg.write Reg.miwrl (UInt8.ofNat data) (by decide)
  have hhigh := hlow.write Reg.miwrh (UInt8.ofNat (data >>> 8)) (by decide)
  exact hhigh.sameCore (sameCore_phyWait _ 0xFFFF)

theorem sameRx_phyRead : SameRx d (phyRead addr d).2 := by
  have htemp := (SameRx.refl d).sameCore (sameCore_read Reg.micmd d)
  have hreg := htemp.write Reg.miregadr addr (by decide)
  have hstart := hreg.write Reg.micmd ((read Reg.micmd d).1 ||| 0x01) (by decide)
  have hwait := hstart.sameCore (sameCore_phyWait _ 0xFFFF)
  have hdone := hwait.write Reg.micmd ((read Reg.micmd d).1 &&& ~~~0x01) (by decide)
  exact (hdone.sameCore (sameCore_read Reg.mirdl _)).sameCore (sameCore_read Reg.mirdh _)

end Phy

variable {d : Driver}

/-! ## The set-up -/

/-- The writes of the set-up, one after the other. -/
theorem foldl_write (h : BankKnown d) (ws : List (ℕ × UInt8))
    (hws : ∀ w ∈ ws, w.1 &&& 0x1F < 0x1B) :
    let d' := ws.foldl (fun d w => write w.1 w.2 d) d
    BankKnown d' ∧ d'.dev.nextPacketPtr = d.dev.nextPacketPtr ∧
      d'.core = { d.core with
        regs := ws.foldl (fun r w => Function.update r (Reg.slot w.1) w.2) d.core.regs } := by
  -- induction on the writes; the bank stays known from one to the next
  induction ws generalizing d with
  | nil => exact ⟨h, rfl, rfl⟩
  | cons w ws ih =>
    have hw := hws w List.mem_cons_self
    obtain ⟨hknown, hnext, hcore⟩ :=
      ih (h.write hw) fun w' hw' => hws w' (List.mem_cons_of_mem _ hw')
    refine ⟨hknown, hnext.trans (next_write h hw), hcore.trans ?_⟩
    rw [core_write h hw]
    rfl

/-- The last write to a register is the one that counts. -/
theorem foldl_update_apply (ws : List (ℕ × UInt8)) (regs : ℕ → UInt8) (a : ℕ) :
    ws.foldl (fun r w => Function.update r (Reg.slot w.1) w.2) regs a =
      (ws.reverse.find? fun w => Reg.slot w.1 = a).elim (regs a) Prod.snd := by
  induction ws using List.reverseRecOn with
  | nil => rfl
  | append_singleton ws w ih =>
    rw [List.foldl_append, List.reverse_append, List.foldl_cons, List.foldl_nil]
    by_cases ha : Reg.slot w.1 = a
    · subst ha
      simp
    · rw [Function.update_of_ne (Ne.symm ha), ih]
      simp [ha]

/-- What the set-up leaves in the registers of the receive buffer. -/
theorem setup_regs (macaddr : Fin 6 → UInt8) (regs : ℕ → UInt8) :
    rxRegs.map ((setup macaddr).foldl (fun r w => Function.update r (Reg.slot w.1) w.2) regs) =
      [0, 0, UInt8.ofNat rxstopInit, UInt8.ofNat (rxstopInit / 256), UInt8.ofNat maxFramelen,
        UInt8.ofNat (maxFramelen / 256), 0x80 ||| 0x20 ||| 0x10, 0, 0, regs Reg.erxwrptl,
        regs (Reg.erxwrptl + 1), regs Reg.epktcnt] := by
  rw [List.map_congr_left fun a _ => foldl_update_apply (setup macaddr) regs a]
  simp +decide [rxRegs, setupRegs, setup]

theorem setup_banked (macaddr : Fin 6 → UInt8) :
    ∀ w ∈ setup macaddr, w.1 &&& 0x1F < 0x1B := by
  simp +decide [setup]

/-- Enabling reception does not select another bank. -/
theorem sameCore_rxen (d : Driver) :
    SameCore d (writeOp .bitFieldSet Reg.econ1 0x04 d) where
  core := rfl
  next := rfl
  known h := by
    have hbits : (d.chip.econ1 ||| 0x04) &&& 0x03 = d.chip.econ1 &&& 0x03 := by
      apply UInt8.toNat_inj.mp
      rw [UInt8.toNat_and, UInt8.toNat_or, Nat.and_or_distrib_right, UInt8.toNat_and]
      exact Nat.or_zero _
    exact h.trans (congrArg (fun e : UInt8 => 32 * e.toNat) hbits.symm)

/-- A chip that has stored nothing is configured for an empty receive buffer. -/
theorem configure_spec (macaddr : Fin 6 → UInt8) (h : BankKnown d) (hidle : d.core.estat = 0)
    (hlow : d.core.regs Reg.erxwrptl = 0) (hhigh : d.core.regs (Reg.erxwrptl + 1) = 0)
    (hcount : d.core.regs Reg.epktcnt = 0) :
    BankKnown (configure macaddr d) ∧ Fifo (configure macaddr d).core 0 [] ∧
      (configure macaddr d).core.ptr Reg.erxrdptl = 0 ∧
      (configure macaddr d).dev.nextPacketPtr = 0 := by
  let d₀ : Driver := { (read Reg.erevid d).2 with
    dev := { (read Reg.erevid d).2.dev with nextPacketPtr := 0 } }
  have hknown₀ : BankKnown d₀ := (sameCore_read Reg.erevid d).known h
  have hcore₀ : d₀.core = d.core := (sameCore_read Reg.erevid d).core
  -- the write pointer and EPKTCNT are not written: they are 0 from the reset on
  obtain ⟨hknown, hnext, hcore⟩ := foldl_write hknown₀ (setup macaddr) (setup_banked macaddr)
  -- the PHY, the enable bits and the duplex mode do not concern the receive buffer
  have hrest : SameRx ((setup macaddr).foldl (fun d w => write w.1 w.2 d) d₀)
      (configure macaddr d) :=
    ((((((sameRx_phyWrite 0x00 _ 0x0100).trans (sameRx_phyWrite 0x10 _ 0x0100)).sameCore
      (sameCore_setBank Reg.econ1 _)).sameCore (sameCore_setEie _ _)).sameCore
        (sameCore_rxen _))).trans (sameRx_phyRead 0x00 _)
  have hregs : rxRegs.map (configure macaddr d).core.regs = _ :=
    (List.map_congr_left (hrest.regs hknown)).trans
      ((congrArg (fun c : Chip => rxRegs.map c.regs) hcore).trans (setup_regs macaddr _))
  rw [hcore₀, hlow, hhigh, hcount] at hregs
  simp only [rxRegs, setupRegs, List.cons_append, List.nil_append, List.map_cons, List.map_nil,
    List.cons_eq_cons, and_true] at hregs
  obtain ⟨hstl, hsth, hndl, hndh, hfll, hflh, hfcon, hrdl, hrdh, hwrl, hwrh, hcnt⟩ := hregs
  refine ⟨hrest.known hknown, ?_, ?_, (hrest.next hknown).trans hnext⟩
  swap
  · rw [Chip.ptr, hrdl, hrdh]
    rfl
  have hwrite : (configure macaddr d).core.ptr Reg.erxwrptl = 0 := by
    rw [Chip.ptr, hwrl, hwrh]
    rfl
  refine ⟨⟨?_, ?_, ?_, ?_⟩, ?_, ?_, by simp, ?_⟩
  · rw [Chip.ptr, hstl, hsth]
    rfl
  · rw [Chip.ptr, hndl, hndh]
    rfl
  · have hslot : Reg.slot Reg.mamxfll + 1 = Reg.slot Reg.mamxflh := rfl
    rw [Chip.ptr, hslot, hfll, hflh]
    rfl
  · rw [hfcon]
    decide
  · rw [hrest.estat hknown, hcore]
    exact (congrArg Chip.estat hcore₀).trans hidle
  · rw [hwrite]
    exact Ring.Queue.empty (Nat.succ_pos _)
  · rw [hcnt]
    rfl

/-! ## The whole initialisation -/

theorem waitClock_ready (retry : ℕ) (h : (read Reg.estat d).1 &&& 0x01 ≠ 0) :
    waitClock (retry + 1) d = (true, (read Reg.estat d).2) := by
  simp only [waitClock, if_neg h]

/-- `ENC28J60_Init` succeeds and leaves an empty receive buffer. -/
theorem init_spec (temp : ℕ) (c : Chip) (macaddr : Fin 6 → UInt8) (next : ℕ) :
    let r := init temp ⟨c, ⟨0, next, macaddr⟩⟩
    r.1 = 0 ∧ BankKnown r.2 ∧ Fifo r.2.core 0 [] ∧ r.2.core.ptr Reg.erxrdptl = 0 ∧
      r.2.dev.nextPacketPtr = 0 := by
  let mac : Fin 6 → UInt8 :=
    ![2, 0, 0, UInt8.ofNat (temp >>> 16 &&& 0xFF), UInt8.ofNat (temp >>> 8 &&& 0xFFF),
      UInt8.ofNat (temp &&& 0xFF)]
  let d : Driver := ⟨c.reset, ⟨0, next, mac⟩⟩
  -- the first poll finds the oscillator ready
  have hclock : waitClock 250 d = (true, (read Reg.estat d).2) := by
    apply waitClock_ready
    rw [read_estat]
    change (0x01 : UInt8) &&& 0x01 ≠ 0
    decide
  have hinit : init temp ⟨c, ⟨0, next, macaddr⟩⟩ = (0, configure mac (read Reg.estat d).2) := by
    change (if (waitClock 250 d).1 = true then (0, configure mac (waitClock 250 d).2)
      else (1, (waitClock 250 d).2)) = _
    rw [hclock]
    rfl
  have hread := sameCore_read Reg.estat d
  have hknown : BankKnown d := by
    change 0 = 32 * ((0 : UInt8) &&& 0x03).toNat
    decide
  have hidle : d.core.estat = 0 := by
    change (0x01 : UInt8) &&& 0x04 = 0
    decide
  simp only [hinit]
  refine ⟨trivial, configure_spec mac (hread.known hknown) ?_ ?_ ?_ ?_⟩
  · rw [hread.core, hidle]
  · rw [hread.core]
    rfl
  · rw [hread.core]
    rfl
  · rw [hread.core]
    rfl

end Driver

end FanGateway.Enc28j60
