import FanGateway.Enc28j60.Driver

/-!
# Register accesses

A register access may first select another bank. As long as the driver remembers the
bank that is selected, the access then meets the register its address names.

The bank, the interrupt enable bits and the interrupt flags do not matter to the receive
buffer; the core of a driver is its chip without them. Every access is described by what
it does to the core.
-/

namespace FanGateway.Enc28j60

/-- The position a banked address names is one of a banked register. -/
theorem Chip.get_banked (c : Chip) {a : ℕ} (h : a < 0x1B) : c.get a = c.regs (32 * c.bank + a) := by
  have hne {k : ℕ} (hk : 0x1B ≤ k) : a ≠ k := (h.trans_le hk).ne
  rw [get, if_neg (hne (by decide)), if_neg (hne (by decide)), if_neg (hne (by decide)),
    if_neg (hne (by decide)), if_neg (hne (by decide))]

theorem Chip.set_banked (c : Chip) {a : ℕ} (h : a < 0x1B) (v : UInt8) :
    c.set a v = { c with regs := Function.update c.regs (32 * c.bank + a) v } := by
  have hne {k : ℕ} (hk : 0x1B ≤ k) : a ≠ k := (h.trans_le hk).ne
  rw [set, if_neg (hne (by decide)), if_neg (hne (by decide)), if_neg (hne (by decide)),
    if_neg (hne (by decide)), if_neg (hne (by decide))]

namespace Driver

/-- The driver remembers the bank that is selected. -/
def BankKnown (d : Driver) : Prop := d.dev.enc28j60bank = 32 * d.chip.bank

/-- The chip without the bank, the interrupt enable bits and the interrupt flags; of ESTAT only
RXBUSY is kept. -/
def core (d : Driver) : Chip :=
  { d.chip with eie := 0, eir := 0, estat := d.chip.estat &&& 0x04, econ2 := 0, econ1 := 0 }

/-- A step after which the core, `NextPacketPtr` and the knowledge of the bank are as before. -/
structure SameCore (d d' : Driver) : Prop where
  core : d'.core = d.core
  next : d'.dev.nextPacketPtr = d.dev.nextPacketPtr
  known : BankKnown d → BankKnown d'

theorem SameCore.refl (d : Driver) : SameCore d d := ⟨rfl, rfl, id⟩

theorem SameCore.trans {d₁ d₂ d₃ : Driver} (h : SameCore d₁ d₂) (h' : SameCore d₂ d₃) :
    SameCore d₁ d₃ :=
  ⟨h'.core.trans h.core, h'.next.trans h.next, h'.known ∘ h.known⟩

variable {d : Driver} {addr : ℕ} {v : UInt8}

/-! ## Banks -/

/-- The bank bits after they were cleared and set. -/
theorem bankBits (e : UInt8) {k : ℕ} (hk : k < 4) :
    (((e &&& ~~~0x03) ||| UInt8.ofNat k) &&& 0x03).toNat = k := by
  -- nothing is left of the old bank, and the new one fits into the two bits
  have hclear : (e &&& ~~~0x03).toNat &&& 3 = 0 := by
    have hbits : e &&& ~~~0x03 &&& 0x03 = 0 := by
      rw [UInt8.and_assoc, show (~~~0x03 &&& 0x03 : UInt8) = 0 from rfl, UInt8.and_zero]
    exact congrArg UInt8.toNat hbits
  have hk' : (UInt8.ofNat k).toNat = k := UInt8.toNat_ofNat_of_lt' (hk.trans (by decide))
  rw [UInt8.toNat_and, UInt8.toNat_or, Nat.and_or_distrib_right, hk']
  rw [show (0x03 : UInt8).toNat = 3 from rfl, hclear, Nat.zero_or]
  exact Nat.and_two_pow_sub_one_of_lt_two_pow (n := 2) hk

theorem bank_lt (addr : ℕ) : (addr &&& 0x60) >>> 5 < 4 := by
  have hle : addr &&& 0x60 ≤ 0x60 := Nat.and_le_right
  rw [Nat.shiftRight_eq_div_pow]
  exact Nat.div_lt_of_lt_mul (hle.trans_lt (by decide))

theorem bank_mul (addr : ℕ) : 32 * ((addr &&& 0x60) >>> 5) = addr &&& 0x60 := by
  have hmod : (addr &&& 0x60) % 2 ^ 5 = 0 := by
    rw [Nat.and_mod_two_pow]
    exact Nat.and_zero _
  rw [Nat.shiftRight_eq_div_pow]
  exact Nat.mul_div_cancel' (Nat.dvd_of_mod_eq_zero hmod)

/-- Selecting a bank changes the bank bits and the remembered bank only. -/
theorem setBank_eq : setBank addr d =
    ⟨{ d.chip with econ1 := (setBank addr d).chip.econ1 },
      { d.dev with enc28j60bank := addr &&& 0x60 }⟩ := by
  unfold setBank
  split_ifs with h
  · rfl
  · rw [not_not.1 h]

theorem bank_setBank (h : BankKnown d) : 32 * (setBank addr d).chip.bank = addr &&& 0x60 := by
  unfold setBank
  split_ifs with hsame
  · have hbits := bankBits d.chip.econ1 (bank_lt addr)
    exact (congrArg (32 * ·) hbits).trans (bank_mul addr)
  · exact h.symm.trans (not_not.1 hsame).symm

theorem sameCore_setBank (addr : ℕ) (d : Driver) : SameCore d (setBank addr d) where
  core := by rw [setBank_eq]; rfl
  next := by rw [setBank_eq]
  known h := by rw [BankKnown, bank_setBank h, setBank_eq]

/-! ## Reading and writing registers -/

theorem sameCore_read (addr : ℕ) (d : Driver) : SameCore d (read addr d).2 :=
  sameCore_setBank addr d

/-- A banked register is read where its address says. -/
theorem read_banked (h : BankKnown d) (haddr : addr &&& 0x1F < 0x1B) :
    (read addr d).1 = d.core.regs (Reg.slot addr) := by
  refine ((setBank addr d).chip.get_banked haddr).trans ?_
  rw [bank_setBank h, setBank_eq]
  rfl

theorem read_estat : (read Reg.estat d).1 = d.chip.estat := by
  have hget : (read Reg.estat d).1 = (setBank Reg.estat d).chip.estat := rfl
  rw [hget, setBank_eq]

theorem write_eq (h : BankKnown d) (haddr : addr &&& 0x1F < 0x1B) : write addr v d =
    { setBank addr d with
      chip := { (setBank addr d).chip with
        regs := Function.update (setBank addr d).chip.regs (Reg.slot addr) v } } := by
  -- the selected bank is the one the address names
  have hset := (setBank addr d).chip.set_banked haddr v
  rw [bank_setBank h] at hset
  exact congrArg (fun c => { setBank addr d with chip := c }) hset

theorem BankKnown.write (h : BankKnown d) (haddr : addr &&& 0x1F < 0x1B) :
    BankKnown (write addr v d) := by
  rw [write_eq h haddr]
  exact (sameCore_setBank addr d).known h

/-- A banked register is written where its address says. -/
theorem core_write (h : BankKnown d) (haddr : addr &&& 0x1F < 0x1B) : (write addr v d).core =
    { d.core with regs := Function.update d.core.regs (Reg.slot addr) v } := by
  rw [write_eq h haddr, ← (sameCore_setBank addr d).core]
  rfl

theorem next_write (h : BankKnown d) (haddr : addr &&& 0x1F < 0x1B) :
    (write addr v d).dev.nextPacketPtr = d.dev.nextPacketPtr := by
  rw [write_eq h haddr]
  exact (sameCore_setBank addr d).next

theorem slot_of_lt {l : ℕ} (hl : l < 0x20) : Reg.slot l = l := by
  have hlow : l &&& 0x1F = l := Nat.and_two_pow_sub_one_of_lt_two_pow (n := 5) hl
  have hle : l &&& 0x60 ≤ l := Nat.and_le_left
  have hbank := bank_mul l
  rw [Reg.slot, hlow]
  omega

/-- A pointer of bank 0 is set to `NextPacketPtr`. -/
theorem writeNext_spec (h : BankKnown d) {l : ℕ} (hl : l + 1 < 0x1B) :
    BankKnown (writeNext l d) ∧ (writeNext l d).core = d.core.setPtr l d.dev.nextPacketPtr ∧
      (writeNext l d).dev.nextPacketPtr = d.dev.nextPacketPtr := by
  have hlow : l &&& 0x1F < 0x1B := Nat.and_le_left.trans_lt (Nat.lt_of_succ_lt hl)
  have hhigh : (l + 1) &&& 0x1F < 0x1B := Nat.and_le_left.trans_lt hl
  have hknown : BankKnown (write l (UInt8.ofNat d.dev.nextPacketPtr) d) := h.write hlow
  refine ⟨hknown.write hhigh, ?_, (next_write hknown hhigh).trans (next_write h hlow)⟩
  rw [writeNext, core_write hknown hhigh, core_write h hlow, slot_of_lt (by omega),
    slot_of_lt (by omega), Nat.shiftRight_eq_div_pow]
  rfl

/-! ## Enable bits, flags and the packet counter -/

theorem sameCore_clearEie (v : UInt8) (d : Driver) :
    SameCore d (writeOp .bitFieldClr Reg.eie v d) := ⟨rfl, rfl, id⟩

theorem sameCore_setEie (v : UInt8) (d : Driver) :
    SameCore d (writeOp .bitFieldSet Reg.eie v d) := ⟨rfl, rfl, id⟩

theorem sameCore_clearEir (v : UInt8) (d : Driver) :
    SameCore d (writeOp .bitFieldClr Reg.eir v d) := ⟨rfl, rfl, id⟩

theorem sameCore_txError (d : Driver) : SameCore d (txError d) where
  core := by
    have hbusy (e : UInt8) : e &&& ~~~(0x10 ||| 0x02) &&& 0x04 = e &&& 0x04 := by
      rw [UInt8.and_assoc]
      rfl
    exact congrArg (fun e => { d.core with estat := e }) (hbusy d.chip.estat)
  next := rfl
  known := id

theorem core_pktdec : (writeOp .bitFieldSet Reg.econ2 0x40 d).core = d.core.counted := rfl

theorem next_pktdec : (writeOp .bitFieldSet Reg.econ2 0x40 d).dev.nextPacketPtr =
    d.dev.nextPacketPtr := rfl

theorem BankKnown.pktdec (h : BankKnown d) :
    BankKnown (writeOp .bitFieldSet Reg.econ2 0x40 d) := h

/-! ## The interrupt flags -/

/-- A flag that was set is up. -/
theorem flag_set (e : UInt8) {b : UInt8} (hb : b ≠ 0) : (e ||| b) &&& b ≠ 0 := by
  intro hzero
  have hnat := congrArg UInt8.toNat hzero
  rw [UInt8.toNat_and, UInt8.toNat_or, Nat.and_or_distrib_right, Nat.and_self] at hnat
  exact hb (UInt8.toNat_inj.mp (Nat.or_eq_zero_iff.1 hnat).2)

theorem read_eir : (read Reg.eir d).1 =
    if d.core.regs Reg.epktcnt = 0 then d.chip.eir &&& ~~~0x40 else d.chip.eir ||| 0x40 := by
  have hget : (read Reg.eir d).1 = (setBank Reg.eir d).chip.get Reg.eir := rfl
  rw [hget, setBank_eq]
  rfl

/-- PKTIF is up while a frame is counted. -/
theorem pktif_iff : (read Reg.eir d).1 &&& 0x40 ≠ 0 ↔ d.core.regs Reg.epktcnt ≠ 0 := by
  rw [read_eir]
  split_ifs with hcount
  · simp only [hcount, ne_eq, not_true_eq_false, iff_false, not_not]
    rw [UInt8.and_assoc]
    exact UInt8.and_zero
  · exact iff_of_true (flag_set _ (by decide)) hcount

/-- RXERIF does not depend on the packet counter. -/
theorem rxerif_eq : (read Reg.eir d).1 &&& 0x01 = d.chip.eir &&& 0x01 := by
  -- PKTIF is another bit
  rw [read_eir]
  split_ifs with hcount
  · rw [UInt8.and_assoc]
    rfl
  · apply UInt8.toNat_inj.mp
    rw [UInt8.toNat_and, UInt8.toNat_or, Nat.and_or_distrib_right, UInt8.toNat_and]
    exact Nat.or_zero _

end Driver

end FanGateway.Enc28j60
