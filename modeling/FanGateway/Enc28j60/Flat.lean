import FanGateway.Enc28j60.Simulation

/-!
# The remembered bank is transparent

The chip has four banks of registers and five registers that are the same in every bank.
An address on the wire has five bits; the bank is selected in ECON1, and the driver
selects it only if it is not the one it remembers. A reset of the chip selects bank 0
behind the driver's back.

What is behind the registers may be anything: a register file answers each access to a
named register as it likes and changes as it likes. On the chip the accesses meet the
registers that the selected bank makes of the five bits, on a flat register file those
that the addresses name. The driver cannot tell the two apart.

There is one way to select a bank without the driver's knowledge: to write the bank bits
of ECON1 through `ENC28J60_Write`.
-/

namespace FanGateway.Enc28j60

/-! ## Register files -/

/-- A register of all banks, or a register of one. -/
inductive RegName
  | common (a : ℕ)
  | banked (bank a : ℕ)
  deriving DecidableEq, Repr

/-- What five address bits reach when a bank is selected. -/
def reached (bank a : ℕ) : RegName := if 0x1B ≤ a then .common a else .banked bank a

/-- The register an address names. -/
def named (addr : ℕ) : RegName := reached ((addr &&& 0x60) >>> 5) (addr &&& 0x1F)

/-- Registers and buffer memory of any behaviour. -/
structure File (φ : Type*) where
  ctrl : Op → RegName → UInt8 → φ → UInt8 × φ
  buf : Op → UInt8 → φ → UInt8 × φ
  reset : φ → φ
  /-- What is on the wire before or after the byte of a register. -/
  pad : UInt8

variable {φ : Type*} (F : File φ)

/-- ECON1 without its bank bits. To set or clear none of the other bits changes nothing. -/
def File.econ1 (op : Op) (v : UInt8) (f : φ) : UInt8 × φ :=
  match op with
  | .bitFieldSet | .bitFieldClr =>
    if v &&& 0xFC = 0 then (0, f) else F.ctrl op (.common 0x1F) (v &&& 0xFC) f
  | _ => F.ctrl op (.common 0x1F) (v &&& 0xFC) f

/-- The chip: a register file and the bank bits of ECON1. -/
structure Banked (φ : Type*) where
  file : φ
  bsel : UInt8

namespace Banked

/-- The selected bank. -/
def bank (c : Banked φ) : ℕ := (c.bsel &&& 0x03).toNat

/-- A command, with the five address bits on the wire. -/
def exec (op : Op) (a : ℕ) (v : UInt8) (c : Banked φ) : UInt8 × Banked φ :=
  match op with
  | .readBufMem | .writeBufMem => let r := F.buf op v c.file; (r.1, { c with file := r.2 })
  | .softReset => (0, ⟨F.reset c.file, 0⟩)
  | _ =>
    if a = 0x1F then
      let r := F.econ1 op v c.file
      let bsel :=
        match op with
        | .writeCtrlReg => v
        | .bitFieldSet => c.bsel ||| v
        | .bitFieldClr => c.bsel &&& ~~~v
        | _ => c.bsel
      ((r.1 &&& 0xFC) ||| (c.bsel &&& 0x03), ⟨r.2, bsel⟩)
    else let r := F.ctrl op (reached c.bank a) v c.file; (r.1, { c with file := r.2 })

/-- The registers of MAC and MII answer with the second byte. -/
def wire : Wire (Banked φ) where
  read op a second c :=
    let r := exec F op a 0 c
    match op with
    | .readCtrlReg => (if second = decide (MacOrMii c.bank a) then r.1 else F.pad, r.2)
    | _ => r
  write op a v c := (exec F op a v c).2
  reset c := ⟨F.reset c.file, 0⟩

end Banked

/-- A command on the register file, with the whole address. Of the bank bits a read of ECON1 sees
those its own address selects. -/
def File.exec (op : Op) (addr : ℕ) (v : UInt8) (f : φ) : UInt8 × φ :=
  match op with
  | .readBufMem | .writeBufMem => F.buf op v f
  | .softReset => (0, F.reset f)
  | _ =>
    if addr &&& 0x1F = 0x1F then
      let r := F.econ1 op v f
      ((r.1 &&& (0xFC : UInt8)) ||| UInt8.ofNat ((addr &&& 0x60) >>> 5), r.2)
    else F.ctrl op (named addr) v f

/-- Direct access to the named registers. -/
def File.bus : Bus φ where
  readOp op addr f := F.exec op addr 0 f
  writeOp op addr v f := (F.exec op addr v f).2
  setBank _ f := f
  read addr f := F.exec .readCtrlReg addr 0 f
  write addr v f := (F.exec .writeCtrlReg addr v f).2
  reset := F.reset

/-! ## The chip and the file in step -/

/-- The bank the driver remembers is selected. -/
def Coherent (c : Cached (Banked φ)) : Prop := c.enc28j60bank = 32 * c.chip.bank

section Step

variable {F} {c : Banked φ} {addr : ℕ} {v : UInt8}

/-- Bank bits are no other bits. -/
theorem econ1_bankBits {k : ℕ} (hk : k < 4) (op : Op) (hop : op = .bitFieldSet ∨ op = .bitFieldClr)
    (f : φ) : F.econ1 op (UInt8.ofNat k) f = (0, f) := by
  have honly : UInt8.ofNat k &&& (0xFC : UInt8) = 0 := by
    have hcases : k = 0 ∨ k = 1 ∨ k = 2 ∨ k = 3 := by omega
    rcases hcases with rfl | rfl | rfl | rfl <;> rfl
  rcases hop with rfl | rfl <;> exact if_pos honly

/-- After the two commands that select a bank it is selected, and nothing else is changed. -/
theorem exec_select {k : ℕ} (hk : k < 4) :
    (Banked.exec F .bitFieldSet 0x1F (UInt8.ofNat k)
        (Banked.exec F .bitFieldClr 0x1F 0x03 c).2).2 =
      ⟨c.file, (c.bsel &&& ~~~0x03) ||| UInt8.ofNat k⟩ := by
  have hclear : F.econ1 .bitFieldClr 0x03 c.file = (0, c.file) :=
    econ1_bankBits (by omega : 3 < 4) _ (.inr rfl) _
  have hset := econ1_bankBits (F := F) hk .bitFieldSet (.inl rfl) c.file
  simp only [Banked.exec, if_true, hclear, hset]

theorem setBank_of_ne {c : Cached (Banked φ)} (h : addr &&& 0x60 ≠ c.enc28j60bank) :
    Cached.setBank (Banked.wire F) addr c =
      ⟨⟨c.chip.file, (c.chip.bsel &&& ~~~(0x03 : UInt8)) ||| UInt8.ofNat ((addr &&& 0x60) >>> 5)⟩,
        addr &&& 0x60⟩ :=
  (if_pos h).trans
    (congrArg (fun x => Cached.mk x (addr &&& 0x60)) (exec_select (Driver.bank_lt addr)))

/-- After a bank has been selected, it is remembered and selected, and nothing else is changed;
this needs the remembered bank to be right only if it is the one to select. -/
theorem setBank_banked {c : Cached (Banked φ)}
    (h : c.enc28j60bank = addr &&& 0x60 → 32 * c.chip.bank = addr &&& 0x60) :
    (Cached.setBank (Banked.wire F) addr c).chip.file = c.chip.file ∧
      32 * (Cached.setBank (Banked.wire F) addr c).chip.bank = addr &&& 0x60 ∧
      (Cached.setBank (Banked.wire F) addr c).enc28j60bank = addr &&& 0x60 := by
  by_cases hsame : addr &&& 0x60 ≠ c.enc28j60bank
  · have hbits := Driver.bankBits c.chip.bsel (Driver.bank_lt addr)
    rw [setBank_of_ne hsame]
    exact ⟨rfl, (congrArg (32 * ·) hbits).trans (Driver.bank_mul addr), rfl⟩
  · have hcache := (not_not.1 hsame).symm
    rw [Cached.setBank, if_neg hsame]
    exact ⟨rfl, h hcache, hcache⟩

/-- The bank bits when the bank of an address is selected. -/
theorem bsel_eq (h : 32 * c.bank = addr &&& 0x60) :
    c.bsel &&& (0x03 : UInt8) = UInt8.ofNat ((addr &&& 0x60) >>> 5) := by
  have hbank : c.bank = (addr &&& 0x60) >>> 5 := by
    have hmul := Driver.bank_mul addr
    omega
  rw [← hbank, Banked.bank, UInt8.ofNat_toNat]

theorem reached_eq (h : 32 * c.bank = addr &&& 0x60) :
    reached c.bank (addr &&& 0x1F) = named addr := by
  have hbank : c.bank = (addr &&& 0x60) >>> 5 := by
    have hmul := Driver.bank_mul addr
    omega
  rw [hbank, named]

/-- With its bank selected an address is read as on the file. -/
theorem exec_read (h : 32 * c.bank = addr &&& 0x60) :
    (Banked.exec F .readCtrlReg (addr &&& 0x1F) 0 c).1 = (F.exec .readCtrlReg addr 0 c.file).1 ∧
      (Banked.exec F .readCtrlReg (addr &&& 0x1F) 0 c).2 =
        ⟨(F.exec .readCtrlReg addr 0 c.file).2, c.bsel⟩ := by
  simp only [Banked.exec, File.exec, reached_eq h, bsel_eq h]
  split_ifs <;> exact ⟨rfl, rfl⟩

/-- An address that has a name says which of the two bytes is the register's. -/
theorem wire_read (h : 32 * c.bank = addr &&& 0x60) (haddr : Symbolic addr) :
    ((Banked.wire F).read .readCtrlReg (addr &&& 0x1F) (addr &&& 0x80 ≠ 0) c).1 =
        (F.exec .readCtrlReg addr 0 c.file).1 ∧
      ((Banked.wire F).read .readCtrlReg (addr &&& 0x1F) (addr &&& 0x80 ≠ 0) c).2 =
        ⟨(F.exec .readCtrlReg addr 0 c.file).2, c.bsel⟩ := by
  have hbank : c.bank = (addr &&& 0x60) >>> 5 := by
    have hmul := Driver.bank_mul addr
    omega
  have hsecond : decide (addr &&& 0x80 ≠ 0) = decide (MacOrMii c.bank (addr &&& 0x1F)) := by
    rw [hbank]
    exact decide_eq_decide.2 haddr
  simp only [Banked.wire, hsecond, if_true]
  exact exec_read h

/-- It is written as on the file, and stays selected unless the write is one of bank bits. -/
theorem exec_write (h : 32 * c.bank = addr &&& 0x60) (hkeeps : KeepsBank addr v) :
    (Banked.exec F .writeCtrlReg (addr &&& 0x1F) v c).2.file =
        (F.exec .writeCtrlReg addr v c.file).2 ∧
      32 * (Banked.exec F .writeCtrlReg (addr &&& 0x1F) v c).2.bank = addr &&& 0x60 := by
  simp only [Banked.exec, File.exec, reached_eq h]
  split_ifs with hecon1
  · refine ⟨rfl, ?_⟩
    have hk := Driver.bank_lt addr
    rw [Banked.bank, hkeeps hecon1, UInt8.toNat_ofNat_of_lt' (hk.trans (by decide)),
      Driver.bank_mul]
  · exact ⟨rfl, h⟩

/-- RXEN and TXRTS are not bank bits. -/
theorem bank_of_bits {e v : UInt8} (hv : v = 0x04 ∨ v = 0x08) :
    (e ||| v) &&& 0x03 = e &&& 0x03 ∧ e &&& ~~~v &&& 0x03 = e &&& 0x03 := by
  have hset (w : UInt8) (hw : w.toNat &&& 3 = 0) : (e ||| w) &&& 0x03 = e &&& 0x03 := by
    apply UInt8.toNat_inj.mp
    rw [UInt8.toNat_and, UInt8.toNat_or, Nat.and_or_distrib_right, UInt8.toNat_and]
    exact (congrArg (_ ||| ·) hw).trans (Nat.or_zero _)
  rcases hv with rfl | rfl
  · exact ⟨hset _ rfl, by rw [UInt8.and_assoc]; rfl⟩
  · exact ⟨hset _ rfl, by rw [UInt8.and_assoc]; rfl⟩

/-- A command for bits of a common register meets it in any bank. -/
theorem exec_bits {op : Op} (hop : op = .bitFieldSet ∨ op = .bitFieldClr)
    (hbits : CommonBits addr v) :
    (Banked.exec F op (addr &&& 0x1F) v c).2.file = (F.exec op addr v c.file).2 ∧
      (Banked.exec F op (addr &&& 0x1F) v c).2.bank = c.bank := by
  obtain ⟨hlow, hhigh, hecon1⟩ := hbits
  have haddr : addr &&& 0x1F = addr := Nat.and_two_pow_sub_one_of_lt_two_pow (n := 5) (by omega)
  have hreached : reached c.bank addr = named addr := by
    rw [named, haddr, reached, reached, if_pos hlow, if_pos hlow]
  rw [haddr]
  by_cases heq : addr = 0x1F
  · obtain ⟨hset, hclear⟩ := bank_of_bits (e := c.bsel) (hecon1 heq)
    rcases hop with rfl | rfl <;> simp only [Banked.exec, File.exec, haddr, if_pos heq]
    · exact ⟨trivial, congrArg UInt8.toNat hset⟩
    · exact ⟨trivial, congrArg UInt8.toNat hclear⟩
  · rcases hop with rfl | rfl <;>
      simp only [Banked.exec, File.exec, haddr, if_neg heq, hreached] <;> exact ⟨trivial, rfl⟩

end Step

/-- What the chip and the driver's memory of it have in common with the file. -/
def AsFlat (c : Cached (Banked φ)) (f : φ) : Prop := c.chip.file = f ∧ Coherent c

/-- After a reset the remembered bank may be wrong, but bank 0 is selected. -/
def AfterReset (c : Cached (Banked φ)) (f : φ) : Prop := c.chip.file = f ∧ c.chip.bsel = 0

section Simulation

variable {F} {c : Cached (Banked φ)} {addr : ℕ} {v : UInt8}

theorem read_banked (h : c.enc28j60bank = addr &&& 0x60 → 32 * c.chip.bank = addr &&& 0x60)
    (haddr : Symbolic addr) :
    Alike AsFlat ((Cached.bus (Banked.wire F)).read addr c) (F.bus.read addr c.chip.file) := by
  obtain ⟨hfile, hbank, hcache⟩ := setBank_banked (F := F) h
  obtain ⟨hvalue, hchip⟩ := wire_read (F := F) hbank haddr
  rw [hfile] at hvalue hchip
  refine ⟨hvalue, congrArg Banked.file hchip, ?_⟩
  exact hcache.trans (hbank.symm.trans (congrArg (fun x => 32 * Banked.bank x) hchip).symm)

theorem write_banked (h : c.enc28j60bank = addr &&& 0x60 → 32 * c.chip.bank = addr &&& 0x60)
    (hkeeps : KeepsBank addr v) :
    AsFlat ((Cached.bus (Banked.wire F)).write addr v c) (F.bus.write addr v c.chip.file) := by
  obtain ⟨hfile, hbank, hcache⟩ := setBank_banked (F := F) h
  obtain ⟨hnext, hkept⟩ := exec_write (F := F) hbank hkeeps
  rw [hfile] at hnext
  exact ⟨hnext, hcache.trans hkept.symm⟩

/-- The driver that remembers the bank stays in step with direct access. -/
theorem sim_flat (F : File φ) : Bus.Sim (Cached.bus (Banked.wire F)) F.bus AsFlat AfterReset where
  reset := by
    rintro c _ ⟨rfl, -⟩
    exact ⟨rfl, rfl⟩
  softReset := by
    rintro c _ ⟨rfl, -⟩
    exact ⟨rfl, rfl⟩
  first := by
    rintro c _ ⟨rfl, hbsel⟩
    refine read_banked (fun _ => ?_) (by decide)
    rw [Banked.bank, hbsel]
    rfl
  read := by
    rintro addr c _ haddr ⟨rfl, hcoherent⟩
    exact read_banked (fun h => hcoherent.symm.trans h) haddr
  write := by
    rintro addr v c _ hkeeps ⟨rfl, hcoherent⟩
    exact write_banked (fun h => hcoherent.symm.trans h) hkeeps
  setBank := by
    rintro addr c _ ⟨rfl, hcoherent⟩
    have hknown : c.enc28j60bank = addr &&& 0x60 → 32 * c.chip.bank = addr &&& 0x60 :=
      fun h => hcoherent.symm.trans h
    obtain ⟨hfile, hbank, hcache⟩ := setBank_banked (F := F) hknown
    exact ⟨hfile, hcache.trans hbank.symm⟩
  readBuf := by
    rintro c _ ⟨rfl, hcoherent⟩
    exact ⟨rfl, rfl, hcoherent⟩
  writeBuf := by
    rintro v c _ ⟨rfl, hcoherent⟩
    exact ⟨rfl, hcoherent⟩
  setBits := by
    rintro addr v c _ hbits ⟨rfl, hcoherent⟩
    obtain ⟨hfile, hbank⟩ := exec_bits (F := F) (c := c.chip) (.inl rfl) hbits
    exact ⟨hfile, hcoherent.trans (congrArg (32 * ·) hbank.symm)⟩
  clearBits := by
    rintro addr v c _ hbits ⟨rfl, hcoherent⟩
    obtain ⟨hfile, hbank⟩ := exec_bits (F := F) (c := c.chip) (.inr rfl) hbits
    exact ⟨hfile, hcoherent.trans (congrArg (32 * ·) hbank.symm)⟩

end Simulation

end FanGateway.Enc28j60
