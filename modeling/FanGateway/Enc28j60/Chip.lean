import FanGateway.Lib.Ring
import Mathlib.Tactic.SplitIfs

/-!
# The ENC28J60 as its driver sees it

The chip answers commands of one or two bytes. Five registers are the same in every
bank; the others are selected by the bank bits of ECON1. Buffer memory is read at
ERDPT, which goes on by itself and wraps at the end of the receive buffer.

A frame that passes the filters and finds room is stored at ERXWRPT behind a header
with the position of the next frame, the byte count and the status. A frame that is
not stored raises RXERIF.
-/

namespace FanGateway.Enc28j60

open Lib

/-! ## Registers -/

namespace Reg

/-! Bits 5 and 6 of an address are the bank, bit 7 marks the registers of MAC and MII. -/

abbrev eie : ℕ := 0x1B
abbrev eir : ℕ := 0x1C
abbrev estat : ℕ := 0x1D
abbrev econ2 : ℕ := 0x1E
abbrev econ1 : ℕ := 0x1F

abbrev erdptl : ℕ := 0x00
abbrev erdpth : ℕ := 0x01
abbrev ewrptl : ℕ := 0x02
abbrev ewrpth : ℕ := 0x03
abbrev etxstl : ℕ := 0x04
abbrev etxsth : ℕ := 0x05
abbrev etxndl : ℕ := 0x06
abbrev etxndh : ℕ := 0x07
abbrev erxstl : ℕ := 0x08
abbrev erxsth : ℕ := 0x09
abbrev erxndl : ℕ := 0x0A
abbrev erxndh : ℕ := 0x0B
abbrev erxrdptl : ℕ := 0x0C
abbrev erxrdpth : ℕ := 0x0D
abbrev erxwrptl : ℕ := 0x0E

abbrev epmm0 : ℕ := 0x28
abbrev epmm1 : ℕ := 0x29
abbrev epmcsl : ℕ := 0x30
abbrev epmcsh : ℕ := 0x31
abbrev erxfcon : ℕ := 0x38
abbrev epktcnt : ℕ := 0x39

abbrev macon1 : ℕ := 0xC0
abbrev macon2 : ℕ := 0xC1
abbrev macon3 : ℕ := 0xC2
abbrev mabbipg : ℕ := 0xC4
abbrev maipgl : ℕ := 0xC6
abbrev maipgh : ℕ := 0xC7
abbrev mamxfll : ℕ := 0xCA
abbrev mamxflh : ℕ := 0xCB
abbrev micmd : ℕ := 0xD2
abbrev miregadr : ℕ := 0xD4
abbrev miwrl : ℕ := 0xD6
abbrev miwrh : ℕ := 0xD7
abbrev mirdl : ℕ := 0xD8
abbrev mirdh : ℕ := 0xD9

abbrev maadr1 : ℕ := 0xE0
abbrev maadr0 : ℕ := 0xE1
abbrev maadr3 : ℕ := 0xE2
abbrev maadr2 : ℕ := 0xE3
abbrev maadr5 : ℕ := 0xE4
abbrev maadr4 : ℕ := 0xE5
abbrev mistat : ℕ := 0xEA
abbrev erevid : ℕ := 0x72

/-- Two pointers in different registers. -/
def Apart (k l : ℕ) : Prop := k ≠ l ∧ k ≠ l + 1 ∧ k + 1 ≠ l

instance (k l : ℕ) : Decidable (Apart k l) := inferInstanceAs (Decidable (_ ∧ _ ∧ _))

/-- Where a banked register lies among the registers of all banks. -/
def slot (addr : ℕ) : ℕ := (addr &&& 0x60) + (addr &&& 0x1F)

end Reg

/-- The chip. The registers of the four banks are numbered through, thirty-two to a bank. -/
structure Chip where
  eie : UInt8
  eir : UInt8
  estat : UInt8
  econ2 : UInt8
  econ1 : UInt8
  regs : ℕ → UInt8
  mem : ℕ → UInt8

/-- The commands. -/
inductive Op
  | readCtrlReg
  | readBufMem
  | writeCtrlReg
  | writeBufMem
  | bitFieldSet
  | bitFieldClr
  | softReset

namespace Chip

/-- The selected bank. -/
def bank (c : Chip) : ℕ := (c.econ1 &&& 0x03).toNat

/-- A register of the selected bank. PKTIF is up while frames are counted in EPKTCNT. -/
def get (c : Chip) (a : ℕ) : UInt8 :=
  if a = 0x1B then c.eie
  else if a = 0x1C then if c.regs Reg.epktcnt = 0 then c.eir &&& ~~~0x40 else c.eir ||| 0x40
  else if a = 0x1D then c.estat
  else if a = 0x1E then c.econ2
  else if a = 0x1F then c.econ1
  else c.regs (32 * c.bank + a)

def set (c : Chip) (a : ℕ) (v : UInt8) : Chip :=
  if a = 0x1B then { c with eie := v }
  else if a = 0x1C then { c with eir := v }
  else if a = 0x1D then { c with estat := v }
  else if a = 0x1E then { c with econ2 := v }
  else if a = 0x1F then { c with econ1 := v }
  else { c with regs := Function.update c.regs (32 * c.bank + a) v }

/-- EPKTCNT counts another number of frames. -/
def withCount (c : Chip) (n : UInt8) : Chip :=
  { c with regs := Function.update c.regs Reg.epktcnt n }

/-- One frame less is counted. EPKTCNT does not go below zero. -/
def counted (c : Chip) : Chip := c.withCount (UInt8.ofNat ((c.regs Reg.epktcnt).toNat - 1))

/-- Setting PKTDEC counts EPKTCNT down and leaves the bit cleared. -/
def setBits (c : Chip) (a : ℕ) (v : UInt8) : Chip :=
  if a = 0x1E ∧ v &&& 0x40 ≠ 0 then
    { c.counted with econ2 := (c.econ2 ||| v) &&& ~~~0x40 }
  else c.set a (c.get a ||| v)

/-- A pointer in two registers, low byte first. -/
def ptr (c : Chip) (l : ℕ) : ℕ := (c.regs l).toNat + 256 * (c.regs (l + 1)).toNat

def setPtr (c : Chip) (l p : ℕ) : Chip :=
  { c with
    regs := Function.update (Function.update c.regs l (UInt8.ofNat p)) (l + 1)
      (UInt8.ofNat (p / 256)) }

/-- The position after `p` in the receive buffer. -/
def next (c : Chip) (p : ℕ) : ℕ := if p = c.ptr Reg.erxndl then c.ptr Reg.erxstl else p + 1

/-- What the registers hold after a reset; the oscillator is ready when they are read. -/
def reset (c : Chip) : Chip where
  eie := 0
  eir := 0
  estat := 0x01
  econ2 := 0x80
  econ1 := 0
  regs a :=
    if a = Reg.erdptl ∨ a = Reg.erxstl ∨ a = Reg.erxrdptl then 0xFA
    else if a = Reg.erdpth ∨ a = Reg.erxsth ∨ a = Reg.erxrdpth then 0x05
    else if a = Reg.erxndl then 0xFF
    else if a = Reg.erxndh then 0x1F
    else if a = Reg.erxfcon then 0xA1
    else if a = Reg.slot Reg.mamxflh then 0x06
    else 0
  -- a reset does not clear the buffer memory
  mem := c.mem

/-- One command: the answer, and what it does to the chip. -/
def exec (c : Chip) (op : Op) (a : ℕ) (v : UInt8) : UInt8 × Chip :=
  match op with
  | .readCtrlReg => (c.get a, c)
  | .readBufMem =>
    -- ECON2.AUTOINC is set by a reset, and the driver never clears it
    (c.mem (c.ptr Reg.erdptl), c.setPtr Reg.erdptl (c.next (c.ptr Reg.erdptl)))
  | .writeCtrlReg => (0, c.set a v)
  | .writeBufMem =>
    -- EWRPT goes on round the end of the memory, not of the receive buffer
    (0, { c with mem := Function.update c.mem (c.ptr Reg.ewrptl) v }.setPtr Reg.ewrptl
      ((c.ptr Reg.ewrptl + 1) % 0x2000))
  | .bitFieldSet => (0, c.setBits a v)
  | .bitFieldClr => (0, c.set a (c.get a &&& ~~~v))
  | .softReset => (0, c.reset)

end Chip

/-! ## Reception -/

/-- A frame with its checksum, the status the chip gives it, and the bytes by which it moves
the next frame on. -/
structure Frame where
  data : List UInt8
  status : UInt16
  fill : List UInt8
  deriving DecidableEq

namespace Frame

/-- The bytes a frame takes up behind one another. -/
def size (f : Frame) : ℕ := 6 + f.data.length + f.fill.length

/-- The bytes of a number, low byte first. -/
def word (n : ℕ) : List UInt8 := [UInt8.ofNat n, UInt8.ofNat (n / 256)]

/-- A frame as it is stored: the header, low bytes first, and the data. -/
def encode (next : ℕ) (f : Frame) : List UInt8 :=
  word next ++ word f.data.length ++ word f.status.toNat ++ f.data ++ f.fill

/-- The frame without its checksum. -/
def payload (f : Frame) : List UInt8 := f.data.take (f.data.length - 4)

theorem length_encode (next : ℕ) (f : Frame) : (f.encode next).length = f.size := by
  simp [encode, word, size]
  omega

end Frame

namespace Chip

/-- The room in the receive buffer. The byte before ERXRDPT is never written. -/
def freeSpace (c : Chip) : ℕ :=
  let rd := c.ptr Reg.erxrdptl
  let wr := c.ptr Reg.erxwrptl
  let size := c.ptr Reg.erxndl - c.ptr Reg.erxstl
  -- what waits to be read lies in one piece, there is nothing, or it goes round the end
  if rd < wr then size - (wr - rd) else if wr = rd then size else rd - wr - 1

/-- The frames that are stored: those the filters let through, while there is room for them
and EPKTCNT can count them. -/
def Accepts (c : Chip) (f : Frame) : Prop :=
  4 ≤ f.data.length ∧ f.data.length ≤ c.ptr (Reg.slot Reg.mamxfll) ∧
    (c.regs Reg.erxfcon &&& 0x20 ≠ 0 → f.status &&& 0x80 ≠ 0) ∧
    f.size ≤ c.freeSpace ∧ c.regs Reg.epktcnt ≠ 255

instance (c : Chip) (f : Frame) : Decidable (c.Accepts f) :=
  inferInstanceAs (Decidable (_ ∧ _ ∧ (_ → _) ∧ _ ∧ _))

/-- Store bytes one by one at ERXWRPT. -/
def storeBytes (c : Chip) : List UInt8 → Chip
  | [] => c
  | b :: bs =>
    let wr := c.ptr Reg.erxwrptl
    storeBytes ({ c with mem := Function.update c.mem wr b }.setPtr Reg.erxwrptl (c.next wr)) bs

/-- Store a frame and count it. -/
def receive (c : Chip) (f : Frame) : Chip :=
  let c := c.storeBytes (f.encode (c.next^[f.size] (c.ptr Reg.erxwrptl)))
  c.withCount (c.regs Reg.epktcnt + 1)

/-- A frame is dropped. -/
def drop (c : Chip) : Chip := { c with eir := c.eir ||| 0x01 }

/-- A transmission ends. -/
def sent (c : Chip) (failed : Bool) : Chip :=
  { c with eir := c.eir ||| if failed then 0x02 else 0x08 }

end Chip

/-! ## The receive buffer is a ring -/

namespace Chip

variable {c : Chip} {l p q : ℕ}

theorem ptr_setPtr (hp : p < 65536) : (c.setPtr l p).ptr l = p := by
  simp only [ptr, setPtr, Function.update_self, Function.update_of_ne (Nat.succ_ne_self l).symm,
    UInt8.toNat_ofNat']
  omega

/-- A pointer elsewhere is not changed. -/
theorem ptr_setPtr_of_apart {k : ℕ} (h : Reg.Apart k l) : (c.setPtr l p).ptr k = c.ptr k := by
  obtain ⟨hlow, hhigh, hpair⟩ := h
  have hnext : k + 1 ≠ l + 1 := fun h => hlow (Nat.succ.inj h)
  simp only [ptr, setPtr]
  rw [Function.update_of_ne hhigh, Function.update_of_ne hlow, Function.update_of_ne hnext,
    Function.update_of_ne hpair]

/-- The pointers do not include EPKTCNT. -/
theorem ptr_withCount {n : UInt8} (h : l + 1 < Reg.epktcnt) :
    (c.withCount n).ptr l = c.ptr l := by
  simp only [ptr, withCount]
  rw [Function.update_of_ne (Nat.lt_of_succ_lt h).ne, Function.update_of_ne h.ne]

theorem toNat_count_counted :
    (c.counted.regs Reg.epktcnt).toNat = (c.regs Reg.epktcnt).toNat - 1 := by
  have hlt := (c.regs Reg.epktcnt).toNat_lt
  have hregs : c.counted.regs Reg.epktcnt = UInt8.ofNat ((c.regs Reg.epktcnt).toNat - 1) := rfl
  rw [hregs, UInt8.toNat_ofNat']
  omega

theorem setPtr_setPtr : (c.setPtr l p).setPtr l q = c.setPtr l q := by
  simp only [setPtr]
  congr 1
  ext a
  simp only [Function.update_apply]
  split_ifs <;> rfl

/-- A pointer set to what it is. -/
theorem setPtr_self : c.setPtr l (c.ptr l) = c := by
  -- two bytes hold the pointer, so that nothing of it is cut off
  have hlow : UInt8.ofNat (c.ptr l) = c.regs l := by
    apply UInt8.toNat_inj.mp
    have hbyte := (c.regs l).toNat_lt
    simp only [ptr, UInt8.toNat_ofNat']
    omega
  have hhigh : UInt8.ofNat (c.ptr l / 256) = c.regs (l + 1) := by
    apply UInt8.toNat_inj.mp
    have hbyte := (c.regs l).toNat_lt
    have hbyte' := (c.regs (l + 1)).toNat_lt
    simp only [ptr, UInt8.toNat_ofNat']
    omega
  rw [setPtr, hlow, hhigh, Function.update_eq_self, Function.update_eq_self]

end Chip

/-- The last byte of the receive buffer, which starts at 0. -/
abbrev rxstopInit : ℕ := 0x1FFF - 1518 - 1

/-- The size of the receive buffer. -/
abbrev rxSize : ℕ := rxstopInit + 1

/-- The longest frame the chip lets through. -/
abbrev maxFramelen : ℕ := 1518

/-- A frame is whole if it is received without error and no longer than a frame may be. -/
structure Frame.Whole (f : Frame) : Prop where
  checksum : 4 ≤ f.data.length
  length : f.data.length ≤ maxFramelen
  status : f.status &&& 0x80 ≠ 0

/-- The registers of the set-up. -/
def setupRegs : List ℕ :=
  [Reg.erxstl, Reg.erxsth, Reg.erxndl, Reg.erxndh, Reg.slot Reg.mamxfll, Reg.slot Reg.mamxflh,
    Reg.erxfcon]

/-- The receive side as the driver sets it up once. -/
structure Configured (c : Chip) : Prop where
  start : c.ptr Reg.erxstl = 0
  stop : c.ptr Reg.erxndl = rxstopInit
  maxLength : c.ptr (Reg.slot Reg.mamxfll) = maxFramelen
  checked : c.regs Reg.erxfcon &&& 0x20 ≠ 0

namespace Configured

variable {c : Chip} {p : ℕ}

/-- Positions go round the ring. -/
theorem next_eq (h : Configured c) (hp : p < rxSize) : c.next p = (p + 1) % rxSize := by
  rw [Chip.next, h.start, h.stop]
  split_ifs with hlast
  · rw [hlast, Nat.mod_self]
  · have hlt : p < rxstopInit := Nat.lt_of_le_of_ne (Nat.le_of_lt_succ hp) hlast
    exact (Nat.mod_eq_of_lt (Nat.succ_lt_succ hlt)).symm

theorem next_iterate (h : Configured c) (hp : p < rxSize) (n : ℕ) :
    c.next^[n] p = (p + n) % rxSize := by
  induction n with
  | zero => exact (Nat.mod_eq_of_lt hp).symm
  | succ n ih =>
    rw [Function.iterate_succ_apply', ih, h.next_eq (Nat.mod_lt _ (Nat.succ_pos _)),
      Nat.mod_add_mod, Nat.add_assoc]

/-- Only the registers of the set-up count. -/
theorem of_regs {c' : Chip} (h : Configured c)
    (hregs : ∀ a ∈ setupRegs, c'.regs a = c.regs a) : Configured c' := by
  simp only [setupRegs, List.forall_mem_cons] at hregs
  obtain ⟨hstl, hsth, hndl, hndh, hfll, hflh, hfcon, -⟩ := hregs
  refine ⟨?_, ?_, ?_, ?_⟩
  · rw [← h.start, Chip.ptr, Chip.ptr, hstl, hsth]
  · rw [← h.stop, Chip.ptr, Chip.ptr, hndl, hndh]
  · rw [← h.maxLength, Chip.ptr, Chip.ptr, hfll]
    exact congrArg (fun v : UInt8 => _ + 256 * v.toNat) hflh
  · rw [hfcon]
    exact h.checked

/-- The pointers that move are not part of the set-up. -/
theorem setPtr (h : Configured c) {l : ℕ} (hl : l ∉ setupRegs ∧ l + 1 ∉ setupRegs) :
    Configured (c.setPtr l p) := by
  apply h.of_regs
  intro a ha
  have hne : a ≠ l := ne_of_mem_of_not_mem ha hl.1
  have hne' : a ≠ l + 1 := ne_of_mem_of_not_mem ha hl.2
  simp only [Chip.setPtr, Function.update_of_ne hne, Function.update_of_ne hne']

theorem withCount (h : Configured c) {n : UInt8} : Configured (c.withCount n) :=
  h.of_regs fun _ ha => Function.update_of_ne (ne_of_mem_of_not_mem ha (by decide)) _ _

/-- Storing byte by byte stores in the ring and moves the write pointer behind it. -/
theorem storeBytes_eq (h : Configured c) (hwr : c.ptr Reg.erxwrptl < rxSize) (bs : List UInt8) :
    c.storeBytes bs =
      { c with mem := Ring.store rxSize c.mem (c.ptr Reg.erxwrptl) bs }.setPtr Reg.erxwrptl
        ((c.ptr Reg.erxwrptl + bs.length) % rxSize) := by
  -- induction on the bytes; the chip changes with each, but stays configured
  induction bs generalizing c with
  | nil =>
    rw [List.length_nil, Nat.add_zero, Nat.mod_eq_of_lt hwr]
    exact Chip.setPtr_self.symm
  | cons b bs ih =>
    have hnext : c.next (c.ptr Reg.erxwrptl) < rxSize := by
      rw [h.next_eq hwr]
      exact Nat.mod_lt _ (Nat.succ_pos _)
    have hptr {m : ℕ → UInt8} :
        ({ c with mem := m }.setPtr Reg.erxwrptl (c.next (c.ptr Reg.erxwrptl))).ptr Reg.erxwrptl =
          c.next (c.ptr Reg.erxwrptl) :=
      Chip.ptr_setPtr (hnext.trans (by decide))
    have hstored : Configured { c with mem := Function.update c.mem (c.ptr Reg.erxwrptl) b } :=
      h.of_regs fun _ _ => rfl
    rw [Chip.storeBytes, ih (hstored.setPtr (by decide)) (hptr.trans_lt hnext), hptr]
    -- the pointer is at the byte behind the first one, taken round the ring
    have hlast : (c.next (c.ptr Reg.erxwrptl) + bs.length) % rxSize =
        (c.ptr Reg.erxwrptl + (b :: bs).length) % rxSize := by
      rw [h.next_eq hwr, Nat.mod_add_mod, List.length_cons, Nat.add_assoc, Nat.add_comm 1]
    have hmem : Ring.store rxSize c.mem (c.ptr Reg.erxwrptl) (b :: bs) =
        Ring.store rxSize (Function.update c.mem (c.ptr Reg.erxwrptl) b)
          (c.next (c.ptr Reg.erxwrptl)) bs := by
      rw [Ring.store, Nat.mod_eq_of_lt hwr, h.next_eq hwr, Ring.store_mod]
    rw [hlast, hmem]
    exact Chip.setPtr_setPtr (c := { c with
      mem := Ring.store rxSize (Function.update c.mem (c.ptr Reg.erxwrptl) b)
        (c.next (c.ptr Reg.erxwrptl)) bs })

/-- The room left when `used` bytes from ERXRDPT on wait to be read. -/
theorem freeSpace_eq (h : Configured c) {used : ℕ} (hrd : c.ptr Reg.erxrdptl < rxSize)
    (hused : used < rxSize)
    (hwr : c.ptr Reg.erxwrptl = (c.ptr Reg.erxrdptl + used) % rxSize) :
    c.freeSpace = rxSize - 1 - used := by
  have hsize : rxSize = 6673 := rfl
  have hstop : rxstopInit = 6672 := rfl
  rw [hsize] at hrd hused hwr ⊢
  rw [Chip.freeSpace, h.start, h.stop, hwr, hstop]
  -- the write pointer is ahead of the read pointer, at it, or round the end behind it
  split_ifs <;> omega

end Configured

end FanGateway.Enc28j60
