import FanGateway.Enc28j60.Flat
import FanGateway.Lib.Machine

/-!
# Transmission

A frame is written to the end of the buffer memory, behind a control byte, and sent from
there. When it has been sent the chip writes seven bytes of status behind it. The memory
ends before the seventh byte if the frame has more than 1511 bytes, and the chip goes on
at the beginning, where the receive buffer is.

The chip keeps a list of the addresses that were written for a transmission. Frames
arrive, and are read, at any time.
-/

namespace FanGateway.Enc28j60

open Lib
open Sys (txstartInit)

/-! ## The chip as a register file -/

/-- A command for a register of a bank, whichever bank is selected. -/
def Chip.execIn (bank : ℕ) (op : Op) (a : ℕ) (v : UInt8) (c : Chip) : UInt8 × Chip :=
  let r := { c with econ1 := UInt8.ofNat bank }.exec op a v
  (r.1, { r.2 with econ1 := c.econ1 })

/-- The chip, and the addresses written for transmissions. -/
structure Logged where
  chip : Chip
  txWrites : List ℕ

/-- The chip behind its banks. Bytes are written to buffer memory for transmissions only. -/
def chipFile : File Logged where
  ctrl op r v f :=
    let x :=
      match r with
      | .common a => f.chip.exec op a v
      | .banked bank a => f.chip.execIn bank op a v
    (x.1, { f with chip := x.2 })
  buf op v f :=
    let x := f.chip.exec op 0 v
    match op with
    | .writeBufMem => (x.1, ⟨x.2, f.txWrites ++ [f.chip.ptr Reg.ewrptl]⟩)
    | _ => (x.1, { f with chip := x.2 })
  reset f := { f with chip := f.chip.reset }
  pad := 0

namespace Logged

variable {f g : Logged} {addr : ℕ} {v : UInt8}

theorem read_flat (addr : ℕ) (f : Logged) : (chipFile.bus.read addr f).2 = f := by
  simp only [File.bus, File.exec, File.econ1, named, reached]
  split_ifs <;> rfl

/-- With a bank given a banked register is written there. -/
theorem execIn_write {k a : ℕ} (hk : k < 4) (ha : a < 0x1B)
    (v : UInt8) (c : Chip) : (c.execIn k .writeCtrlReg a v).2 =
      { c with regs := Function.update c.regs (32 * k + a) v } := by
  have hbank : Chip.bank { c with econ1 := UInt8.ofNat k } = k := by
    have hand : k &&& 3 = k := Nat.and_two_pow_sub_one_of_lt_two_pow (n := 2) hk
    rw [Chip.bank, UInt8.toNat_and, UInt8.toNat_ofNat_of_lt' (hk.trans (by decide))]
    exact hand
  have hset := Chip.set_banked { c with econ1 := UInt8.ofNat k } ha v
  rw [hbank] at hset
  exact congrArg (fun x : Chip => { x with econ1 := c.econ1 }) hset

theorem write_flat (haddr : addr &&& 0x1F < 0x1B) (v : UInt8) (f : Logged) :
    chipFile.bus.write addr v f = { f with
      chip := { f.chip with regs := Function.update f.chip.regs (Reg.slot addr) v } } := by
  have hslot : 32 * ((addr &&& 0x60) >>> 5) + (addr &&& 0x1F) = Reg.slot addr := by
    rw [Driver.bank_mul, Reg.slot]
  have hset := execIn_write (Driver.bank_lt addr) haddr v f.chip
  rw [hslot] at hset
  simp only [File.bus, File.exec, if_neg (by omega : ¬ addr &&& 0x1F = 0x1F), named, reached,
    if_neg (by omega : ¬ 0x1B ≤ addr &&& 0x1F)]
  exact congrArg (fun x : Chip => { f with chip := x }) hset

def setPtr (l p : ℕ) (f : Logged) : Logged := { f with chip := f.chip.setPtr l p }

/-- A pointer of bank 0 is written low byte first. -/
theorem writePtr_flat {l : ℕ} (hl : l + 1 < 0x1B) (p : ℕ) (f : Logged) :
    chipFile.bus.write (l + 1) (UInt8.ofNat (p >>> 8))
        (chipFile.bus.write l (UInt8.ofNat p) f) = f.setPtr l p := by
  have hlow : l &&& 0x1F < 0x1B := Nat.and_le_left.trans_lt (by omega)
  have hhigh : (l + 1) &&& 0x1F < 0x1B := Nat.and_le_left.trans_lt hl
  rw [write_flat hlow, write_flat hhigh, Driver.slot_of_lt (by omega),
    Driver.slot_of_lt (by omega), Nat.shiftRight_eq_div_pow]
  rfl

/-- The bits of a common register are not memory, and not those of a pointer. -/
theorem writeOp_flat {op : Op} (hop : op = .bitFieldSet ∨ op = .bitFieldClr) (v : UInt8)
    (f : Logged) : (chipFile.bus.writeOp op Reg.econ1 v f).chip.mem = f.chip.mem ∧
      (chipFile.bus.writeOp op Reg.econ1 v f).chip.regs = f.chip.regs ∧
      (chipFile.bus.writeOp op Reg.econ1 v f).txWrites = f.txWrites := by
  rcases hop with rfl | rfl <;> simp only [File.bus, File.exec, File.econ1] <;> split_ifs <;>
    exact ⟨rfl, rfl, rfl⟩

/-! ## What is written for a frame -/

/-- One chip after another: bytes from `p` on have been written for transmissions, what lies below
is as before, and so is the end of the frame. -/
structure Wrote (p n : ℕ) (f g : Logged) : Prop where
  txWrites : g.txWrites = f.txWrites ++ (List.range n).map (p + ·)
  below : ∀ a < p, g.chip.mem a = f.chip.mem a
  etxnd : g.chip.ptr Reg.etxndl = f.chip.ptr Reg.etxndl

theorem Wrote.trans {p m n : ℕ} {k : Logged} (h : Wrote p m f g) (h' : Wrote (p + m) n g k) :
    Wrote p (m + n) f k where
  txWrites := by
    rw [h'.txWrites, h.txWrites, List.append_assoc, List.range_add, List.map_append, List.map_map]
    refine congrArg (_ ++ ·) (congrArg (_ ++ ·) (List.map_congr_left fun i _ => ?_))
    exact Nat.add_assoc p m i
  below a ha := (h'.below a (by omega)).trans (h.below a ha)
  etxnd := h'.etxnd.trans h.etxnd

/-- A byte is written at the write pointer, which goes on. -/
theorem writeByte_flat {p : ℕ} (hp : f.chip.ptr Reg.ewrptl = p) (hlt : p < 0x2000) (x : UInt8) :
    Wrote p 1 f (chipFile.bus.writeOp .writeBufMem 0 x f) ∧
      (chipFile.bus.writeOp .writeBufMem 0 x f).chip.ptr Reg.ewrptl = (p + 1) % 0x2000 := by
  subst hp
  refine ⟨⟨rfl, fun a ha => Function.update_of_ne ha.ne _ _, ?_⟩, ?_⟩
  · exact Chip.ptr_setPtr_of_apart (by decide)
  · exact Chip.ptr_setPtr ((Nat.mod_lt _ (by decide)).trans (by decide))

/-- Bytes are written one behind the other. -/
theorem writeBuf_flat {s : Sys Logged} {p : ℕ} (xs : List UInt8)
    (hp : s.bus.chip.ptr Reg.ewrptl = p) (hend : p + xs.length ≤ 0x2000) :
    Wrote p xs.length s.bus (Sys.writeBuf chipFile.bus xs s).bus := by
  -- induction on the bytes; the pointer wraps behind the last one at the earliest
  induction xs generalizing s p with
  | nil => exact ⟨(List.append_nil _).symm, fun _ _ => rfl, rfl⟩
  | cons x xs ih =>
    rw [List.length_cons] at hend ⊢
    obtain ⟨hbyte, hnext⟩ := writeByte_flat hp (by omega) x
    cases xs with
    | nil => exact hbyte
    | cons y ys =>
      rw [List.length_cons] at hend
      rw [Nat.mod_eq_of_lt (by omega)] at hnext
      have hrest := ih (s := Sys.writeOp chipFile.bus .writeBufMem 0 x s) hnext
        (by rw [List.length_cons]; omega)
      rw [Nat.add_comm]
      exact hbyte.trans hrest

theorem waitWhile_flat {s t : Sys Logged} {addr polls : ℕ} {mask : UInt8}
    (h : Sys.waitWhile chipFile.bus addr mask polls s = some t) : t = s := by
  have hread (s : Sys Logged) : (Sys.read chipFile.bus addr s).2 = s :=
    congrArg (fun f => { s with bus := f }) (read_flat addr s.bus)
  induction polls generalizing s with
  | zero => exact absurd h (by simp [Sys.waitWhile])
  | succ polls ih =>
    rw [Sys.waitWhile] at h
    split_ifs at h
    · exact (ih h).trans (hread s)
    · exact (Option.some.inj h).symm.trans (hread s)

/-- A frame of `n` bytes has been written behind its control byte, from the start of the transmit
buffer on. -/
structure Loaded (n : ℕ) (f g : Logged) : Prop where
  txWrites : g.txWrites = f.txWrites ++ (List.range (n + 1)).map (txstartInit + ·)
  below : ∀ a < txstartInit, g.chip.mem a = f.chip.mem a
  etxnd : g.chip.ptr Reg.etxndl = txstartInit + n

/-- TXRTS is no part of the memory, and not of a pointer. -/
theorem Loaded.writeOp {n : ℕ} (h : Loaded n f g) {op : Op}
    (hop : op = .bitFieldSet ∨ op = .bitFieldClr) (v : UInt8) :
    Loaded n f (chipFile.bus.writeOp op Reg.econ1 v g) := by
  obtain ⟨hmem, hregs, hwrites⟩ := writeOp_flat hop v g
  refine ⟨hwrites.trans h.txWrites, fun a ha => ?_, ?_⟩
  · rw [hmem]
    exact h.below a ha
  · rw [Chip.ptr, hregs]
    exact h.etxnd

/-- So the driver sets a pointer. -/
theorem sysWritePtr_flat {l : ℕ} (hl : l + 1 < 0x1B) (p : ℕ) (s : Sys Logged) :
    Sys.write chipFile.bus (l + 1) (UInt8.ofNat (p >>> 8))
      (Sys.write chipFile.bus l (UInt8.ofNat p) s) = { s with bus := s.bus.setPtr l p } :=
  congrArg (fun f => { s with bus := f }) (writePtr_flat hl p s.bus)

theorem loadFrame_flat {packet : List UInt8} (hlen : packet.length ≤ maxFramelen) (s : Sys Logged) :
    Loaded packet.length s.bus (Sys.loadFrame chipFile.bus packet s).bus := by
  have hmax : maxFramelen = 1518 := rfl
  have hstart : txstartInit = 6673 := rfl
  obtain ⟨u, hu⟩ : ∃ u : Sys Logged, u = { s with
      bus := ((s.bus.setPtr Reg.ewrptl txstartInit).setPtr Reg.etxndl
        (txstartInit + packet.length)) } := ⟨_, rfl⟩
  have hload : Sys.loadFrame chipFile.bus packet s =
      Sys.writeBuf chipFile.bus (0x00 :: packet) u := by
    have hewrpt := sysWritePtr_flat (l := Reg.ewrptl) (by decide) txstartInit s
    have hetxnd := sysWritePtr_flat (l := Reg.etxndl) (by decide) (txstartInit + packet.length)
      { s with bus := s.bus.setPtr Reg.ewrptl txstartInit }
    rw [hu, ← hetxnd, ← hewrpt]
    rfl
  have hptr : u.bus.chip.ptr Reg.ewrptl = txstartInit := by
    rw [hu]
    exact (Chip.ptr_setPtr_of_apart (by decide)).trans (Chip.ptr_setPtr (by decide))
  have hetxnd : u.bus.chip.ptr Reg.etxndl = txstartInit + packet.length := by
    rw [hu]
    exact Chip.ptr_setPtr (by omega)
  have hwrote := writeBuf_flat (0x00 :: packet) hptr (by rw [List.length_cons]; omega)
  rw [← hload] at hwrote
  refine ⟨hwrote.txWrites.trans ?_, fun a ha => (hwrote.below a ha).trans ?_,
    hwrote.etxnd.trans hetxnd⟩
  · rw [hu]
    rfl
  · rw [hu]
    rfl

/-- What `ENC28J60_Packet_Send` does to the buffer memory. -/
theorem packetSend_flat {s t : Sys Logged} {polls : ℕ} {packet : List UInt8}
    (hlen : packet.length ≤ maxFramelen)
    (h : Sys.packetSend chipFile.bus polls packet s = some t) :
    Loaded packet.length s.bus t.bus := by
  obtain ⟨u, hu, rfl⟩ := Option.map_eq_some_iff.mp h
  obtain rfl := waitWhile_flat hu
  simp only [if_neg (Nat.not_lt.mpr hlen)]
  have hset : Loaded packet.length s.bus (Sys.writeOp chipFile.bus .bitFieldSet Reg.econ1 0x08
      (Sys.loadFrame chipFile.bus packet { s with masked := true })).bus :=
    (loadFrame_flat hlen { s with masked := true }).writeOp (.inl rfl) 0x08
  generalize Sys.writeOp chipFile.bus .bitFieldSet Reg.econ1 0x08
    (Sys.loadFrame chipFile.bus packet { s with masked := true }) = sent at *
  have hread : (Sys.read chipFile.bus Reg.eir sent).2.bus = sent.bus := read_flat Reg.eir sent.bus
  rw [← hread] at hset
  split_ifs
  · exact hset.writeOp (.inr rfl) 0x08
  · exact hset

end Logged

/-- The driver that remembers the bank writes what direct access writes. -/
theorem packetSend_banked {s t : Sys (Cached (Banked Logged))} {polls : ℕ} {packet : List UInt8}
    (hcoherent : Coherent s.bus) (hlen : packet.length ≤ maxFramelen)
    (h : Sys.packetSend (Cached.bus (Banked.wire chipFile)) polls packet s = some t) :
    Coherent t.bus ∧ Logged.Loaded packet.length s.bus.chip.file t.bus.chip.file := by
  have hsim := (sim_flat chipFile).sysPacketSend
    (t := ⟨s.bus.chip.file, s.nextPacketPtr, s.macaddr, s.masked⟩)
    ⟨⟨rfl, hcoherent⟩, rfl, rfl, rfl⟩ polls packet hlen
  rw [h] at hsim
  obtain ⟨y, hy⟩ : ∃ y, Sys.packetSend chipFile.bus polls packet
    ⟨s.bus.chip.file, s.nextPacketPtr, s.macaddr, s.masked⟩ = y := ⟨_, rfl⟩
  rw [hy] at hsim
  cases hsim with
  | some hstep =>
    refine ⟨hstep.bus.2, ?_⟩
    rw [hstep.bus.1]
    exact Logged.packetSend_flat hlen hy

/-! ## Transmissions and arrivals -/

/-- Bytes stored one after the other. -/
def storeAll (as : List (ℕ × UInt8)) (mem : ℕ → UInt8) : ℕ → UInt8 :=
  as.foldl (fun mem x => Function.update mem x.1 x.2) mem

theorem storeAll_of_notMem {as : List (ℕ × UInt8)} {mem : ℕ → UInt8} {a : ℕ}
    (h : a ∉ as.map Prod.fst) : storeAll as mem a = mem a := by
  induction as generalizing mem with
  | nil => rfl
  | cons x as ih =>
    rw [List.map_cons, List.mem_cons, not_or] at h
    exact (ih h.2).trans (Function.update_of_ne h.1 _ _)

/-- Of what is stored at an address the last is there. -/
theorem storeAll_last {as bs : List (ℕ × UInt8)} {a : ℕ} (x : UInt8) (mem : ℕ → UInt8)
    (h : a ∉ bs.map Prod.fst) : storeAll (as ++ (a, x) :: bs) mem a = x := by
  rw [storeAll, List.foldl_append]
  exact (storeAll_of_notMem h).trans (Function.update_self _ _ _)

/-- A driver with its chip, the length of the frame whose status is still to be written, and what
has arrived and not been read: the bytes by their addresses. -/
structure Station where
  sys : Sys (Cached (Banked Logged))
  sending : Option ℕ
  unread : ℕ → Option UInt8

namespace Station

def file (s : Station) : Logged := s.sys.bus.chip.file

def withFile (s : Station) (f : Logged) : Station :=
  { s with sys := { s.sys with
    bus := { s.sys.bus with chip := { s.sys.bus.chip with file := f } } } }

/-- Where the status of a frame goes: behind its last byte, and round the end of the memory. -/
def statusBytes (f : Logged) (status : Fin 7 → UInt8) : List (ℕ × UInt8) :=
  (List.finRange 7).map fun i : Fin 7 => ((f.chip.ptr Reg.etxndl + 1 + i) % 0x2000, status i)

/-- What waits to be read when more has arrived. -/
def arrived (bytes : List (ℕ × UInt8)) (unread : ℕ → Option UInt8) : ℕ → Option UInt8 :=
  bytes.foldl (fun u x => Function.update u x.1 (some x.2)) unread

inductive Event
  | send (polls : ℕ) (packet : List UInt8)
  /-- A frame has been sent, and the chip writes its status. -/
  | finished (status : Fin 7 → UInt8)
  /-- Bytes of frames are stored in the receive buffer. -/
  | arrive (bytes : List (ℕ × UInt8))
  /-- Bytes of frames have been read. -/
  | read (addrs : List ℕ)
  /-- The driver accesses a register, and the registers change, but for the end of the frame that
  is sent. -/
  | change (addr : ℕ) (chip : Chip)

/-- The registers of another chip, with the memory and the end of the frame of this one. -/
def changed (c new : Chip) : Chip :=
  { new with
    regs := fun a => if a = Reg.etxndl ∨ a = Reg.etxndh then c.regs a else new.regs a
    mem := c.mem }

def step (s : Station) : Event → Option Station
  | .send polls packet =>
    -- what the interface sends: at least a byte, at most an Ethernet header and 1500 bytes
    if 1 ≤ packet.length ∧ packet.length ≤ 1514 then
      (Sys.packetSend (Cached.bus (Banked.wire chipFile)) polls packet s.sys).map fun sys =>
        { s with sys, sending := some packet.length }
    else none
  | .finished status =>
    if s.sending.isSome then
      let bytes := statusBytes s.file status
      some { s.withFile ⟨{ s.file.chip with mem := storeAll bytes s.file.chip.mem },
          s.file.txWrites ++ bytes.map Prod.fst⟩ with sending := none }
    else none
  | .arrive bytes =>
    if ∀ x ∈ bytes, x.1 ≤ rxstopInit then
      some { s.withFile { s.file with
          chip := { s.file.chip with mem := storeAll bytes s.file.chip.mem } } with
        unread := arrived bytes s.unread }
    else none
  | .read addrs => some { s with unread := fun a => if a ∈ addrs then none else s.unread a }
  | .change addr chip =>
    let bus := Cached.setBank (Banked.wire chipFile) addr s.sys.bus
    let s := { s with sys := { s.sys with bus } }
    some (s.withFile { s.file with chip := changed s.file.chip chip })

/-- The bank is known; the memory of the chip and its registers may hold anything. -/
def start (chip : Chip) : Station :=
  ⟨⟨⟨⟨⟨chip, []⟩, 0⟩, 0⟩, 0, fun _ => 0, false⟩, none, fun _ => none⟩

def stations (chip : Chip) : Machine Station Event := ⟨start chip, step⟩

/-- All that was written for transmissions lies in the transmit buffer, and what has arrived is
there until it is read. -/
structure Intact (s : Station) : Prop where
  within : ∀ a ∈ s.file.txWrites, txstartInit ≤ a ∧ a ≤ 0x1FFF
  kept : ∀ a x, s.unread a = some x → s.file.chip.mem a = x

/-- The frame whose status is written has at most 1511 bytes. -/
def Short (s : Station) : Event → Prop
  | .finished _ => ∀ n ∈ s.sending, n ≤ 1511
  | _ => True

/-- What has arrived lies in the receive buffer, and is there unless it was written over for a
transmission; the end of a frame that is sent is known. -/
structure Inv (s : Station) : Prop where
  coherent : Coherent s.sys.bus
  region : ∀ a x, s.unread a = some x → a ≤ rxstopInit
  kept : ∀ a x, s.unread a = some x → a ∉ s.file.txWrites → s.file.chip.mem a = x
  etxnd : ∀ n ∈ s.sending, s.file.chip.ptr Reg.etxndl = txstartInit + n ∧ n ≤ 1514

/-- The addresses of transmissions. -/
def Within (as : List ℕ) : Prop := ∀ a ∈ as, txstartInit ≤ a ∧ a ≤ 0x1FFF

theorem within_append {as bs : List ℕ} : Within (as ++ bs) ↔ Within as ∧ Within bs :=
  List.forall_mem_append

variable {s t : Station}

/-- The receive buffer ends where the transmit buffer starts. -/
theorem Inv.intact_iff_within (h : Inv s) : Intact s ↔ Within s.file.txWrites := by
  refine ⟨Intact.within, fun hwithin => ⟨hwithin, fun a x hx => h.kept a x hx fun ha => ?_⟩⟩
  have hlow : a ≤ 6672 := h.region a x hx
  have hhigh : 6673 ≤ a := (hwithin a ha).1
  omega

theorem within_frame {n : ℕ} (h : n ≤ 1514) :
    Within ((List.range (n + 1)).map (txstartInit + ·)) := by
  intro a ha
  obtain ⟨i, hi, rfl⟩ := List.mem_map.mp ha
  have hlt := List.mem_range.mp hi
  have hstart : txstartInit = 6673 := rfl
  omega

/-- The status fits behind the frame exactly if the frame has at most 1511 bytes. -/
theorem within_status {f : Logged} {n : ℕ} (hetxnd : f.chip.ptr Reg.etxndl = txstartInit + n)
    (hn : n ≤ 1514) (status : Fin 7 → UInt8) :
    Within ((statusBytes f status).map Prod.fst) ↔ n ≤ 1511 := by
  have hstart : txstartInit = 6673 := rfl
  simp only [Within, statusBytes, List.map_map, List.mem_map, List.mem_finRange, true_and,
    Function.comp_apply, forall_exists_index, forall_apply_eq_imp_iff, hetxnd, hstart]
  constructor
  · intro hall
    have hlast := hall 6
    by_contra hlong
    have hsix : ((6 : Fin 7) : ℕ) = 6 := rfl
    rw [hsix] at hlast
    omega
  · intro hshort i
    have hlt := i.isLt
    omega

theorem Inv.send (h : Inv s) {polls : ℕ} {packet : List UInt8} {sys : Sys (Cached (Banked Logged))}
    (hlen : packet.length ≤ 1514)
    (hsend : Sys.packetSend (Cached.bus (Banked.wire chipFile)) polls packet s.sys = some sys) :
    Inv { s with sys, sending := some packet.length } ∧
      (Within sys.bus.chip.file.txWrites ↔ Within s.file.txWrites) := by
  obtain ⟨hcoherent, hloaded⟩ :=
    packetSend_banked h.coherent (hlen.trans (by decide)) hsend
  have hwrites : sys.bus.chip.file.txWrites =
      s.file.txWrites ++ (List.range (packet.length + 1)).map (txstartInit + ·) := hloaded.txWrites
  refine ⟨⟨hcoherent, h.region, fun a x hx ha => ?_, ?_⟩, ?_⟩
  · have hlow : a < txstartInit := Nat.lt_succ_of_le (h.region a x hx)
    have hbefore : a ∉ s.file.txWrites := fun hin => ha (hwrites ▸ List.mem_append_left _ hin)
    exact (hloaded.below a hlow).trans (h.kept a x hx hbefore)
  · intro n hn
    obtain rfl := Option.some.inj hn
    exact ⟨hloaded.etxnd, hlen⟩
  · rw [hwrites, within_append]
    exact and_iff_left (within_frame hlen)

/-- What is stored in the receive buffer has arrived, and is not read yet. -/
theorem kept_arrive {bytes : List (ℕ × UInt8)} {mem : ℕ → UInt8} {unread : ℕ → Option UInt8}
    {P : ℕ → Prop} (h : ∀ a x, unread a = some x → P a → mem a = x) :
    ∀ a x, arrived bytes unread a = some x → P a → storeAll bytes mem a = x := by
  induction bytes generalizing mem unread with
  | nil => exact h
  | cons y bytes ih =>
    refine ih fun a x hx ha => ?_
    dsimp only at hx ⊢
    by_cases heq : a = y.1
    · subst heq
      rw [Function.update_self] at hx ⊢
      exact Option.some.inj hx
    · rw [Function.update_of_ne heq] at hx ⊢
      exact h a x hx ha

theorem region_arrive {bytes : List (ℕ × UInt8)} {unread : ℕ → Option UInt8}
    (h : ∀ a x, unread a = some x → a ≤ rxstopInit) (hbytes : ∀ x ∈ bytes, x.1 ≤ rxstopInit) :
    ∀ a x, arrived bytes unread a = some x → a ≤ rxstopInit := by
  induction bytes generalizing unread with
  | nil => exact h
  | cons y bytes ih =>
    rw [List.forall_mem_cons] at hbytes
    refine ih (fun a x hx => ?_) hbytes.2
    dsimp only at hx
    by_cases heq : a = y.1
    · exact heq ▸ hbytes.1
    · rw [Function.update_of_ne heq] at hx
      exact h a x hx

theorem Inv.finished (h : Inv s) {status : Fin 7 → UInt8}
    (hstep : s.step (.finished status) = some t) :
    Inv t ∧ (Within t.file.txWrites ↔ Within s.file.txWrites ∧ Short s (.finished status)) := by
  simp only [Station.step] at hstep
  split_ifs at hstep with hsending
  obtain rfl := Option.some.inj hstep
  obtain ⟨n, hn⟩ := Option.isSome_iff_exists.mp hsending
  obtain ⟨hetxnd, hlen⟩ := h.etxnd n hn
  refine ⟨⟨h.coherent, h.region, fun a x hx ha => ?_, fun n hn => absurd hn (by simp)⟩, ?_⟩
  · have hnot : a ∉ s.file.txWrites ∧ a ∉ (statusBytes s.file status).map Prod.fst :=
      not_or.mp fun hin => ha (List.mem_append.mpr hin)
    exact (storeAll_of_notMem hnot.2).trans (h.kept a x hx hnot.1)
  · refine within_append.trans (and_congr_right fun _ => (within_status hetxnd hlen status).trans ?_)
    exact ⟨fun hshort m hm => Option.some.inj (hn.symm.trans hm) ▸ hshort, fun hall => hall n hn⟩

/-- What has been read does not matter any more. -/
theorem Inv.read (h : Inv s) (addrs : List ℕ) :
    Inv { s with unread := fun a => if a ∈ addrs then none else s.unread a } := by
  refine ⟨h.coherent, fun a x hx => ?_, fun a x hx ha => ?_, h.etxnd⟩
  · dsimp only at hx
    split_ifs at hx
    exact h.region a x hx
  · dsimp only at hx
    split_ifs at hx
    exact h.kept a x hx ha

/-- Selecting a bank and changing registers leaves the memory alone. -/
theorem Inv.change (h : Inv s) {addr : ℕ} {chip : Chip} (hstep : s.step (.change addr chip) = some t) :
    Inv t ∧ t.file.txWrites = s.file.txWrites := by
  obtain rfl := Option.some.inj hstep
  have hsame (heq : s.sys.bus.enc28j60bank = addr &&& 0x60) :
      32 * s.sys.bus.chip.bank = addr &&& 0x60 := h.coherent.symm.trans heq
  obtain ⟨hfile, hbank, hcache⟩ := setBank_banked (F := chipFile) hsame
  obtain ⟨x, hx⟩ : ∃ x, Cached.setBank (Banked.wire chipFile) addr s.sys.bus = x := ⟨_, rfl⟩
  rw [hx] at hfile hbank hcache
  have hkept : s.file = x.chip.file := hfile.symm
  simp only [hx]
  refine ⟨⟨hcache.trans hbank.symm, h.region, fun a y hy ha => ?_, fun n hn => ?_⟩, ?_⟩
  · have hbyte := h.kept a y hy
    rw [hkept] at hbyte
    exact hbyte ha
  · obtain ⟨hetxnd, hlen⟩ := h.etxnd n hn
    rw [hkept] at hetxnd
    exact ⟨hetxnd, hlen⟩
  · rw [hkept]
    rfl

/-- **One event.** -/
theorem Inv.step (h : Inv s) {e : Event} (hstep : s.step e = some t) :
    Inv t ∧ (Within t.file.txWrites ↔ Within s.file.txWrites ∧ Short s e) := by
  cases e with
  | send polls packet =>
    simp only [Station.step] at hstep
    split_ifs at hstep with hlen
    obtain ⟨sys, hsys, rfl⟩ := Option.map_eq_some_iff.mp hstep
    obtain ⟨hinv, hwithin⟩ := h.send hlen.2 hsys
    exact ⟨hinv, hwithin.trans (and_iff_left trivial).symm⟩
  | finished status => exact h.finished hstep
  | arrive bytes =>
    simp only [Station.step] at hstep
    split_ifs at hstep with hbytes
    obtain rfl := Option.some.inj hstep
    exact ⟨⟨h.coherent, region_arrive h.region hbytes, kept_arrive h.kept, h.etxnd⟩,
      (and_iff_left trivial).symm⟩
  | read addrs =>
    obtain rfl := Option.some.inj hstep
    exact ⟨h.read addrs, (and_iff_left trivial).symm⟩
  | change addr chip =>
    obtain ⟨hinv, hwrites⟩ := h.change hstep
    rw [hwrites]
    exact ⟨hinv, (and_iff_left trivial).symm⟩

theorem inv_start (chip : Chip) : Inv (start chip) where
  coherent := by
    have hbank : (0 : ℕ) = 32 * ((0 : UInt8) &&& 0x03).toNat := by decide
    exact hbank
  region a x hx := absurd hx (by simp [start])
  kept a x hx := absurd hx (by simp [start])
  etxnd n hn := absurd hn (by simp [start])

/-- **Transmission.** After every run, what was written for transmissions lies in the transmit
buffer and no byte that waits to be read has changed exactly if every frame whose status was
written had at most 1511 bytes. -/
theorem intact_iff {chip : Chip} {es : List Event}
    (h : (stations chip).run (start chip) es = some t) :
    Intact t ↔ (stations chip).Exec Short (start chip) es t := by
  have hexec := Machine.exec_of_run h
  have hinv : Inv t := hexec.invariant (inv_start chip) fun s e t hs _ hstep => (hs.step hstep).1
  rw [hinv.intact_iff_within]
  exact Machine.iff_exec (P := fun s => Within s.file.txWrites) (I := Inv) h
    (fun a ha => absurd ha List.not_mem_nil) (inv_start chip)
    (fun s e t hs hstep => (hs.step hstep).1) fun s e t hs hstep => (hs.step hstep).2

/-! ## Runs -/

/-- The driver finds TXRTS as it is on the chip. -/
theorem read_txrts (f : Logged) :
    (chipFile.bus.read Reg.econ1 f).1 &&& 0x08 = f.chip.econ1 &&& 0x08 := by
  have hread : (chipFile.bus.read Reg.econ1 f).1 = (f.chip.econ1 &&& 0xFC) ||| 0 := rfl
  rw [hread, UInt8.or_zero, UInt8.and_assoc]
  rfl

/-- While nothing is being sent a frame is sent. -/
theorem step_send (h : Inv s) (hidle : s.file.chip.econ1 &&& 0x08 = 0) (polls : ℕ)
    {packet : List UInt8} (hlen : 1 ≤ packet.length ∧ packet.length ≤ 1514) :
    ∃ sys, s.step (.send (polls + 1) packet) =
      some { s with sys, sending := some packet.length } := by
  have hsim := (sim_flat chipFile).sysPacketSend
    (t := ⟨s.file, s.sys.nextPacketPtr, s.sys.macaddr, s.sys.masked⟩)
    ⟨⟨rfl, h.coherent⟩, rfl, rfl, rfl⟩ (polls + 1) packet (hlen.2.trans (by decide))
  have hflat : (Sys.packetSend chipFile.bus (polls + 1) packet
      ⟨s.file, s.sys.nextPacketPtr, s.sys.macaddr, s.sys.masked⟩).isSome := by
    rw [Sys.packetSend, Option.isSome_map, Sys.waitWhile, if_neg]
    · rfl
    · exact not_not.mpr ((read_txrts s.file).trans hidle)
  obtain ⟨y, hy⟩ := Option.isSome_iff_exists.mp hflat
  rw [hy] at hsim
  simp only [step, if_pos hlen]
  generalize Sys.packetSend (Cached.bus (Banked.wire chipFile)) (polls + 1) packet s.sys = x at *
  cases hsim with
  | some _ => exact ⟨_, rfl⟩

/-- The fifth byte of the status of the longest frame goes to address 0. -/
theorem storeAll_longest {f : Logged} (h : f.chip.ptr Reg.etxndl = txstartInit + 1514)
    (status : Fin 7 → UInt8) (mem : ℕ → UInt8) :
    storeAll (statusBytes f status) mem 0 = status 4 := by
  have hbytes : statusBytes f status =
      [(0x1FFC, status 0), (0x1FFD, status 1), (0x1FFE, status 2), (0x1FFF, status 3)] ++
        (0, status 4) :: [(1, status 5), (2, status 6)] := by
    rw [statusBytes, h]
    rfl
  have hbehind : 0 ∉ [(1, status 5), (2, status 6)].map Prod.fst := by simp
  rw [hbytes]
  exact storeAll_last _ _ hbehind

/-- A chip that sends nothing, with zeros in its registers and its memory. -/
def quiet : Chip := ⟨0, 0, 0, 0, 0, fun _ => 0, fun _ => 0⟩

/-- A byte of a frame arrives at the beginning of the memory. -/
theorem step_arrive : ∃ s, (start quiet).step (.arrive [(0, 0x55)]) = some s ∧
    s.file.chip.econ1 &&& 0x08 = 0 ∧ s.unread 0 = some 0x55 := by
  have hlow : ∀ x ∈ [((0 : ℕ), (0x55 : UInt8))], x.1 ≤ rxstopInit := by decide
  simp only [step]
  rw [if_pos hlow]
  exact ⟨_, rfl, rfl, rfl⟩

/-- While it waits to be read a short frame is sent, and its status is written behind it. -/
theorem intact_after_short_frame :
    ∃ t, (stations quiet).run (start quiet)
        [.arrive [(0, 0x55)], .send 1 [1, 2, 3], .finished fun _ => 0x80] = some t ∧
      t.unread 0 = some 0x55 ∧ Intact t := by
  obtain ⟨s, hs, hidle, hunread⟩ := step_arrive
  have hlen : 1 ≤ ([1, 2, 3] : List UInt8).length ∧ ([1, 2, 3] : List UInt8).length ≤ 1514 := by
    decide
  obtain ⟨sys, hsend⟩ := step_send ((inv_start quiet).step hs).1 hidle 0 hlen
  have hexec : (stations quiet).Exec Short (start quiet)
      [.arrive [(0, 0x55)], .send 1 [1, 2, 3], .finished fun _ => 0x80] _ :=
    .snoc (.snoc (.snoc .nil trivial hs) trivial hsend)
      (fun n hn => Option.some.inj hn ▸ by decide) rfl
  exact ⟨_, hexec.run_eq, hunread, (intact_iff hexec.run_eq).mpr hexec⟩

/-- The status of the longest frame goes on at the beginning of the memory, over the first byte
of a frame that has arrived there. -/
theorem not_intact_after_longest_frame :
    ¬ ∀ (chip : Chip) (es : List Event) (t : Station),
      (stations chip).run (start chip) es = some t → Intact t := by
  intro hall
  obtain ⟨packet, hlong⟩ : ∃ packet : List UInt8, packet.length = 1514 :=
    ⟨List.replicate 1514 0, List.length_replicate⟩
  have hlen : 1 ≤ packet.length ∧ packet.length ≤ 1514 := by omega
  obtain ⟨s, hs, hidle, hunread⟩ := step_arrive
  have hinv := ((inv_start quiet).step hs).1
  obtain ⟨sys, hsend⟩ := step_send hinv hidle 0 hlen
  have hetxnd := ((hinv.step hsend).1.etxnd packet.length rfl).1.trans
    (congrArg (txstartInit + ·) hlong)
  have hexec : (stations quiet).Exec Machine.Any (start quiet)
      [.arrive [(0, 0x55)], .send 1 packet, .finished fun _ => 0x80] _ :=
    .snoc (.snoc (.snoc .nil trivial hs) trivial hsend) trivial rfl
  have hkept := (hall _ _ _ hexec.run_eq).kept 0 0x55 hunread
  have hlost := storeAll_longest hetxnd (fun _ => 0x80) sys.bus.chip.file.chip.mem
  exact absurd (hlost.symm.trans hkept) (by decide)

end Station

end FanGateway.Enc28j60
