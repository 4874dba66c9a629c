import FanGateway.Enc28j60.Bus
import FanGateway.Enc28j60.Init

/-!
# One driver on two buses

Two buses may answer alike although what is behind them differs. If every access the
driver makes keeps them in step, every function of the driver does, and returns the
same on both.

After a reset the buses may be less closely in step, until the first read, which is
that of ESTAT.
-/

namespace FanGateway.Enc28j60

variable {σ τ : Type*}

/-- The registers of MAC and MII. -/
def MacOrMii (bank a : ℕ) : Prop := a < 0x1B ∧ (bank = 2 ∨ bank = 3 ∧ (a ≤ 0x05 ∨ a = 0x0A))

instance (bank a : ℕ) : Decidable (MacOrMii bank a) := inferInstanceAs (Decidable (_ ∧ _))

/-- The addresses that have names: bit 7 is set for the registers of MAC and MII. -/
def Symbolic (addr : ℕ) : Prop :=
  addr &&& 0x80 ≠ 0 ↔ MacOrMii ((addr &&& 0x60) >>> 5) (addr &&& 0x1F)

instance (addr : ℕ) : Decidable (Symbolic addr) := inferInstanceAs (Decidable (_ ↔ _))

/-- A write that leaves the bank bits of ECON1 as the address selects them. -/
def KeepsBank (addr : ℕ) (data : UInt8) : Prop :=
  addr &&& 0x1F = 0x1F → data &&& (0x03 : UInt8) = UInt8.ofNat ((addr &&& 0x60) >>> 5)

instance (addr : ℕ) (data : UInt8) : Decidable (KeepsBank addr data) :=
  inferInstanceAs (Decidable (_ → _))

theorem keepsBank_of_ne {addr : ℕ} (h : addr &&& 0x1F ≠ 0x1F) (data : UInt8) :
    KeepsBank addr data := fun heq => absurd heq h

/-- Bits of a common register; of ECON1 only RXEN or TXRTS. -/
def CommonBits (addr : ℕ) (data : UInt8) : Prop :=
  0x1B ≤ addr ∧ addr ≤ 0x1F ∧ (addr = 0x1F → data = 0x04 ∨ data = 0x08)

instance (addr : ℕ) (data : UInt8) : Decidable (CommonBits addr data) :=
  inferInstanceAs (Decidable (_ ∧ _ ∧ _))

/-- The same answer, and states in step. -/
def Alike {α : Type*} (R : σ → τ → Prop) (x : α × σ) (y : α × τ) : Prop := x.1 = y.1 ∧ R x.2 y.2

/-- Two buses that stay in step, `Fresh` being what is left of it after a reset. -/
structure Bus.Sim (I : Bus σ) (J : Bus τ) (R Fresh : σ → τ → Prop) : Prop where
  reset : ∀ s t, R s t → Fresh (I.reset s) (J.reset t)
  softReset : ∀ s t, Fresh s t → Fresh (I.writeOp .softReset 0 0xFF s) (J.writeOp .softReset 0 0xFF t)
  first : ∀ s t, Fresh s t → Alike R (I.read Reg.estat s) (J.read Reg.estat t)
  read : ∀ addr s t, Symbolic addr → R s t → Alike R (I.read addr s) (J.read addr t)
  write : ∀ addr v s t, KeepsBank addr v → R s t → R (I.write addr v s) (J.write addr v t)
  setBank : ∀ addr s t, R s t → R (I.setBank addr s) (J.setBank addr t)
  readBuf : ∀ s t, R s t → Alike R (I.readOp .readBufMem 0 s) (J.readOp .readBufMem 0 t)
  writeBuf : ∀ v s t, R s t → R (I.writeOp .writeBufMem 0 v s) (J.writeOp .writeBufMem 0 v t)
  setBits : ∀ addr v s t, CommonBits addr v → R s t →
    R (I.writeOp .bitFieldSet addr v s) (J.writeOp .bitFieldSet addr v t)
  clearBits : ∀ addr v s t, CommonBits addr v → R s t →
    R (I.writeOp .bitFieldClr addr v s) (J.writeOp .bitFieldClr addr v t)

/-- Drivers in step. -/
structure Sys.InStep (R : σ → τ → Prop) (s : Sys σ) (t : Sys τ) : Prop where
  bus : R s.bus t.bus
  nextPacketPtr : s.nextPacketPtr = t.nextPacketPtr
  macaddr : s.macaddr = t.macaddr
  masked : s.masked = t.masked

theorem Sys.InStep.ite {R : σ → τ → Prop} {s s' : Sys σ} {t t' : Sys τ} (p : Prop) [Decidable p]
    (h : InStep R s t) (h' : InStep R s' t') :
    InStep R (if p then s else s') (if p then t else t') := by
  split_ifs
  · exact h
  · exact h'

namespace Bus.Sim

open Sys

variable {I : Bus σ} {J : Bus τ} {R Fresh : σ → τ → Prop} {s : Sys σ} {t : Sys τ} {v : UInt8}
  {addr : ℕ}

section Accesses

variable (h : Bus.Sim I J R Fresh) (hs : InStep R s t)
include h hs

theorem sysRead (addr : ℕ) (haddr : Symbolic addr) :
    Alike (InStep R) (Sys.read I addr s) (Sys.read J addr t) :=
  have hread := h.read addr _ _ haddr hs.bus
  ⟨hread.1, hread.2, hs.nextPacketPtr, hs.macaddr, hs.masked⟩

theorem sysWrite (addr : ℕ) (hkeeps : KeepsBank addr v) :
    InStep R (Sys.write I addr v s) (Sys.write J addr v t) :=
  ⟨h.write addr v _ _ hkeeps hs.bus, hs.nextPacketPtr, hs.macaddr, hs.masked⟩

/-- ECON1 is not written as a whole. -/
theorem sysWriteOther (addr : ℕ) (v : UInt8) (haddr : addr &&& 0x1F ≠ 0x1F) :
    InStep R (Sys.write I addr v s) (Sys.write J addr v t) :=
  h.sysWrite hs addr (keepsBank_of_ne haddr v)

theorem sysSetBank (addr : ℕ) : InStep R { s with bus := I.setBank addr s.bus }
    { t with bus := J.setBank addr t.bus } :=
  ⟨h.setBank addr _ _ hs.bus, hs.nextPacketPtr, hs.macaddr, hs.masked⟩

theorem sysReadByte :
    Alike (InStep R) (Sys.readOp I .readBufMem 0 s) (Sys.readOp J .readBufMem 0 t) :=
  have hread := h.readBuf _ _ hs.bus
  ⟨hread.1, hread.2, hs.nextPacketPtr, hs.macaddr, hs.masked⟩

theorem sysWriteByte (v : UInt8) :
    InStep R (Sys.writeOp I .writeBufMem 0 v s) (Sys.writeOp J .writeBufMem 0 v t) :=
  ⟨h.writeBuf v _ _ hs.bus, hs.nextPacketPtr, hs.macaddr, hs.masked⟩

theorem sysSet (addr : ℕ) (hbits : CommonBits addr v) :
    InStep R (Sys.writeOp I .bitFieldSet addr v s) (Sys.writeOp J .bitFieldSet addr v t) :=
  ⟨h.setBits addr v _ _ hbits hs.bus, hs.nextPacketPtr, hs.macaddr, hs.masked⟩

theorem sysClear (addr : ℕ) (hbits : CommonBits addr v) :
    InStep R (Sys.writeOp I .bitFieldClr addr v s) (Sys.writeOp J .bitFieldClr addr v t) :=
  ⟨h.clearBits addr v _ _ hbits hs.bus, hs.nextPacketPtr, hs.macaddr, hs.masked⟩

/-! ## The functions of the driver -/

theorem sysReadBuf (len : ℕ) : Alike (InStep R) (Sys.readBuf I len s) (Sys.readBuf J len t) := by
  -- induction on the bytes that are left
  induction len generalizing s t with
  | zero => exact ⟨rfl, hs⟩
  | succ len ih =>
    obtain ⟨hbyte, hnext⟩ := h.sysReadByte hs
    obtain ⟨hbytes, hlast⟩ := ih hnext
    exact ⟨congrArg₂ List.cons hbyte hbytes, hlast⟩

theorem sysWriteBuf (xs : List UInt8) :
    InStep R (Sys.writeBuf I xs s) (Sys.writeBuf J xs t) := by
  induction xs generalizing s t with
  | nil => exact hs
  | cons x xs ih => exact ih (h.sysWriteByte hs x)

theorem sysWaitWhile (addr : ℕ) (haddr : Symbolic addr) (mask : UInt8) (polls : ℕ) :
    Option.Rel (InStep R) (Sys.waitWhile I addr mask polls s)
      (Sys.waitWhile J addr mask polls t) := by
  induction polls generalizing s t with
  | zero => exact .none
  | succ polls ih =>
    obtain ⟨hvalue, hnext⟩ := h.sysRead hs addr haddr
    simp only [Sys.waitWhile, hvalue]
    split_ifs
    · exact ih hnext
    · exact .some hnext

theorem sysPhyWait (retry : ℕ) : InStep R (Sys.phyWait I retry s) (Sys.phyWait J retry t) := by
  induction retry generalizing s t with
  | zero => exact (h.sysRead hs _ (by decide)).2
  | succ retry ih =>
    obtain ⟨hvalue, hnext⟩ := h.sysRead hs Reg.mistat (by decide)
    simp only [Sys.phyWait, hvalue]
    split_ifs
    · exact ih hnext
    · exact hnext

theorem sysPhyWrite (a : UInt8) (data : ℕ) :
    InStep R (Sys.phyWrite I a data s) (Sys.phyWrite J a data t) := by
  have hregadr := h.sysWriteOther hs Reg.miregadr a (by decide)
  have hlow := h.sysWriteOther hregadr Reg.miwrl (UInt8.ofNat data) (by decide)
  have hhigh := h.sysWriteOther hlow Reg.miwrh (UInt8.ofNat (data >>> 8)) (by decide)
  exact h.sysPhyWait hhigh _

theorem sysPhyRead (a : UInt8) :
    Alike (InStep R) (Sys.phyRead I a s) (Sys.phyRead J a t) := by
  obtain ⟨htemp, hnext⟩ := h.sysRead hs Reg.micmd (by decide)
  have hregadr := h.sysWriteOther hnext Reg.miregadr a (by decide)
  have hstart := h.sysWriteOther hregadr Reg.micmd ((Sys.read J Reg.micmd t).1 ||| 0x01) (by decide)
  have hwait := h.sysPhyWait hstart 0xFFFF
  have hdone := h.sysWriteOther hwait Reg.micmd ((Sys.read J Reg.micmd t).1 &&& ~~~0x01) (by decide)
  obtain ⟨hlow, hnext⟩ := h.sysRead hdone Reg.mirdl (by decide)
  obtain ⟨hhigh, hlast⟩ := h.sysRead hnext Reg.mirdh (by decide)
  simp only [Sys.phyRead, htemp]
  exact ⟨by rw [hlow, hhigh], hlast⟩

theorem sysConfigure : InStep R (Sys.configure I s) (Sys.configure J t) := by
  -- the address that is written is the same
  obtain ⟨sbus, next, mac, masked⟩ := s
  obtain ⟨tbus, next', mac', masked'⟩ := t
  obtain rfl : mac = mac' := hs.macaddr
  obtain ⟨-, hnext⟩ := h.sysRead hs Reg.erevid (by decide)
  have hstart : InStep R { (Sys.read I Reg.erevid ⟨sbus, next, mac, masked⟩).2 with
        nextPacketPtr := 0 }
      { (Sys.read J Reg.erevid ⟨tbus, next', mac, masked'⟩).2 with nextPacketPtr := 0 } :=
    ⟨hnext.bus, rfl, rfl, hnext.masked⟩
  -- the registers of the set-up, one after the other
  have hfold (ws : List (ℕ × UInt8)) (hws : ∀ w ∈ ws, w.1 &&& 0x1F < 0x1B) {s : Sys σ} {t : Sys τ}
      (hs : InStep R s t) : InStep R (ws.foldl (fun s w => Sys.write I w.1 w.2 s) s)
        (ws.foldl (fun t w => Sys.write J w.1 w.2 t) t) := by
    induction ws generalizing s t with
    | nil => exact hs
    | cons w ws ih =>
      rw [List.forall_mem_cons] at hws
      exact ih hws.2 (h.sysWriteOther hs w.1 w.2 (by omega))
  have hsetup := hfold (Driver.setup mac) (Driver.setup_banked _) hstart
  have hphy := h.sysPhyWrite (h.sysPhyWrite hsetup 0x00 0x0100) 0x10 0x0100
  have heie := h.sysSet (h.sysSetBank hphy Reg.econ1) Reg.eie
    (v := 0x80 ||| 0x40 ||| 0x08 ||| 0x02 ||| 0x01) (by decide)
  have hecon1 := h.sysSet heie Reg.econ1 (v := 0x04) (by decide)
  exact (h.sysPhyRead hecon1 0x00).2

theorem sysReadWord : Alike (InStep R) (Sys.readWord I s) (Sys.readWord J t) := by
  obtain ⟨hlow, hnext⟩ := h.sysReadByte hs
  obtain ⟨hhigh, hlast⟩ := h.sysReadByte hnext
  exact ⟨by simp only [Sys.readWord, hlow, hhigh], hlast⟩

theorem sysWriteNext (l : ℕ) (hlow : l &&& 0x1F ≠ 0x1F) (hhigh : (l + 1) &&& 0x1F ≠ 0x1F) :
    InStep R (Sys.writeNext I l s) (Sys.writeNext J l t) := by
  simp only [Sys.writeNext, hs.nextPacketPtr]
  exact h.sysWriteOther (h.sysWriteOther hs l _ hlow) (l + 1) _ hhigh

theorem sysReadPacket (len : ℕ) : Alike (InStep R)
    (Received.mk len ((Sys.readBuf I len s).1 ++ [0]), (Sys.readBuf I len s).2)
    (Received.mk len ((Sys.readBuf J len t).1 ++ [0]), (Sys.readBuf J len t).2) := by
  obtain ⟨hdata, hlast⟩ := h.sysReadBuf hs len
  exact ⟨by rw [hdata], hlast⟩

theorem sysReadFrame (maxlen : ℕ) :
    Alike (InStep R) (Sys.readFrame I maxlen s) (Sys.readFrame J maxlen t) := by
  obtain ⟨hnext, hs₁⟩ := h.sysReadWord hs
  have hs₂ : InStep R { (Sys.readWord I s).2 with nextPacketPtr := (Sys.readWord I s).1 }
      { (Sys.readWord J t).2 with nextPacketPtr := (Sys.readWord J t).1 } :=
    ⟨hs₁.bus, hnext, hs₁.macaddr, hs₁.masked⟩
  obtain ⟨hcount, hs₃⟩ := h.sysReadWord hs₂
  obtain ⟨hrxstat, hs₄⟩ := h.sysReadWord hs₃
  simp only [Sys.readFrame, hcount, hrxstat]
  by_cases hvalid : (Sys.readWord J (Sys.readWord J { (Sys.readWord J t).2 with
      nextPacketPtr := (Sys.readWord J t).1 }).2).1 &&& 0x80 = 0
  · rw [if_pos hvalid, if_pos hvalid]
    exact ⟨rfl, hs₄⟩
  · rw [if_neg hvalid, if_neg hvalid]
    exact h.sysReadPacket hs₄ _

theorem sysRxError : InStep R (Sys.rxError I s) (Sys.rxError J t) := by
  have hclear := h.sysClear hs Reg.eir (v := 0x01) (by decide)
  obtain ⟨-, hcount⟩ := h.sysRead hclear Reg.epktcnt (by decide)
  obtain ⟨hhigh, hs₁⟩ := h.sysRead hcount Reg.erxrdpth (by decide)
  obtain ⟨hlow, hs₂⟩ := h.sysRead hs₁ Reg.erxrdptl (by decide)
  simp only [Sys.rxError, hhigh, hlow]
  exact h.sysSet (h.sysWriteOther (h.sysWriteOther hs₂ Reg.erxrdptl _ (by decide)) Reg.erxrdpth _
    (by decide)) Reg.econ2 (by decide)

theorem sysTxError : InStep R (Sys.txError I s) (Sys.txError J t) := by
  have hflag := h.sysClear hs Reg.eir (v := 0x02) (by decide)
  exact h.sysClear hflag Reg.estat (by decide)

theorem sysOtherFlags (status : UInt8) :
    InStep R (Sys.otherFlags I status s) (Sys.otherFlags J status t) := by
  have hclear := h.sysClear hs Reg.eir (v := 0x08) (by decide)
  have hsent := InStep.ite (status &&& 0x08 ≠ 0) hclear hs
  have hreceived := InStep.ite (status &&& 0x01 ≠ 0) (h.sysRxError hsent) hsent
  have hfailed := InStep.ite (status &&& 0x02 ≠ 0) (h.sysTxError hreceived) hreceived
  exact h.sysSet hfailed Reg.eie (by decide)

end Accesses

/-- A wait that ends on one bus ends on the other. -/
theorem rel_map {α β γ δ : Type*} {r : α → β → Prop} {q : γ → δ → Prop} {x : Option α}
    {y : Option β} {f : α → γ} {g : β → δ} (h : Option.Rel r x y)
    (hfg : ∀ a b, r a b → q (f a) (g b)) : Option.Rel q (x.map f) (y.map g) := by
  cases h with
  | none => exact .none
  | some hab => exact .some (hfg _ _ hab)

section Functions

variable (h : Bus.Sim I J R Fresh)
include h

/-- Once the first read has brought the buses in step, the clock is waited for alike. -/
theorem sysWaitClock (retry : ℕ)
    (hfirst : Alike (InStep R) (Sys.read I Reg.estat s) (Sys.read J Reg.estat t)) :
    Alike (InStep R) (Sys.waitClock I retry s) (Sys.waitClock J retry t) := by
  obtain ⟨hvalue, hnext⟩ := hfirst
  induction retry generalizing s t with
  | zero => exact ⟨rfl, hnext⟩
  | succ retry ih =>
    simp only [Sys.waitClock, hvalue]
    split_ifs
    · obtain ⟨hvalue', hnext'⟩ := h.sysRead hnext Reg.estat (by decide)
      exact ih hvalue' hnext'
    · exact ⟨rfl, hnext⟩

/-- What follows the wait. -/
theorem sysClocked {x : Bool × Sys σ} {y : Bool × Sys τ} (hxy : Alike (InStep R) x y) :
    Alike (InStep R) (if x.1 then (0, Sys.configure I x.2) else (1, x.2))
      (if y.1 then (0, Sys.configure J y.2) else (1, y.2)) := by
  obtain ⟨hclock, hlast⟩ := hxy
  rw [hclock]
  split_ifs
  · exact ⟨rfl, h.sysConfigure hlast⟩
  · exact ⟨rfl, hlast⟩

theorem sysInit (hs : InStep R s t) (temp : ℕ) :
    Alike (InStep R) (Sys.init I temp s) (Sys.init J temp t) := by
  have hreset := h.softReset _ _ (h.reset _ _ hs.bus)
  obtain ⟨hvalue, hfirst⟩ := h.first _ _ hreset
  exact h.sysClocked (h.sysWaitClock 250 ⟨hvalue, hfirst, hs.nextPacketPtr, rfl, hs.masked⟩)

/-- A failed transmission is taken back. -/
theorem sysFailed {x : UInt8 × Sys σ} {y : UInt8 × Sys τ} (hxy : Alike (InStep R) x y) :
    InStep R
      (if x.1 &&& 0x02 ≠ 0 then Sys.writeOp I .bitFieldClr Reg.econ1 0x08 x.2 else x.2)
      (if y.1 &&& 0x02 ≠ 0 then Sys.writeOp J .bitFieldClr Reg.econ1 0x08 y.2 else y.2) := by
  obtain ⟨hflags, hread⟩ := hxy
  rw [hflags]
  exact InStep.ite _ (h.sysClear hread Reg.econ1 (by decide)) hread

theorem sysLoadFrame (hs : InStep R s t) (packet : List UInt8) :
    InStep R (Sys.loadFrame I packet s) (Sys.loadFrame J packet t) := by
  have hewrpt := h.sysWriteOther (h.sysWriteOther hs Reg.ewrptl (UInt8.ofNat txstartInit)
    (by decide)) Reg.ewrpth (UInt8.ofNat (txstartInit >>> 8)) (by decide)
  have hetxnd := h.sysWriteOther (h.sysWriteOther hewrpt Reg.etxndl
    (UInt8.ofNat (txstartInit + packet.length)) (by decide)) Reg.etxndh
    (UInt8.ofNat ((txstartInit + packet.length) >>> 8)) (by decide)
  exact h.sysWriteBuf (h.sysWriteByte hetxnd 0x00) packet

/-- No bank is selected for the registers of frames that are too long. -/
theorem sysPacketSend (hs : InStep R s t) (polls : ℕ) (packet : List UInt8)
    (hlen : packet.length ≤ maxFramelen) :
    Option.Rel (InStep R) (Sys.packetSend I polls packet s) (Sys.packetSend J polls packet t) := by
  have hstart : InStep R { s with masked := true } { t with masked := true } :=
    ⟨hs.bus, hs.nextPacketPtr, hs.macaddr, rfl⟩
  refine rel_map (h.sysWaitWhile hstart Reg.econ1 (by decide) 0x08 polls) fun s' t' hs' => ?_
  simp only [if_neg (Nat.not_lt.mpr hlen), hs.masked]
  have hsent := h.sysSet (h.sysLoadFrame hs' packet) Reg.econ1 (v := 0x08) (by decide)
  have hlast := h.sysFailed (h.sysRead hsent Reg.eir (by decide))
  exact ⟨hlast.bus, hlast.nextPacketPtr, hlast.macaddr, rfl⟩

theorem sysPacketReceive (hs : InStep R s t) (polls maxlen : ℕ) :
    Option.Rel (Alike (InStep R)) (Sys.packetReceive I polls maxlen s)
      (Sys.packetReceive J polls maxlen t) := by
  have hstart : InStep R { s with masked := true } { t with masked := true } :=
    ⟨hs.bus, hs.nextPacketPtr, hs.macaddr, rfl⟩
  obtain ⟨hcount, hs₁⟩ := h.sysRead hstart Reg.epktcnt (by decide)
  simp only [Sys.packetReceive, hcount, hs.masked]
  split_ifs
  · exact .some ⟨rfl, hs₁⟩
  · refine rel_map (h.sysWaitWhile hs₁ Reg.estat (by decide) 0x04 polls) fun s' t' hs' => ?_
    obtain ⟨hpacket, hs₂⟩ := h.sysReadFrame
      (h.sysWriteNext hs' Reg.erdptl (by decide) (by decide)) maxlen
    have hrelease := h.sysWriteNext hs₂ Reg.erxrdptl (by decide) (by decide)
    have hlast := h.sysSet hrelease Reg.econ2 (v := 0x40) (by decide)
    exact ⟨hpacket, hlast.bus, hlast.nextPacketPtr, hlast.macaddr, rfl⟩

theorem sysPktHandle (hs : InStep R s t) (mymalloc : Bool) (polls : ℕ) :
    Option.Rel (Alike (InStep R)) (Sys.pktHandle I mymalloc polls s)
      (Sys.pktHandle J mymalloc polls t) := by
  rw [Sys.pktHandle, Sys.pktHandle]
  split_ifs
  · refine rel_map (h.sysPacketReceive hs polls maxFramelen) fun x y hxy => ?_
    exact ⟨congrArg some hxy.1, hxy.2⟩
  · exact .some ⟨rfl, hs⟩

theorem sysIsrHandler (hs : InStep R s t) {α : Type*} {f : Sys σ → Option (α × Sys σ)}
    {g : Sys τ → Option (α × Sys τ)}
    (hfg : ∀ s t, InStep R s t → Option.Rel (Alike (InStep R)) (f s) (g t)) :
    Option.Rel (Alike (InStep R)) (Sys.isrHandler I f s) (Sys.isrHandler J g t) := by
  obtain ⟨hstatus, hs₁⟩ := h.sysRead (h.sysClear hs Reg.eie (v := 0x80) (by decide)) Reg.eir
    (by decide)
  simp only [Sys.isrHandler, hstatus]
  refine rel_map (r := Alike (InStep R)) ?_ fun x y hxy =>
    ⟨hxy.1, h.sysOtherFlags hxy.2 _⟩
  split_ifs
  · refine rel_map (hfg _ _ (h.sysClear hs₁ Reg.eir (by decide))) fun x y hxy => ?_
    exact ⟨congrArg some hxy.1, hxy.2⟩
  · exact .some ⟨rfl, hs₁⟩

end Functions

end Bus.Sim

end FanGateway.Enc28j60
