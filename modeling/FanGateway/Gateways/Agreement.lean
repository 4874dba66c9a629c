import FanGateway.Arm.Payload
import FanGateway.Gateways.Checksum
import FanGateway.Stm32.Polling

/-!
# The two gateways publish the same data

One gateway takes a reply byte by byte into a buffer that still holds the end of
older ones, knows its length from the address alone and copies through an array
of its own. The other takes it whole, believes its length and copies directly.
Fed with the same replies, valid or not, both keep the data area that the
replies themselves describe: a valid reply replaces its slave's block, any other
changes nothing.
-/

namespace FanGateway.Gateways

open Lib Modbus

/-! ## Replies and the data they describe -/

/-- A reply as it is received: the header of a slave, any data, and any two bytes in the
place of the checksum. -/
structure Answer where
  slave : Slave
  data : Payload slave
  crcHi : UInt8
  crcLo : UInt8

namespace Answer

/-- The bytes of the reply, in the order they arrive. -/
def bytes (a : Answer) : List UInt8 := replyBody a.slave a.data ++ [a.crcHi, a.crcLo]

/-- The checksum of the reply is right. -/
def Valid (a : Answer) : Prop :=
  [a.crcHi, a.crcLo] = Crc.bytes (Crc.swapBytes (modbusCrc (replyBody a.slave a.data)))

instance (a : Answer) : Decidable a.Valid := inferInstanceAs (Decidable (_ = _))

/-- The data area after a reply. -/
def update (area : ℕ → UInt8) (a : Answer) (j : ℕ) : UInt8 :=
  if a.Valid ∧ a.slave.InBlock j then a.data.peek (j - a.slave.start) else area j

variable {a : Answer} {m : ℕ} {b : Buffer UInt8 m}

@[simp] theorem length_bytes : a.bytes.length = a.slave.replyLength := by
  simp [bytes, Slave.replyLength]

/-- What a buffer holds in which the reply has been stored. -/
theorem peek_of_received (h : b.slice 0 a.slave.replyLength = a.bytes) :
    b.peek 0 = a.slave.addr ∧ b.peek 1 = 3 ∧ (b.peek 2).toNat = a.slave.size ∧
      ∀ i < a.slave.size, b.peek (i + 3) = a.data.peek i := by
  have hcell {i : ℕ} {x : UInt8} (hi : i < a.slave.size + 3)
      (hx : (replyBody a.slave a.data)[i]? = some x) : b.peek i = x := by
    have hstored : (b.slice 0 a.slave.replyLength)[i]? = some (b.peek i) := by
      rw [Buffer.getElem?_slice, if_pos (by rw [Slave.replyLength]; omega), Nat.zero_add]
    rw [h, bytes, List.getElem?_append_left (by rw [length_replyBody]; exact hi)] at hstored
    exact Option.some.inj (hstored.symm.trans hx)
  have hcount : b.peek 2 = UInt8.ofNat a.slave.size := hcell (by omega) rfl
  refine ⟨hcell (by omega) rfl, hcell (by omega) rfl, ?_, ?_⟩
  · rw [hcount]
    cases a.slave <;> rfl
  · intro i hi
    exact hcell (by omega) (getElem?_replyBody_data hi)

/-- The checksum test on a buffer in which the reply has been stored. -/
theorem crcMatches_iff_valid (h : b.slice 0 a.slave.replyLength = a.bytes) :
    Stm32.CrcMatches b a.slave.replyLength ↔ a.Valid := by
  have hlength : (replyBody a.slave a.data).length + 2 = a.slave.replyLength := by
    rw [length_replyBody, Slave.replyLength]
  rw [← hlength] at h ⊢
  rw [crcMatches_iff_trailer h, stm32_crc16_eq, Valid]

end Answer

/-- The data area a sequence of replies describes, zero at first. -/
def dataArea (answers : List Answer) : ℕ → UInt8 := answers.foldl Answer.update fun _ => 0

theorem dataArea_append (answers : List Answer) (a : Answer) :
    dataArea (answers ++ [a]) = a.update (dataArea answers) := by
  rw [dataArea, List.foldl_append]
  rfl

/-! ## The STM32 gateway -/

/-- Every reply follows a complete request; one more poll decodes the last one. -/
def stm32Events (answers : List Answer) : List Stm32.Event :=
  answers.flatMap (fun a => Stm32.exchange a.bytes) ++ [.poll]

/-- The STM32 gateway holds the data area, in its array and in the packet. -/
structure Stm32Holds (area : ℕ → UInt8) (g : Stm32.Globals) : Prop where
  value : ∀ j < 38, g.value.peek j = area j
  packet : ∀ j < 38, g.tcpClientSendbuf.peek (j + 6) = area j

/-- A poll that finds a reply brings the data area up to date. -/
theorem Stm32Holds.poll {area : ℕ → UInt8} {a : Answer} {g : Stm32.Globals}
    (h : Stm32Holds area g) (hreceived : g.receBuf.slice 0 a.slave.replyLength = a.bytes) :
    Stm32Holds (a.update area) (Stm32.modbusRtu g) := by
  obtain ⟨haddr, hcode, hcount, hdata⟩ := Answer.peek_of_received hreceived
  have haccepts : Stm32.Accepts g.receBuf a.slave.replyLength ↔ a.Valid := by
    rw [Stm32.Accepts, Answer.crcMatches_iff_valid hreceived]
    exact and_iff_left hcode
  have hnew (j : ℕ) (hj : j < 38) : (Stm32.modbusRtu g).value.peek j = a.update area j := by
    rw [Stm32.value_of_addr haddr, Stm32.peek_rtuDataAnlys (Stm32.start_le _) hj, hcount,
      Answer.update, ← h.value j hj]
    by_cases hin : a.Valid ∧ a.slave.InBlock j
    · have hlower := hin.2.1
      have hupper := hin.2.2
      rw [if_pos ⟨haccepts.mpr hin.1, hlower, hupper⟩, if_pos hin, hdata _ (by omega)]
    · rw [if_neg hin, if_neg]
      exact fun h' => hin ⟨haccepts.mp h'.1, h'.2.1, h'.2.2⟩
  refine ⟨hnew, fun j hj => ?_⟩
  rw [Stm32.peek_packet_of_addr haddr (by omega), Nat.add_sub_cancel, hnew j hj]
  split_ifs with hin
  · rfl
  · -- the poll publishes no other block, and the reply changes no other
    rw [h.packet j hj, Answer.update, if_neg fun hvalid => hin ⟨by omega, hvalid.2⟩]

theorem stm32Holds_boot : Stm32Holds (fun _ => 0) Stm32.boot :=
  ⟨fun _ hj => Buffer.peek_of_lt hj, fun _ hj => Buffer.peek_of_lt (by omega)⟩

theorem stm32_holds (answers : List Answer) :
    Stm32Holds (dataArea answers) (Stm32.run (stm32Events answers)) := by
  -- induction on the replies, the last one split off
  induction answers using List.reverseRecOn with
  | nil =>
    have hnothing : Stm32.PublishesNothing Stm32.boot (Stm32.modbusRtu Stm32.boot) :=
      Stm32.publishesNothing_of_empty rfl
    refine ⟨fun j hj => ?_, fun j hj => ?_⟩
    · exact (congrArg (Traced.peek · j) hnothing.value).trans (stm32Holds_boot.value j hj)
    · exact (congrArg (Traced.peek · (j + 6)) hnothing.packet).trans (stm32Holds_boot.packet j hj)
  | append_singleton answers a ih =>
    rw [stm32Events, Stm32.run_append_singleton] at ih ⊢
    rw [dataArea_append, List.flatMap_append, List.flatMap_singleton, Stm32.run_append_exchange]
    have hfits : a.bytes.length ≤ 25 := by
      rw [Answer.length_bytes]
      exact Stm32.replyLength_le _
    have hafter := Stm32.afterExchange
      (Stm32.run (answers.flatMap fun a => Stm32.exchange a.bytes)) hfits
    refine Stm32Holds.poll ⟨?_, ?_⟩ (by simpa using hafter.received)
    · rw [hafter.value]
      exact ih.value
    · rw [hafter.packet]
      exact ih.packet

/-! ## The ARM gateway -/

/-- One read takes the whole reply, then the processor runs. -/
def armStep (g : Arm.Globals) (a : Answer) : Arm.Globals :=
  Arm.procData (Arm.readPort 1 (some a.bytes) none g)

/-- The globals of the ARM gateway after a sequence of replies. -/
def armRun (answers : List Answer) : Arm.Globals := answers.foldl armStep Arm.boot

/-- The ARM gateway holds the data area in its packet. -/
def ArmHolds (area : ℕ → UInt8) (g : Arm.Globals) : Prop :=
  ∀ j < 38, g.dataBuf.peek (j + 6) = area j

/-- Reading and processing a reply brings the data area up to date. -/
theorem ArmHolds.step {area : ℕ → UInt8} {g : Arm.Globals} (h : ArmHolds area g) (a : Answer) :
    ArmHolds (a.update area) (armStep g a) := by
  have hfits : a.slave.replyLength ≤ 40 := by cases a.slave <;> decide
  have hlong : 11 ≤ a.slave.replyLength := by cases a.slave <;> decide
  have hreceived : (g.msg.blit 0 a.bytes).slice 0 a.slave.replyLength = a.bytes := by
    rw [← Answer.length_bytes]
    exact Buffer.slice_blit (by rw [Answer.length_bytes]; omega)
  obtain ⟨haddr, -, hcount, hdata⟩ := Answer.peek_of_received hreceived
  have hread : Arm.readPort 1 (some a.bytes) none g =
      { g with
        msg := g.msg.blit 0 a.bytes
        msgLength := a.slave.replyLength
        modbusDataChange := true } := by
    rw [Arm.readPort_of_whole (by decide) (by rw [Answer.length_bytes]; exact hlong)
      (by rw [Answer.length_bytes, hcount, Slave.replyLength]), Answer.length_bytes]
  have hchecked : Arm.modbusRtuCheckIntegrity (g.msg.blit 0 a.bytes) a.slave.replyLength = true ↔
      a.Valid := by
    rw [modbusRtuCheckIntegrity_iff_crcMatches, Answer.crcMatches_iff_valid hreceived]
    exact and_iff_right hlong
  intro j hj
  rw [armStep, hread, Answer.update, ← h j hj]
  by_cases hvalid : a.Valid
  · rw [Arm.dataBuf_procData rfl (hchecked.mpr hvalid) haddr, Arm.peek_rtuDataAnlys]
    by_cases hin : a.slave.InBlock j
    · have hlower := hin.1
      have hupper := hin.2
      rw [if_pos (by omega), if_pos ⟨hvalid, hin⟩, hdata _ (by omega)]
      congr 1
      omega
    · rw [if_neg fun h' => hin ⟨by omega, by omega⟩, if_neg fun h' => hin h'.2]
  · -- a reply with a wrong checksum is ignored
    rw [Arm.procData, if_pos rfl, Arm.checkAndCopy_of_ignored fun h' => hvalid (hchecked.mp h'.1),
      if_neg fun h' => hvalid h'.1]

theorem armHolds_boot : ArmHolds (fun _ => 0) Arm.boot := by
  intro j hj
  rw [Arm.boot, Traced.peek, Buffer.peek_blit]
  split_ifs with hheader
  · exact absurd hheader.2.1 (by simp [Arm.header])
  · exact Buffer.peek_of_lt (by omega)

theorem arm_holds (answers : List Answer) : ArmHolds (dataArea answers) (armRun answers) := by
  -- induction on the replies, the last one split off
  induction answers using List.reverseRecOn with
  | nil => exact armHolds_boot
  | append_singleton answers a ih =>
    rw [dataArea_append, armRun, List.foldl_append]
    exact ih.step a

/-! ## Both -/

/-- **Agreement.** After any sequence of replies, with right checksums or wrong ones, the
thirty-eight data bytes of the two packets are equal. -/
theorem gateways_agree (answers : List Answer) :
    (Stm32.run (stm32Events answers)).tcpClientSendbuf.cells.slice 6 38 =
      (armRun answers).dataBuf.cells.slice 6 38 := by
  apply Buffer.slice_congr
  intro j hj
  rw [Nat.add_comm]
  exact ((stm32_holds answers).packet j hj).trans (arm_holds answers j hj).symm

end FanGateway.Gateways
