import FanGateway.Arm.Private
import FanGateway.Lib.BitwiseCrc
import FanGateway.Stm32.Master

/-!
# The checksum both gateways compute

Both programs keep the checksum of the Modbus definition in two tables of 256
bytes each. The tables hold the eight-bit steps of that definition, so the two
functions agree with it and with each other on every message, and both frame
checkers reject every frame that differs from an accepted one within two bytes
in a row, the checksum bytes included.
-/

namespace FanGateway.Gateways

open Lib Modbus

/-- The polynomial of the Modbus checksum, lowest power on the left. -/
def modbusPoly : UInt16 := 0xA001

/-- The Modbus checksum bit by bit. -/
def modbusCrc (msg : List UInt8) : UInt16 := Crc.bitwiseCrc modbusPoly msg

theorem top_modbusPoly : 0x8000 ≤ modbusPoly.toNat := by decide

/-! ## Tables -/

theorem tabulates_auchCRC : Crc.Tabulates modbusPoly Stm32.auchCRCHi Stm32.auchCRCLo :=
  Crc.tabulates_of_entries (by decide +kernel)

/-- The tables of the two programs are equal, byte by byte. -/
theorem tableCrc_eq_auchCRC :
    Arm.tableCrcHi = Stm32.auchCRCHi ∧ Arm.tableCrcLo = Stm32.auchCRCLo := ⟨rfl, rfl⟩

theorem tabulates_tableCrc : Crc.Tabulates modbusPoly Arm.tableCrcHi Arm.tableCrcLo := by
  rw [tableCrc_eq_auchCRC.1, tableCrc_eq_auchCRC.2]
  exact tabulates_auchCRC

theorem stm32_crc16_eq (msg : List UInt8) :
    Stm32.crc16 msg = Crc.swapBytes (modbusCrc msg) := Crc.tableCrc_eq tabulates_auchCRC msg

theorem arm_crc16_eq (msg : List UInt8) :
    Arm.crc16 msg = Crc.swapBytes (modbusCrc msg) := Crc.tableCrc_eq tabulates_tableCrc msg

/-- The two programs compute one function. -/
theorem crc16_agree : Arm.crc16 = Stm32.crc16 := by
  funext msg
  rw [arm_crc16_eq, stm32_crc16_eq]

/-- **The Modbus checksum.** On every message the two programs return the same value, that
of the bitwise definition with its two bytes exchanged. -/
theorem crc16_is_modbusCrc (msg : List UInt8) :
    Stm32.crc16 msg = Arm.crc16 msg ∧ Stm32.crc16 msg = Crc.swapBytes (modbusCrc msg) ∧
      Arm.crc16 msg = Crc.swapBytes (modbusCrc msg) :=
  ⟨by rw [crc16_agree], stm32_crc16_eq msg, arm_crc16_eq msg⟩

/-! ## Checkers -/

section Checkers

variable {m : ℕ}

/-- The two checkers apply one test of the checksum. -/
theorem modbusRtuCheckIntegrity_iff_crcMatches {remsg : Buffer UInt8 m} {length : ℕ} :
    Arm.modbusRtuCheckIntegrity remsg length = true ↔
      11 ≤ length ∧ Stm32.CrcMatches remsg length := by
  rw [Arm.modbusRtuCheckIntegrity_iff, crc16_agree]
  refine and_congr_right fun hlong => ?_
  obtain ⟨n, rfl⟩ : ∃ n, length = n + 2 := ⟨length - 2, by omega⟩
  rw [Nat.add_sub_cancel, slice_eq_frame_iff]
  rfl

/-- A frame passes the test exactly when its bytes empty the checksum register. -/
theorem crcMatches_iff_residue {received : Buffer UInt8 m} {n : ℕ} :
    Stm32.CrcMatches received (n + 2) ↔ modbusCrc (received.slice 0 (n + 2)) = 0 := by
  have hframe : received.slice 0 (n + 2) =
      received.slice 0 n ++ [received.peek n, received.peek (n + 1)] := by
    rw [Buffer.slice_succ, Buffer.slice_succ, Nat.zero_add, Nat.zero_add, List.append_assoc]
    rfl
  rw [hframe]
  exact Crc.trailer_iff top_modbusPoly tabulates_auchCRC _ _ _

/-- The first `n` bytes of the two buffers differ, and only within two bytes in a row. -/
def Damaged (n : ℕ) (sent received : Buffer UInt8 m) : Prop :=
  ∃ i, i + 1 < n ∧ (∀ j < n, j ≠ i → j ≠ i + 1 → sent.peek j = received.peek j) ∧
    (sent.peek i ≠ received.peek i ∨ sent.peek (i + 1) ≠ received.peek (i + 1))

/-- Damage within two bytes in a row is detected. -/
theorem not_crcMatches_of_damaged {sent received : Buffer UInt8 m} {n : ℕ}
    (hsent : Stm32.CrcMatches sent n) (hdamaged : Damaged n sent received) :
    ¬ Stm32.CrcMatches received n := by
  obtain ⟨i, hi, hsame, hdiffers⟩ := hdamaged
  obtain ⟨n, rfl⟩ : ∃ k, n = k + 2 := ⟨n - 2, by omega⟩
  intro hreceived
  rw [crcMatches_iff_residue] at hsent hreceived
  have hcell (b : Buffer UInt8 m) (j : ℕ) (hj : j < n + 2) :
      (b.slice 0 (n + 2))[j]? = some (b.peek j) := by
    rw [Buffer.getElem?_slice, if_pos hj, Nat.zero_add]
  have hequal : sent.slice 0 (n + 2) = received.slice 0 (n + 2) := by
    apply Crc.eq_of_bitwiseCrc_eq top_modbusPoly (i := i) (by simp) (by simpa using hi)
    · intro j hne hne'
      by_cases hj : j < n + 2
      · rw [hcell _ _ hj, hcell _ _ hj, hsame j hj hne hne']
      · rw [List.getElem?_eq_none (by simpa using hj), List.getElem?_eq_none (by simpa using hj)]
    · exact hsent.trans hreceived.symm
  have hpeek (j : ℕ) (hj : j < n + 2) : sent.peek j = received.peek j := by
    apply Option.some.inj
    rw [← hcell _ _ hj, ← hcell _ _ hj, hequal]
  rcases hdiffers with hfirst | hsecond
  · exact hfirst (hpeek i (by omega))
  · exact hsecond (hpeek (i + 1) hi)

/-- Of all trailers of a body the test takes the checksum, and no other. -/
theorem crcMatches_iff_trailer {received : Buffer UInt8 m} {body : List UInt8} {x y : UInt8}
    (h : received.slice 0 (body.length + 2) = body ++ [x, y]) :
    Stm32.CrcMatches received (body.length + 2) ↔
      [x, y] = Crc.bytes (Stm32.crc16 body) := by
  rw [crcMatches_iff_residue, h, ← Crc.word_eq_iff]
  exact (Crc.trailer_iff top_modbusPoly tabulates_auchCRC _ _ _).symm

end Checkers

/-- **Error detection.** A frame accepted by either checker is rejected by it once bytes
within two positions in a row have changed; and `construct_rtu_frm` completes a body with
the only two bytes with which the checkers accept it. -/
theorem checkers_detect_damage :
    (∀ (m n : ℕ) (sent received : Buffer UInt8 m), Stm32.CrcMatches sent n →
      Damaged n sent received → ¬ Stm32.CrcMatches received n) ∧
    (∀ (m n : ℕ) (sent received : Buffer UInt8 m), Arm.modbusRtuCheckIntegrity sent n = true →
      Damaged n sent received → Arm.modbusRtuCheckIntegrity received n = false) ∧
    ∀ (m : ℕ) (dstBuf : Buffer UInt8 m) (body : List UInt8), 1 ≤ body.length →
      body.length ≤ 253 → body.length + 2 ≤ m →
      ∃ x y, (Stm32.constructRtuFrm dstBuf body).slice 0 (body.length + 2) = body ++ [x, y] ∧
        ∀ (k : ℕ) (received : Buffer UInt8 k) (x' y' : UInt8),
          received.slice 0 (body.length + 2) = body ++ [x', y'] →
          (Stm32.CrcMatches received (body.length + 2) ↔ x' = x ∧ y' = y) ∧
          (Arm.modbusRtuCheckIntegrity received ↑(body.length + 2) = true ↔
            11 ≤ body.length + 2 ∧ x' = x ∧ y' = y) := by
  refine ⟨fun m n sent received => not_crcMatches_of_damaged, ?_, ?_⟩
  · intro m n sent received hsent hdamaged
    rw [modbusRtuCheckIntegrity_iff_crcMatches] at hsent
    have hrejected := not_crcMatches_of_damaged hsent.2 hdamaged
    rw [← Bool.not_eq_true, modbusRtuCheckIntegrity_iff_crcMatches]
    exact fun haccepted => hrejected haccepted.2
  · intro m dstBuf body _ hshort hfit
    refine ⟨_, _, Stm32.slice_constructRtuFrm hshort hfit, ?_⟩
    intro k received x' y' hreceived
    have htrailer := crcMatches_iff_trailer hreceived
    rw [Crc.bytes, List.cons.injEq, List.cons.injEq] at htrailer
    simp only [and_true] at htrailer
    exact ⟨htrailer, modbusRtuCheckIntegrity_iff_crcMatches.trans (and_congr_right' htrailer)⟩

/-- Nine bytes, so that the frame is just long enough for both checkers. -/
def nineBytes : List UInt8 := [1, 3, 4, 0, 0, 0, 0, 0, 0]

/-- The frame of the nine bytes with its fifth byte changed fails both checks. -/
theorem checkers_detect_damage_of_nineBytes :
    ∃ sent : Buffer UInt8 11, Arm.modbusRtuCheckIntegrity sent 11 = true ∧
      Stm32.CrcMatches sent 11 ∧ ¬ Stm32.CrcMatches (sent.poke 4 1) 11 ∧
      Arm.modbusRtuCheckIntegrity (sent.poke 4 1) 11 = false ∧
      ∃ x y, sent.slice 0 11 = nineBytes ++ [x, y] := by
  obtain ⟨hstm32, harm, hconstruct⟩ := checkers_detect_damage
  obtain ⟨sent, hsent⟩ : ∃ sent : Buffer UInt8 11,
      sent = Stm32.constructRtuFrm (fun _ => 0) nineBytes := ⟨_, rfl⟩
  obtain ⟨x, y, hframe, htrailers⟩ :=
    hconstruct 11 (fun _ => 0) nineBytes (by decide) (by decide) (by decide)
  rw [← hsent] at hframe
  obtain ⟨hcrc, hintegrity⟩ := htrailers 11 sent x y hframe
  -- the fifth byte of the frame is that of the body
  have hfifth : sent.peek 4 = 0 := by
    have hcell : (sent.slice 0 (nineBytes.length + 2))[4]? = some (sent.peek 4) := by
      rw [Buffer.getElem?_slice]
      rfl
    rw [hframe] at hcell
    exact (Option.some.inj hcell).symm
  have hdamaged : Damaged 11 sent (sent.poke 4 1) := by
    refine ⟨4, by decide, fun j _ hne _ => (Buffer.peek_poke_ne hne).symm, .inl ?_⟩
    rw [hfifth, Buffer.peek_poke_self (by decide)]
    decide
  have hcrcMatches : Stm32.CrcMatches sent 11 := hcrc.mpr ⟨rfl, rfl⟩
  have haccepted : Arm.modbusRtuCheckIntegrity sent (11 : ℕ) = true :=
    hintegrity.mpr ⟨by decide, rfl, rfl⟩
  exact ⟨sent, haccepted, hcrcMatches, hstm32 11 11 sent _ hcrcMatches hdamaged,
    harm 11 11 sent _ haccepted hdamaged, x, y, hframe⟩

end FanGateway.Gateways
