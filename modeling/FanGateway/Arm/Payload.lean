import FanGateway.Arm.Demo

/-!
# What the processor copies

One iteration of the processor should change the packet only with the data field
of a well-formed reply. The integrity check covers a message of any kind, the
reader has let through whatever the two reads added up to, and the copy takes a
fixed number of bytes. A message with a valid checksum is therefore copied
whatever its function code, its byte count and its length are.
-/

namespace FanGateway.Arm

open Lib Modbus

/-- The function code, the byte count and the length are those of a reply of slave `k`. -/
def ReplyHeader (k : Slave) (g : Globals) : Prop :=
  g.msg.peek 1 = 3 ∧ (g.msg.peek 2).toNat = k.size ∧ g.msgLength = k.replyLength

/-- The message is a well-formed reply of slave `k`. -/
def WellFormed (k : Slave) (g : Globals) : Prop :=
  g.msg.peek 0 = k.addr ∧ ReplyHeader k g ∧ modbusRtuCheckIntegrity g.msg g.msgLength = true

/-- Every store of an iteration from `g` to `g'` takes a byte from the data field of the
message, as its byte count delimits it, to the byte's place in the block of slave `k`. -/
def CopiesDataField (k : Slave) (g g' : Globals) : Prop :=
  ∃ positions, g'.dataBuf.trace = g.dataBuf.trace ++ positions ∧
    ∀ p ∈ positions, ∃ i, 3 ≤ i ∧ i < 3 + (g.msg.peek 2).toNat ∧
      p = k.start + 6 + (i - 3) ∧ g'.dataBuf.peek p = g.msg.peek i

/-- If an iteration changes the packet, then with the data field of a well-formed reply. -/
def Verified (g : Globals) : Prop :=
  (∃ j, (procData g).dataBuf.peek j ≠ g.dataBuf.peek j) →
    ∃ k, WellFormed k g ∧ CopiesDataField k g (procData g)

/-- A published message with a valid checksum that starts with the address of slave `k`, is
no reply of it, and differs from the slave's block of the packet. -/
def Foreign (k : Slave) (g : Globals) : Prop :=
  g.modbusDataChange = true ∧ modbusRtuCheckIntegrity g.msg g.msgLength = true ∧
    g.msg.peek 0 = k.addr ∧ ¬ ReplyHeader k g ∧
    ∃ i < k.size, g.msg.peek (i + 3) ≠ g.dataBuf.peek (k.start + 6 + i)

section Iteration

variable {g : Globals} {k : Slave}

/-- The packet after an iteration that copies. -/
theorem dataBuf_procData (hflag : g.modbusDataChange = true)
    (hintegrity : modbusRtuCheckIntegrity g.msg g.msgLength = true)
    (haddr : g.msg.peek 0 = k.addr) :
    (procData g).dataBuf = rtuDataAnlys g.dataBuf g.msg (k.start + 6) k.size := by
  rw [procData, if_pos hflag,
    checkAndCopy_of_addr (g := { g with modbusDataChange := false }) hintegrity haddr]

/-- An iteration that changes the packet has copied a published message with a valid checksum
that starts with the address of a slave. -/
theorem copied_of_changed (h : ∃ j, (procData g).dataBuf.peek j ≠ g.dataBuf.peek j) :
    g.modbusDataChange = true ∧ modbusRtuCheckIntegrity g.msg g.msgLength = true ∧
      ∃ k : Slave, g.msg.peek 0 = k.addr := by
  obtain ⟨j, hj⟩ := h
  rw [procData] at hj
  split_ifs at hj with hflag
  · by_contra hnot
    rw [checkAndCopy_of_ignored (g := { g with modbusDataChange := false })
      fun hcopied => hnot ⟨hflag, hcopied⟩] at hj
    exact hj rfl
  · exact absurd rfl hj

/-- The bytes of the packet a copy changes are those where the message differs from it. -/
theorem changed_iff (hflag : g.modbusDataChange = true)
    (hintegrity : modbusRtuCheckIntegrity g.msg g.msgLength = true)
    (haddr : g.msg.peek 0 = k.addr) :
    (∃ j, (procData g).dataBuf.peek j ≠ g.dataBuf.peek j) ↔
      ∃ i < k.size, g.msg.peek (i + 3) ≠ g.dataBuf.peek (k.start + 6 + i) := by
  have hblock : k.start + k.size ≤ 38 := by cases k <;> decide
  simp only [dataBuf_procData hflag hintegrity haddr, peek_rtuDataAnlys]
  constructor
  · -- a byte that changed is in the block
    rintro ⟨j, hj⟩
    split_ifs at hj with hin
    · refine ⟨j - (k.start + 6), by omega, ?_⟩
      rwa [Nat.add_sub_cancel' hin.1]
    · exact absurd rfl hj
  · rintro ⟨i, hi, hne⟩
    refine ⟨k.start + 6 + i, ?_⟩
    rwa [if_pos (by omega), Nat.add_sub_cancel_left]

/-- A well-formed reply is copied from its data field. -/
theorem copiesDataField_of_wellFormed (hflag : g.modbusDataChange = true)
    (h : WellFormed k g) : CopiesDataField k g (procData g) := by
  obtain ⟨haddr, ⟨-, hcount, -⟩, hintegrity⟩ := h
  have hblock : k.start + k.size ≤ 38 := by cases k <;> decide
  have hbuf := dataBuf_procData hflag hintegrity haddr
  refine ⟨List.range' (k.start + 6) k.size, by rw [hbuf, trace_rtuDataAnlys], fun p hp => ?_⟩
  rw [List.mem_range'_1] at hp
  refine ⟨p - (k.start + 6) + 3, by omega, by omega, by omega, ?_⟩
  rw [hbuf, peek_rtuDataAnlys, if_pos (by omega)]

end Iteration

/-- A foreign message is copied all the same. -/
theorem not_verified_of_foreign {g : Globals} {k : Slave} (h : Foreign k g) : ¬ Verified g := by
  obtain ⟨hflag, hintegrity, haddr, hheader, hdiffers⟩ := h
  intro hverified
  obtain ⟨l, ⟨haddr', hheader', -⟩, -⟩ :=
    hverified ((changed_iff hflag hintegrity haddr).mpr hdiffers)
  -- a message has one address
  have hsame : l = k := Slave.addr_injective (haddr'.symm.trans haddr)
  exact hheader (hsame ▸ hheader')

/-- **Verified payload.** An iteration of the processor changes the packet only with verified
payload exactly when the message is not a foreign one that passes for a reply. -/
theorem procData_verified_iff (g : Globals) : Verified g ↔ ¬ ∃ k, Foreign k g := by
  constructor
  · rintro hverified ⟨k, hforeign⟩
    exact not_verified_of_foreign hforeign hverified
  · intro hforeign hchanged
    obtain ⟨hflag, hintegrity, k, haddr⟩ := copied_of_changed hchanged
    have hdiffers := (changed_iff hflag hintegrity haddr).mp hchanged
    have hheader : ReplyHeader k g := by
      by_contra hnot
      exact hforeign ⟨k, hflag, hintegrity, haddr, hnot, hdiffers⟩
    have hwell : WellFormed k g := ⟨haddr, hheader, hintegrity⟩
    exact ⟨k, hwell, copiesDataField_of_wellFormed hflag hwell⟩

/-- The body of an answer of slave 1 to another function, with sixteen bytes of data. -/
def foreignBody : List UInt8 := [1, 4, 16] ++ List.replicate 16 1

/-- The reader publishes such a message and the processor copies it. -/
theorem foreign_message_not_verified :
    ¬ Verified (readPort 1 (some (frame crc16 foreignBody)) none boot) := by
  obtain ⟨msg, hmsg⟩ : ∃ msg, boot.msg.blit 0 (frame crc16 foreignBody) = msg := ⟨_, rfl⟩
  have hlength : (frame crc16 foreignBody).length = foreignBody.length + 2 := length_frame _
  have hreceived : msg.slice 0 (foreignBody.length + 2) = frame crc16 foreignBody := by
    rw [← hmsg, ← hlength, Buffer.slice_blit (by rw [hlength]; decide)]
  obtain ⟨hbody, hcells⟩ := peek_of_frame hreceived
  have hcell (i : ℕ) (hi : i < foreignBody.length) : foreignBody[i]? = some (msg.peek i) :=
    hcells i hi
  -- the bytes that matter, read off the body
  have haddr : msg.peek 0 = 1 := Option.some.inj (hcell 0 (by decide)).symm
  have hcode : msg.peek 1 = 4 := Option.some.inj (hcell 1 (by decide)).symm
  have hcount : msg.peek 2 = 16 := Option.some.inj (hcell 2 (by decide)).symm
  have hdata : msg.peek 3 = 1 := Option.some.inj (hcell 3 (by decide)).symm
  have hintegrity : modbusRtuCheckIntegrity msg (frame crc16 foreignBody).length = true := by
    refine modbusRtuCheckIntegrity_iff.mpr ⟨by rw [hlength]; decide, ?_⟩
    rw [hlength, hreceived, Nat.add_sub_cancel, hbody]
  have hwhole : (frame crc16 foreignBody).length =
      ((boot.msg.blit 0 (frame crc16 foreignBody)).peek 2).toNat + 5 := by
    rw [hlength, hmsg, hcount]
    rfl
  rw [readPort_of_whole (by decide) (by rw [hlength]; decide) hwhole, hmsg]
  refine not_verified_of_foreign (k := .one) ⟨rfl, hintegrity, haddr, ?_, 0, by decide, ?_⟩
  · intro hheader
    exact absurd (hcode.symm.trans hheader.1) (by decide)
  · simp only [hdata]
    decide

end FanGateway.Arm
