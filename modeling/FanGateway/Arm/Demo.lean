import FanGateway.Arm.Private

/-!
# The reader and the processor of the ARM program

The reader takes at most two reads for a message and then publishes its length
and raises a flag. The processor waits for the flag, checks the message and copies
its data bytes into the packet for the server, at the address the message starts
with. How many it copies depends on that address alone.
-/

namespace FanGateway.Arm

open Lib Modbus

/-- The globals of the reader and the processor. -/
structure Globals where
  msg : Buffer UInt8 40
  msgLength : ℤ
  modbusDataChange : Bool
  dataBuf : Traced UInt8 44
  dataChanged : Bool

/-- The packet header `main` writes before it starts any thread. -/
def header : List UInt8 := [0x44, 0x41, 0x54, 0x41, 0x00, 0x26]

/-- The globals when the threads start. -/
def boot : Globals where
  msg := fun _ => 0
  msgLength := 0
  modbusDataChange := false
  dataBuf := ⟨Buffer.blit (fun _ => 0) 0 header, []⟩
  dataChanged := false

/-! ## The reader -/

/-- `read(fd, msg + start, count)`: the bytes it stores, or `none` for -1. -/
def readInto {n : ℕ} (msg : Buffer UInt8 n) (start : ℕ) : Option (List UInt8) → ℤ × Buffer UInt8 n
  | none => (-1, msg)
  | some bytes => (bytes.length, msg.blit start bytes)

/-- Publish a message of the given length, unless it is too short to be one. -/
def publish (length : ℤ) (g : Globals) : Globals :=
  let g := { g with msgLength := length }
  if g.msgLength < 11 then g else { g with modbusDataChange := true }

/-- One call of `read_port`, by what `select` and the two reads return. -/
def readPort (retval : ℤ) (first second : Option (List UInt8)) (g : Globals) : Globals :=
  if retval = 0 ∨ retval = -1 then g
  else
    let (nread, msg) := readInto g.msg 0 first
    let g := { g with msg }
    if nread > 0 then
      if nread = (g.msg.peek 2).toNat + 5 then publish nread g
      else if nread < (g.msg.peek 2).toNat + 5 then
        -- a failed second read counts as -1 here
        let (tmp, msg) := readInto g.msg nread.toNat second
        publish (nread + tmp) { g with msg }
      else g
    else g

/-- Two reads of the sizes asked for publish a length from 11 to 26. -/
theorem readPort_publishes {retval : ℤ} {first second : Option (List UInt8)} {g : Globals}
    (hfirst : ∀ bytes, first = some bytes → bytes.length ≤ 21)
    (hsecond : ∀ bytes, second = some bytes → bytes.length ≤ 5)
    (hbefore : g.modbusDataChange = false)
    (hpublished : (readPort retval first second g).modbusDataChange = true) :
    11 ≤ (readPort retval first second g).msgLength ∧
      (readPort retval first second g).msgLength ≤ 26 := by
  have hpublish (length : ℤ) (g : Globals) (hbefore : g.modbusDataChange = false)
      (hpublished : (publish length g).modbusDataChange = true) (hle : length ≤ 26) :
      11 ≤ (publish length g).msgLength ∧ (publish length g).msgLength ≤ 26 := by
    simp only [publish] at hpublished ⊢
    split_ifs at hpublished ⊢ with hshort
    · exact absurd hpublished (by simp [hbefore])
    · exact ⟨by simpa using hshort, hle⟩
  have hread {n : ℕ} (msg : Buffer UInt8 n) (start : ℕ) {result : Option (List UInt8)} {bound : ℕ}
      (h : ∀ bytes, result = some bytes → bytes.length ≤ bound) :
      (readInto msg start result).1 ≤ bound := by
    cases result with
    | none => simp only [readInto]; omega
    | some bytes => simpa [readInto] using h bytes rfl
  have hnread := hread g.msg 0 hfirst
  simp only [readPort] at hpublished ⊢
  -- only a whole message and one completed by the second read are published
  split_ifs at hpublished ⊢ with h1 h2 h3 h4
  · exact absurd hpublished (by simp [hbefore])
  · exact hpublish _ _ hbefore hpublished (by omega)
  · have htmp := hread (readInto g.msg 0 first).2 (readInto g.msg 0 first).1.toNat hsecond
    exact hpublish _ _ hbefore hpublished (by omega)
  · exact absurd hpublished (by simp [hbefore])
  · exact absurd hpublished (by simp [hbefore])

/-- A message that arrives in one read and counts its own bytes is published as it is. -/
theorem readPort_of_whole {retval : ℤ} {bytes : List UInt8} {second : Option (List UInt8)}
    {g : Globals} (hselect : ¬ (retval = 0 ∨ retval = -1)) (hlong : 11 ≤ bytes.length)
    (hwhole : bytes.length = ((g.msg.blit 0 bytes).peek 2).toNat + 5) :
    readPort retval (some bytes) second g =
      { g with
        msg := g.msg.blit 0 bytes
        msgLength := bytes.length
        modbusDataChange := true } := by
  have hpos : (bytes.length : ℤ) > 0 := by omega
  have hlength : (bytes.length : ℤ) = ((g.msg.blit 0 bytes).peek 2).toNat + 5 := by omega
  have hnotshort : ¬ (bytes.length : ℤ) < 11 := by omega
  rw [readPort, if_neg hselect]
  change (if (bytes.length : ℤ) > 0 then
      if (bytes.length : ℤ) = ((g.msg.blit 0 bytes).peek 2).toNat + 5 then
        publish bytes.length { g with msg := g.msg.blit 0 bytes } else _ else _) = _
  rw [if_pos hpos, if_pos hlength]
  exact if_neg hnotshort

/-! ## The processor -/

/-- The locked part of `proc_data` behind the clearing of the flag. -/
def checkAndCopy (g : Globals) : Globals :=
  if modbusRtuCheckIntegrity g.msg g.msgLength then
    if g.msg.peek 0 = 1 then { g with dataBuf := rtuDataAnlys g.dataBuf g.msg 6 16 }
    else if g.msg.peek 0 = 2 then { g with dataBuf := rtuDataAnlys g.dataBuf g.msg 22 16 }
    else if g.msg.peek 0 = 3 then { g with dataBuf := rtuDataAnlys g.dataBuf g.msg 38 6 }
    else g
  else g

/-- One iteration of `proc_data`. -/
def procData (g : Globals) : Globals :=
  if g.modbusDataChange then
    { checkAndCopy { g with modbusDataChange := false } with dataChanged := true }
  else g

/-- A message that passes the check and starts with the address of a slave is copied to that
slave's block of the packet. -/
theorem checkAndCopy_of_addr {g : Globals} {k : Slave}
    (hintegrity : modbusRtuCheckIntegrity g.msg g.msgLength = true)
    (haddr : g.msg.peek 0 = k.addr) :
    checkAndCopy g =
      { g with dataBuf := rtuDataAnlys g.dataBuf g.msg (k.start + 6) k.size } := by
  cases k <;> simp [checkAndCopy, hintegrity, haddr, Slave.addr] <;> rfl

/-- Any other message is ignored. -/
theorem checkAndCopy_of_ignored {g : Globals}
    (h : ¬ (modbusRtuCheckIntegrity g.msg g.msgLength = true ∧
      ∃ k : Slave, g.msg.peek 0 = k.addr)) : checkAndCopy g = g := by
  rw [checkAndCopy]
  split_ifs with hintegrity h1 h2 h3
  · exact absurd ⟨hintegrity, .one, h1⟩ h
  · exact absurd ⟨hintegrity, .two, h2⟩ h
  · exact absurd ⟨hintegrity, .three, h3⟩ h
  · rfl
  · rfl

/-- A well-formed reply passes the check, and its data bytes end up in its slave's block. -/
theorem checkAndCopy_of_reply {g : Globals} {k : Slave} {data : Payload k}
    (hmsg : g.msg.slice 0 k.replyLength = reply crc16 k data)
    (hlength : g.msgLength = k.replyLength) :
    ∀ i < k.size, (checkAndCopy g).dataBuf.peek (k.start + 6 + i) = data.peek i := by
  have hbodyLength : (replyBody k data).length + 2 = k.replyLength := by
    rw [length_replyBody, Slave.replyLength]
  rw [← hbodyLength] at hmsg
  obtain ⟨hbody, hcells⟩ := peek_of_frame hmsg
  have hlong : 11 ≤ (replyBody k data).length + 2 := by
    rw [hbodyLength]
    cases k <;> decide
  -- a reply is a frame and long enough
  have hintegrity : modbusRtuCheckIntegrity g.msg g.msgLength = true := by
    rw [hlength, ← hbodyLength]
    refine modbusRtuCheckIntegrity_iff.mpr ⟨hlong, ?_⟩
    rw [Nat.add_sub_cancel, hbody, hmsg]
    rfl
  have haddr : g.msg.peek 0 = k.addr := Option.some.inj (hcells 0 (by omega)).symm
  have hblock : k.start + k.size ≤ 38 := by cases k <;> decide
  intro i hi
  rw [checkAndCopy_of_addr hintegrity haddr]
  simp only [peek_rtuDataAnlys]
  rw [if_pos (by omega), Nat.add_sub_cancel_left]
  rw [length_replyBody] at hcells
  exact Option.some.inj ((hcells (i + 3) (by omega)).symm.trans (getElem?_replyBody_data hi))

end FanGateway.Arm
