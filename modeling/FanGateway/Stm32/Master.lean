import FanGateway.Modbus.Reply
import FanGateway.Stm32.Crc
import FanGateway.Stm32.Usart

/-!
# The Modbus master of the STM32 gateway

One poll first looks at the receive buffer: a frame that starts with the address
of a slave is decoded into that slave's block of `value`, and the block is then
published in the packet for the server. The poll then sends the request of the
next slave in turn.

The receive buffer carries no length. The decoder checks as many bytes as a
well-formed reply of the slave would have and copies as many as the third byte
of the frame says.
-/

namespace FanGateway.Stm32

open Lib Modbus

/-! ## The functions of `master.c` -/

/-- Append the checksum to a body and copy the whole frame. The length is a byte
and counts the two checksum bytes too. -/
def constructRtuFrm {n : ℕ} (dstBuf : Buffer UInt8 n) (srcBuf : List UInt8) : Buffer UInt8 n :=
  let crcTmp := crc16 srcBuf
  -- high byte first
  let frm := srcBuf ++ [(crcTmp >>> 8).toUInt8, (crcTmp &&& 0xFF).toUInt8]
  dstBuf.blit 0 (frm.take ((srcBuf.length + 2) % 256))

/-- `HI(n)`. -/
def hi (n : UInt16) : UInt8 := (n >>> 8).toUInt8

/-- `LOW(n)`. -/
def low (n : UInt16) : UInt8 := (n &&& 0xFF).toUInt8

/-- Build a read request in `sendBuf`, the only buffer it is called on, and start
sending it. The result is the constant length of the frame. -/
def rtuReadHldreg (boardAdr : UInt8) (startAddress lenth : UInt16) (g : Globals) :
    ℕ × Globals :=
  let tmp := [boardAdr, 3, hi startAddress, low startAddress, hi lenth, low lenth]
  -- eight bytes are sent whatever was constructed
  (8, beginSend { g with sendBuf := constructRtuFrm g.sendBuf tmp, sendCount := 8 })

/-- The checksum test: the last two of `frLenth` bytes against the bytes before. -/
def CrcMatches {m : ℕ} (sourceP : Buffer UInt8 m) (frLenth : ℕ) : Prop :=
  Crc.word (sourceP.peek (frLenth - 2)) (sourceP.peek (frLenth - 1)) =
    crc16 (sourceP.slice 0 (frLenth - 2))

instance {m : ℕ} (sourceP : Buffer UInt8 m) (frLenth : ℕ) :
    Decidable (CrcMatches sourceP frLenth) := inferInstanceAs (Decidable (_ = _))

/-- Check a frame in `receBuf` and copy its data bytes to `value`, as many as its third byte says. A
long frame is copied on behind `value`, where `receBuf` lies itself. -/
def rtuDataAnlys (dataStartAddress frLenth : ℕ) (g : Globals) : ℤ × Globals :=
  if CrcMatches g.receBuf frLenth then
    if g.receBuf.peek 1 = 3 then
      -- the third byte is looked at before each round, of which there are less than 256
      (0, forWhile (fun tmp1 g => tmp1 < (g.receBuf.peek 2).toNat)
        (fun tmp1 g => g.storeAt (tmp1 + dataStartAddress) (g.byteAt (38 + (tmp1 + 3)))) 256 0 g)
    -- `PROTOCOL_EXCEPTION` (0x81) and every other function code
    else (-1, g)
  -- a wrong checksum is reported as 0 too
  else (0, g)

/-- One of the three decoding branches of the poll: decode from `lo` on, publish
the cells from `lo` to `hi`, report the data as ready. -/
def decodeBranch (lo hi frLenth : ℕ) (g : Globals) : Globals :=
  let g := { g with modbusCom2Over := 0 }
  let g := (rtuDataAnlys lo frLenth g).2
  { g with
    -- published whether or not anything was decoded
    tcpClientSendbuf :=
      forRange lo hi (fun t buf => buf.store (t + 6) (g.value.peek t)) g.tcpClientSendbuf
    ready := 1 }

/-- The first half of the poll: decode what the receive buffer holds. -/
def acceptReply (g : Globals) : Globals :=
  -- the value that says a frame is complete, set on every poll
  let g := { g with modbusCom2Over := 2 }
  if g.modbusCom2Over = 2 ∧ g.receBuf.peek 0 = 1 then decodeBranch 0 16 21 g
  else if g.modbusCom2Over = 2 ∧ g.receBuf.peek 0 = 2 then decodeBranch 16 32 21 g
  else if g.modbusCom2Over = 2 ∧ g.receBuf.peek 0 = 3 then decodeBranch 32 38 11 g
  else g

/-- The second half of the poll: send the next request. -/
def nextRequest (g : Globals) : Globals :=
  if g.slaveraddr = 1 then { (rtuReadHldreg g.slaveraddr 0 8 g).2 with slaveraddr := 2 }
  else if g.slaveraddr = 2 then { (rtuReadHldreg g.slaveraddr 0 8 g).2 with slaveraddr := 3 }
  -- `slaveraddr` is 0 at first; whatever is neither 1 nor 2 asks slave 3
  else { (rtuReadHldreg 3 0 3 g).2 with slaveraddr := 1 }

def modbusRtu (g : Globals) : Globals := nextRequest { acceptReply g with receCount := 0 }

/-! ## Requests -/

/-- The slave whose turn it is: any address but 1 and 2 starts over at slave 3. -/
def turn (slaveraddr : UInt8) : Slave :=
  if slaveraddr = 1 then .one else if slaveraddr = 2 then .two else .three

/-- The address after a request. -/
def advance (slaveraddr : UInt8) : UInt8 :=
  if slaveraddr = 1 then 2 else if slaveraddr = 2 then 3 else 1

/-- A frame of a short body fills the front of the buffer. -/
theorem slice_constructRtuFrm {n : ℕ} {dstBuf : Buffer UInt8 n} {srcBuf : List UInt8}
    (hshort : srcBuf.length ≤ 253) (hfit : srcBuf.length + 2 ≤ n) :
    (constructRtuFrm dstBuf srcBuf).slice 0 (srcBuf.length + 2) = frame crc16 srcBuf := by
  have hlength : (srcBuf ++ Crc.bytes (crc16 srcBuf)).length = srcBuf.length + 2 := by simp
  have hframe : constructRtuFrm dstBuf srcBuf = dstBuf.blit 0 (frame crc16 srcBuf) := by
    rw [constructRtuFrm, Nat.mod_eq_of_lt (by omega), List.take_of_length_le (by simp)]
    rfl
  rw [hframe, frame, ← hlength, Buffer.slice_blit (by omega)]

/-- The state a request leaves behind, whoever it goes to. -/
theorem rtuReadHldreg_snd (boardAdr : UInt8) (startAddress lenth : UInt16) (g : Globals) :
    (rtuReadHldreg boardAdr startAddress lenth g).2 =
      let sendBuf := constructRtuFrm g.sendBuf
        [boardAdr, 3, hi startAddress, low startAddress, hi lenth, low lenth]
      { g with
        sendBuf := sendBuf
        sendCount := 7
        sendPosi := 0
        pa1 := true
        dataRegister := g.dataRegister ++ [sendBuf.peek 0] } := rfl

/-- The second half of a poll puts the request of the slave in turn in the send
buffer, writes its first byte to the line and leaves everything else alone. -/
theorem nextRequest_eq (g : Globals) :
    ∃ sendBuf : Buffer UInt8 10,
      sendBuf.slice 0 8 = request crc16 (turn g.slaveraddr) ∧
      nextRequest g =
        { g with
          sendBuf := sendBuf
          sendCount := 7
          sendPosi := 0
          pa1 := true
          dataRegister := g.dataRegister ++ [sendBuf.peek 0]
          slaveraddr := advance g.slaveraddr } := by
  have hslice (k : Slave) : (constructRtuFrm g.sendBuf [k.addr, 3, 0, 0, 0, k.registers]).slice
      0 8 = request crc16 k :=
    slice_constructRtuFrm (by simp) (by simp)
  refine ⟨constructRtuFrm g.sendBuf [(turn g.slaveraddr).addr, 3, 0, 0, 0,
    (turn g.slaveraddr).registers], hslice _, ?_⟩
  rw [nextRequest]
  -- slave 1, slave 2, any other address
  split_ifs with h1 h2
  · rw [rtuReadHldreg_snd, turn, advance, if_pos h1, if_pos h1, h1]
    rfl
  · rw [rtuReadHldreg_snd, turn, advance, if_neg h1, if_neg h1, if_pos h2, if_pos h2, h2]
    rfl
  · rw [rtuReadHldreg_snd, turn, advance, if_neg h1, if_neg h1, if_neg h2, if_neg h2]
    rfl

/-! ## Replies -/

/-- The frame in the receive buffer is one the decoder copies from. -/
def Accepts {m : ℕ} (sourceP : Buffer UInt8 m) (frLenth : ℕ) : Prop :=
  CrcMatches sourceP frLenth ∧ sourceP.peek 1 = 3

instance {m : ℕ} (sourceP : Buffer UInt8 m) (frLenth : ℕ) :
    Decidable (Accepts sourceP frLenth) := inferInstanceAs (Decidable (_ ∧ _))

/-- One round of the loop that copies the data bytes. -/
def copyByte (dataStartAddress tmp1 : ℕ) (g : Globals) : Globals :=
  g.storeAt (tmp1 + dataStartAddress) (g.byteAt (38 + (tmp1 + 3)))

/-- How many bytes are copied. The byte that is stored three places behind `value` replaces the
byte count. -/
def rounds (receBuf : Buffer UInt8 100) (dataStartAddress : ℕ) : ℕ :=
  if (receBuf.peek 2).toNat ≤ 40 - dataStartAddress then (receBuf.peek 2).toNat
  else max (41 - dataStartAddress) (receBuf.peek (43 - dataStartAddress)).toNat

section Decoder

variable {g : Globals} {dataStartAddress frLenth : ℕ}

/-- Some rounds of the loop store as many bytes and change nothing else. What a round reads none of
those before has stored. -/
structure Copied (dataStartAddress n : ℕ) (g g' : Globals) : Prop where
  trace : g'.value.trace = g.value.trace ++ List.range' dataStartAddress n
  byteAt : ∀ j, g'.byteAt j =
    if dataStartAddress ≤ j ∧ j < dataStartAddress + n then g.byteAt (j - dataStartAddress + 41)
    else g.byteAt j
  rest : g' = { g with
    value := g'.value
    receBuf := g'.receBuf
    sendBuf := g'.sendBuf
    usartRxBuf := g'.usartRxBuf }

theorem copied_forRange (hstart : dataStartAddress ≤ 32) {n : ℕ} (hn : n ≤ 256) :
    Copied dataStartAddress n g (forRange 0 n (copyByte dataStartAddress) g) := by
  refine forRange_induction (P := fun n g' => Copied dataStartAddress n g g') (Nat.zero_le _)
    ?_ ?_
  · refine ⟨by simp, fun j => ?_, rfl⟩
    rw [if_neg (by omega)]
  · intro t g' _ ht ih
    refine ⟨?_, fun j => ?_, ?_⟩
    · rw [copyByte, Globals.value_storeAt, Traced.trace_store, ih.trace, List.append_assoc,
        List.range'_concat, Nat.one_mul, Nat.add_comm t]
    · rw [copyByte, Globals.byteAt_storeAt _ _ _ (by omega), ih.byteAt j, ih.byteAt]
      by_cases hj : j = t + dataStartAddress
      · subst hj
        rw [if_pos rfl, if_neg (by omega), if_pos (by omega), Nat.add_sub_cancel]
        congr 1
        omega
      · rw [if_neg hj]
        exact if_congr (by omega) rfl rfl
    · rw [copyByte, Globals.storeAt_eq, ih.rest]

/-- Before each round the third byte of the frame is what it was, or what the round three places
behind `value` has stored there. -/
theorem Copied.count {n : ℕ} {g' : Globals} (h : Copied dataStartAddress n g g')
    (hstart : dataStartAddress ≤ 32) : g'.receBuf.peek 2 =
      if 40 < dataStartAddress + n then g.receBuf.peek (43 - dataStartAddress)
      else g.receBuf.peek 2 := by
  have hbehind : 40 - dataStartAddress + 41 = 38 + (43 - dataStartAddress) := by omega
  rw [← Globals.byteAt_receBuf _ _ (by decide : 2 < 100), h.byteAt, hbehind,
    Globals.byteAt_receBuf _ _ (by omega), Globals.byteAt_receBuf _ _ (by decide)]
  exact if_congr (by omega) rfl rfl

theorem rounds_lt (receBuf : Buffer UInt8 100) (dataStartAddress : ℕ) :
    rounds receBuf dataStartAddress < 256 := by
  have hcount := (receBuf.peek 2).toNat_lt
  have hbehind := (receBuf.peek (43 - dataStartAddress)).toNat_lt
  rw [rounds]
  split_ifs <;> omega

/-- Another byte is copied as long as the count asks for it. -/
theorem lt_count_of_lt_rounds (hstart : dataStartAddress ≤ 32) {t : ℕ}
    (ht : t < rounds g.receBuf dataStartAddress) :
    0 + t < ((forRange 0 (0 + t) (copyByte dataStartAddress) g).receBuf.peek 2).toNat := by
  have hlt := rounds_lt g.receBuf dataStartAddress
  rw [Nat.zero_add, (copied_forRange (g := g) hstart (ht.trans hlt).le).count hstart]
  rw [rounds] at ht
  split_ifs at ht ⊢ <;> omega

theorem not_lt_count_rounds (hstart : dataStartAddress ≤ 32) :
    ¬ 0 + rounds g.receBuf dataStartAddress <
      ((forRange 0 (0 + rounds g.receBuf dataStartAddress) (copyByte dataStartAddress)
        g).receBuf.peek 2).toNat := by
  have hlt := rounds_lt g.receBuf dataStartAddress
  rw [Nat.zero_add, (copied_forRange (g := g) hstart hlt.le).count hstart, rounds]
  split_ifs <;> omega

theorem rtuDataAnlys_of_accepts (h : Accepts g.receBuf frLenth) (hstart : dataStartAddress ≤ 32) :
    (rtuDataAnlys dataStartAddress frLenth g).2 =
      forRange 0 (rounds g.receBuf dataStartAddress) (copyByte dataStartAddress) g := by
  have hloop : (rtuDataAnlys dataStartAddress frLenth g).2 =
      forWhile (fun tmp1 g => tmp1 < (g.receBuf.peek 2).toNat) (copyByte dataStartAddress) 256 0 g := by
    rw [rtuDataAnlys, if_pos h.1, if_pos h.2]
    rfl
  rw [hloop, forWhile_eq_forRange (n := rounds g.receBuf dataStartAddress)
    (rounds_lt g.receBuf dataStartAddress), Nat.zero_add]
  · exact fun t ht => decide_eq_true (lt_count_of_lt_rounds hstart ht)
  · exact decide_eq_false (not_lt_count_rounds hstart)

theorem copied_rtuDataAnlys (h : Accepts g.receBuf frLenth) (hstart : dataStartAddress ≤ 32) :
    Copied dataStartAddress (rounds g.receBuf dataStartAddress) g
      (rtuDataAnlys dataStartAddress frLenth g).2 := by
  rw [rtuDataAnlys_of_accepts h hstart]
  exact copied_forRange hstart (rounds_lt _ _).le

theorem rtuDataAnlys_of_not_accepts (h : ¬ Accepts g.receBuf frLenth) :
    (rtuDataAnlys dataStartAddress frLenth g).2 = g := by
  rw [rtuDataAnlys]
  split_ifs with hcrc hcode
  · exact absurd ⟨hcrc, hcode⟩ h
  · rfl
  · rfl

/-- The cells of `value` after decoding. -/
theorem peek_rtuDataAnlys (hstart : dataStartAddress ≤ 32) {j : ℕ} (hj : j < 38) :
    (rtuDataAnlys dataStartAddress frLenth g).2.value.peek j =
      if Accepts g.receBuf frLenth ∧ dataStartAddress ≤ j ∧
          j < dataStartAddress + (g.receBuf.peek 2).toNat
      then g.receBuf.peek (j - dataStartAddress + 3) else g.value.peek j := by
  -- a frame that passes is copied, any other leaves the cells alone
  by_cases h : Accepts g.receBuf frLenth
  · rw [← Globals.byteAt_value _ _ hj, ← Globals.byteAt_value _ _ hj,
      (copied_rtuDataAnlys h hstart).byteAt]
    -- when the count changes, `value` has been passed
    have hcount : j < dataStartAddress + rounds g.receBuf dataStartAddress ↔
        j < dataStartAddress + (g.receBuf.peek 2).toNat := by
      rw [rounds]
      split_ifs <;> omega
    by_cases hin : dataStartAddress ≤ j ∧ j < dataStartAddress + (g.receBuf.peek 2).toNat
    · have hplace : j - dataStartAddress + 41 = 38 + (j - dataStartAddress + 3) := by omega
      rw [if_pos ⟨hin.1, hcount.mpr hin.2⟩, if_pos ⟨h, hin⟩, hplace,
        Globals.byteAt_receBuf _ _ (by omega)]
    · rw [if_neg fun h' => hin ⟨h'.1, hcount.mp h'.2⟩, if_neg fun h' => hin h'.2]
  · rw [rtuDataAnlys_of_not_accepts h, if_neg fun h' => h h'.1]

/-- The positions decoding stores to. -/
theorem trace_rtuDataAnlys (hstart : dataStartAddress ≤ 32) :
    (rtuDataAnlys dataStartAddress frLenth g).2.value.trace =
      g.value.trace ++ if Accepts g.receBuf frLenth
        then List.range' dataStartAddress (rounds g.receBuf dataStartAddress) else [] := by
  by_cases h : Accepts g.receBuf frLenth
  · rw [if_pos h]
    exact (copied_rtuDataAnlys h hstart).trace
  · rw [rtuDataAnlys_of_not_accepts h, if_neg h, List.append_nil]

/-- Decoding changes nothing but the memory from `value` on. -/
theorem rtuDataAnlys_rest (hstart : dataStartAddress ≤ 32) :
    (rtuDataAnlys dataStartAddress frLenth g).2 = { g with
      value := (rtuDataAnlys dataStartAddress frLenth g).2.value
      receBuf := (rtuDataAnlys dataStartAddress frLenth g).2.receBuf
      sendBuf := (rtuDataAnlys dataStartAddress frLenth g).2.sendBuf
      usartRxBuf := (rtuDataAnlys dataStartAddress frLenth g).2.usartRxBuf } := by
  by_cases h : Accepts g.receBuf frLenth
  · exact (copied_rtuDataAnlys h hstart).rest
  · rw [rtuDataAnlys_of_not_accepts h]

/-- A frame whose data bytes fit stays inside `value`. -/
theorem receBuf_rtuDataAnlys (hstart : dataStartAddress ≤ 32)
    (h : Accepts g.receBuf frLenth → dataStartAddress + (g.receBuf.peek 2).toNat ≤ 38) :
    (rtuDataAnlys dataStartAddress frLenth g).2.receBuf = g.receBuf := by
  by_cases haccepts : Accepts g.receBuf frLenth
  · have hfits := h haccepts
    have hrounds : rounds g.receBuf dataStartAddress = (g.receBuf.peek 2).toNat :=
      if_pos (by omega)
    refine Buffer.ext_peek fun i hi => ?_
    rw [← Globals.byteAt_receBuf _ _ hi, ← Globals.byteAt_receBuf _ _ hi,
      (copied_rtuDataAnlys haccepts hstart).byteAt, hrounds, if_neg (by omega)]
  · rw [rtuDataAnlys_of_not_accepts haccepts]

/-- The value that says a frame is complete plays no part in decoding. -/
theorem rtuDataAnlys_modbusCom2Over (hstart : dataStartAddress ≤ 32) (flag : UInt8) :
    (rtuDataAnlys dataStartAddress frLenth { g with modbusCom2Over := flag }).2 =
      { (rtuDataAnlys dataStartAddress frLenth g).2 with modbusCom2Over := flag } := by
  by_cases h : Accepts g.receBuf frLenth
  · rw [rtuDataAnlys_of_accepts h hstart,
      rtuDataAnlys_of_accepts (g := { g with modbusCom2Over := flag }) h hstart]
    refine (forRange_map (fun g : Globals => { g with modbusCom2Over := flag }) _
      fun t g => ?_).symm
    rw [copyByte, copyByte, Globals.storeAt, Globals.storeAt]
    split_ifs <;> rfl
  · rw [rtuDataAnlys_of_not_accepts h,
      rtuDataAnlys_of_not_accepts (g := { g with modbusCom2Over := flag }) h]

end Decoder

theorem start_le (k : Slave) : k.start ≤ 32 := by cases k <;> decide

/-- A frame that is copied into its block as a whole is no longer than the block. -/
theorem rounds_le_size_iff (receBuf : Buffer UInt8 100) (k : Slave) :
    rounds receBuf k.start ≤ k.size ↔ (receBuf.peek 2).toNat ≤ k.size := by
  have hblock : k.start + k.size ≤ 38 := by cases k <;> decide
  rw [rounds]
  split_ifs <;> omega

/-- A frame that starts with the address of a slave takes that slave's branch. -/
theorem acceptReply_of_addr {g : Globals} {k : Slave} (h : g.receBuf.peek 0 = k.addr) :
    acceptReply g = decodeBranch k.start (k.start + k.size) k.replyLength g := by
  cases k <;> simp [acceptReply, h, Slave.addr] <;> rfl

/-- Any other frame is ignored. -/
theorem acceptReply_of_ne {g : Globals} (h : ∀ k : Slave, g.receBuf.peek 0 ≠ k.addr) :
    acceptReply g = { g with modbusCom2Over := 2 } := by
  have h1 : g.receBuf.peek 0 ≠ 1 := h .one
  have h2 : g.receBuf.peek 0 ≠ 2 := h .two
  have h3 : g.receBuf.peek 0 ≠ 3 := h .three
  simp [acceptReply, h1, h2, h3]

/-- What a decoding branch changes: what the decoder stores to, the branch's block of the packet,
which is copied from `value`, and the values that report it. -/
theorem decodeBranch_eq {lo hi frLenth : ℕ} {g : Globals} (hlo : lo ≤ 32) :
    decodeBranch lo hi frLenth g =
      let decoded := (rtuDataAnlys lo frLenth g).2
      { g with
        modbusCom2Over := 0
        value := decoded.value
        receBuf := decoded.receBuf
        sendBuf := decoded.sendBuf
        usartRxBuf := decoded.usartRxBuf
        tcpClientSendbuf :=
          forRange lo hi (fun t buf => buf.store (t + 6) (decoded.value.peek t)) g.tcpClientSendbuf
        ready := 1 } := by
  rw [decodeBranch, rtuDataAnlys_modbusCom2Over hlo, rtuDataAnlys_rest hlo]

/-- The cells of the packet after a decoding branch: the branch's block of
`value`, shifted by the six header bytes. -/
theorem peek_sendbuf_decodeBranch {lo hi frLenth : ℕ} {g : Globals} (hlo : lo ≤ 32) (j : ℕ) :
    (decodeBranch lo hi frLenth g).tcpClientSendbuf.peek j =
      if lo + 6 ≤ j ∧ j < hi + 6 ∧ j < 1044
      then (rtuDataAnlys lo frLenth g).2.value.peek (j - 6)
      else g.tcpClientSendbuf.peek j := by
  rw [decodeBranch_eq hlo]
  exact Traced.peek_forRange_store

/-- A frame that fills the front of the buffer passes the checksum test, and its
body is what the decoder reads there. -/
theorem crcMatches_of_frame {m : ℕ} {sourceP : Buffer UInt8 m} {body : List UInt8}
    (h : sourceP.slice 0 (body.length + 2) = frame crc16 body) :
    CrcMatches sourceP (body.length + 2) ∧
      ∀ i < body.length, body[i]? = some (sourceP.peek i) := by
  obtain ⟨hbody, hcells⟩ := peek_of_frame h
  have hframe : sourceP.slice 0 (body.length + 2) = frame crc16 (sourceP.slice 0 body.length) := by
    rw [hbody, h]
  exact ⟨slice_eq_frame_iff.mp hframe, hcells⟩

/-- A well-formed reply at the front of the buffer is accepted. -/
theorem accepts_of_reply {m : ℕ} {sourceP : Buffer UInt8 m} {k : Slave} {data : Payload k}
    (h : sourceP.slice 0 k.replyLength = reply crc16 k data) :
    Accepts sourceP k.replyLength ∧ sourceP.peek 0 = k.addr ∧
      sourceP.peek 2 = UInt8.ofNat k.size ∧
      ∀ i < k.size, sourceP.peek (i + 3) = data.peek i := by
  have hlength : (replyBody k data).length + 2 = k.replyLength := by
    rw [length_replyBody, Slave.replyLength]
  -- the reply is the frame of its body, which the decoder reads byte by byte
  rw [← hlength] at h
  obtain ⟨hcrc, hbody⟩ := crcMatches_of_frame h
  rw [length_replyBody] at hbody
  have hcell {i : ℕ} {x : UInt8} (hi : i < k.size + 3) (hx : (replyBody k data)[i]? = some x) :
      sourceP.peek i = x := Option.some.inj ((hbody i hi).symm.trans hx)
  refine ⟨⟨hlength ▸ hcrc, hcell (by omega) rfl⟩, hcell (by omega) rfl, hcell (by omega) rfl, ?_⟩
  intro i hi
  exact hcell (by omega) (getElem?_replyBody_data hi)

end FanGateway.Stm32
