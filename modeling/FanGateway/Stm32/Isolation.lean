import FanGateway.Stm32.Polling

/-!
# Isolation of the slaves

A poll that decodes the frame of one slave should write inside that slave's
block of `value` and nowhere else. The decoder checks a frame of the length its
slave answers with, but the loop that copies the data is bounded by the third
byte of the frame. The checksum covers that byte without relating it to the
size of the block, so a frame that passes every test can still count more bytes
than its block has room for.
-/

namespace FanGateway.Stm32

open Lib Modbus

/-- A poll from `g` to `g'` that stays inside the blocks of slave `k`: every
store to `value` falls in the slave's block, and the other cells of `value` and
the other slaves' blocks of the packet keep their contents. -/
structure Isolated (k : Slave) (g g' : Globals) : Prop where
  writes : ∃ positions, g'.value.trace = g.value.trace ++ positions ∧
    ∀ i ∈ positions, k.InBlock i
  value_rest : ∀ j < 38, ¬ k.InBlock j → g'.value.peek j = g.value.peek j
  packet_rest : ∀ l ≠ k, ∀ i, l.InBlock i →
    g'.tcpClientSendbuf.peek (i + 6) = g.tcpClientSendbuf.peek (i + 6)

/-- The receive buffer holds a frame of slave `k` that the decoder copies from
and that counts more data bytes than the slave's block has. -/
def Overlong (k : Slave) (g : Globals) : Prop :=
  g.receBuf.peek 0 = k.addr ∧ Accepts g.receBuf k.replyLength ∧
    k.size < (g.receBuf.peek 2).toNat

section Decoded

variable {g : Globals} {k : Slave}

/-- The positions a poll stores to: from the start of the block on, as many as it copies. -/
theorem trace_of_addr (h : g.receBuf.peek 0 = k.addr) : (modbusRtu g).value.trace =
    g.value.trace ++ if Accepts g.receBuf k.replyLength
      then List.range' k.start (rounds g.receBuf k.start) else [] := by
  rw [value_of_addr h, trace_rtuDataAnlys (start_le k)]

/-- A frame that counts no more bytes than the block has stays inside the block. -/
theorem isolated_of_not_overlong (h : g.receBuf.peek 0 = k.addr) (hfits : ¬ Overlong k g) :
    Isolated k g (modbusRtu g) := by
  have hcount (haccepts : Accepts g.receBuf k.replyLength) :
      (g.receBuf.peek 2).toNat ≤ k.size :=
    Nat.le_of_not_lt fun hlong => hfits ⟨h, haccepts, hlong⟩
  -- the positions stored to, the rest of `value`, the rest of the packet
  refine ⟨⟨_, trace_of_addr h, ?_⟩, ?_, ?_⟩
  · intro i hi
    split_ifs at hi with haccepts
    · have hroom := (rounds_le_size_iff _ k).mpr (hcount haccepts)
      rw [List.mem_range'_1] at hi
      exact ⟨hi.1, by omega⟩
    · exact absurd hi List.not_mem_nil
  · intro j hj hout
    rw [value_of_addr h, peek_rtuDataAnlys (start_le k) hj, if_neg]
    rintro ⟨haccepts, hlower, hupper⟩
    have hroom := hcount haccepts
    exact hout ⟨hlower, by omega⟩
  · intro l hl i hi
    have hi38 := hi.lt
    rw [peek_packet_of_addr h (by omega), Nat.add_sub_cancel, if_neg]
    rintro ⟨-, hin⟩
    exact hl (hi.eq hin)

/-- A frame that counts more stores at least one byte behind the block. -/
theorem not_isolated_of_overlong (h : Overlong k g) : ¬ Isolated k g (modbusRtu g) := by
  obtain ⟨haddr, haccepts, hlong⟩ := h
  rintro ⟨⟨positions, htrace, hin⟩, -, -⟩
  rw [trace_of_addr haddr, if_pos haccepts] at htrace
  obtain rfl := List.append_cancel_left htrace
  -- the first byte behind the block is among the positions
  have hrounds : k.size < rounds g.receBuf k.start :=
    not_le.mp fun hle => not_le.mpr hlong ((rounds_le_size_iff _ k).mp hle)
  have hbehind := hin (k.start + k.size) (List.mem_range'_1.mpr ⟨by omega, by omega⟩)
  exact absurd hbehind.2 (by omega)

/-- Without an overlong frame a poll leaves the receive buffer as it is. -/
theorem receBuf_of_not_overlong (h : ∀ l : Slave, ¬ Overlong l g) :
    (modbusRtu g).receBuf = g.receBuf := by
  rw [(afterPoll g).receBuf]
  by_cases haddr : ∃ l : Slave, g.receBuf.peek 0 = l.addr
  · obtain ⟨l, hl⟩ := haddr
    have hblock : l.start + l.size ≤ 38 := by cases l <;> decide
    rw [acceptReply_of_addr hl, decodeBranch_eq (start_le l)]
    refine receBuf_rtuDataAnlys (start_le l) fun haccepts => ?_
    have hfits := Nat.le_of_not_lt fun hlong => h l ⟨hl, haccepts, hlong⟩
    omega
  · rw [acceptReply_of_ne (not_exists.mp haddr)]

end Decoded

/-- **Isolation.** A poll that decodes a frame of slave `k` stays inside the blocks
of that slave exactly when the frame is not overlong. -/
theorem modbusRtu_isolated_iff (g : Globals) (k : Slave) :
    (g.receBuf.peek 0 = k.addr → Isolated k g (modbusRtu g)) ↔ ¬ Overlong k g := by
  constructor
  · intro hisolated hlong
    exact not_isolated_of_overlong hlong (hisolated hlong.1)
  · intro hfits haddr
    exact isolated_of_not_overlong haddr hfits

/-- The body of a reply of slave 1 with the usual sixteen data bytes, whose byte
count says twenty. -/
def overlongBody : List UInt8 := [1, 3, 20] ++ List.replicate 16 0

/-- Slave 1 answers its first request with that frame. The next poll passes it
and stores four bytes in the block of slave 2. -/
theorem overlong_reply_not_isolated :
    let g := run (exchange [] ++ exchange (frame crc16 overlongBody))
    g.receBuf.peek 0 = Slave.one.addr ∧ ¬ Isolated .one g (modbusRtu g) := by
  intro g
  obtain ⟨hcrc, hbody⟩ := received_frame (exchange []) overlongBody (by decide)
  have haddr : g.receBuf.peek 0 = 1 := Option.some.inj (hbody 0 (by decide)).symm
  have hcode : g.receBuf.peek 1 = 3 := Option.some.inj (hbody 1 (by decide)).symm
  have hcount : g.receBuf.peek 2 = 20 := Option.some.inj (hbody 2 (by decide)).symm
  refine ⟨haddr, not_isolated_of_overlong ⟨haddr, ⟨hcrc, hcode⟩, ?_⟩⟩
  rw [hcount]
  decide

end FanGateway.Stm32
