import FanGateway.Stm32.Master

/-!
# Polling a healthy bus

Every poll sends one request and publishes the reply to the one before. On a bus
where each slave answers its request with a well-formed reply, the requests go
round the three slaves, and after every poll the block of the slave asked before
holds exactly the bytes of its last reply, in `value` and in the packet for the
server alike.

The invariant is about the moment before a poll: the slave in turn is fixed by
the number of polls, and the receive buffer starts with the last reply. What an
older and longer reply left behind it is never read.
-/

namespace FanGateway.Stm32

open Lib Modbus

/-! ## Runs of the gateway -/

/-- A poll of the task or an interrupt of the serial line. -/
inductive Event
  | poll
  | irq (i : Irq)
  deriving DecidableEq, Repr

def step (g : Globals) : Event → Globals
  | .poll => modbusRtu g
  | .irq i => usart2IRQHandler g i

/-- The globals after a sequence of events from boot. -/
def run (events : List Event) : Globals := events.foldl step boot

@[simp] theorem run_append_singleton (events : List Event) (e : Event) :
    run (events ++ [e]) = step (run events) e := by simp [run]

/-- The interrupts of a complete request followed by the received bytes. -/
def exchange (bytes : List UInt8) : List Event :=
  .poll :: List.replicate 8 (.irq .tc) ++ bytes.map fun ch => .irq (.rxne ch)

theorem run_append_exchange (events : List Event) (bytes : List UInt8) :
    run (events ++ exchange bytes) = receive (transmit (modbusRtu (run events)) 8) bytes := by
  simp only [run, exchange, List.foldl_append, List.foldl_cons, List.foldl_map]
  rfl

/-! ## One exchange -/

section Frame

variable (g : Globals)

/-- The first half of a poll does not touch what the second half goes by. -/
theorem acceptReply_frame : (acceptReply g).slaveraddr = g.slaveraddr ∧
    (acceptReply g).dataRegister = g.dataRegister := by
  by_cases haddr : ∃ k : Slave, g.receBuf.peek 0 = k.addr
  · obtain ⟨k, hk⟩ := haddr
    rw [acceptReply_of_addr hk, decodeBranch_eq (start_le k)]
    exact ⟨rfl, rfl⟩
  · rw [acceptReply_of_ne (not_exists.mp haddr)]
    exact ⟨rfl, rfl⟩

@[simp] theorem acceptReply_slaveraddr : (acceptReply g).slaveraddr = g.slaveraddr :=
  (acceptReply_frame g).1

@[simp] theorem acceptReply_dataRegister : (acceptReply g).dataRegister = g.dataRegister :=
  (acceptReply_frame g).2

end Frame

/-- What a poll leaves behind: the published data of the reply it found, the
request of the slave in turn about to go out, reception at the front. -/
structure AfterPoll (g g' : Globals) : Prop where
  value : g'.value = (acceptReply g).value
  packet : g'.tcpClientSendbuf = (acceptReply g).tcpClientSendbuf
  ready : g'.ready = (acceptReply g).ready
  receBuf : g'.receBuf = (acceptReply g).receBuf
  receCount : g'.receCount = 0
  sendBuf : g'.sendBuf.slice 0 8 = request crc16 (turn g.slaveraddr)
  sendCount : g'.sendCount = 7
  sendPosi : g'.sendPosi = 0
  slaveraddr : g'.slaveraddr = advance g.slaveraddr
  dataRegister : g'.dataRegister = g.dataRegister ++ [g'.sendBuf.peek 0]

theorem afterPoll (g : Globals) : AfterPoll g (modbusRtu g) := by
  obtain ⟨sendBuf, hsendBuf, hnext⟩ := nextRequest_eq { acceptReply g with receCount := 0 }
  rw [modbusRtu, hnext]
  rw [acceptReply_slaveraddr] at hsendBuf
  exact ⟨rfl, rfl, rfl, rfl, rfl, hsendBuf, rfl, rfl,
    congrArg advance (acceptReply_slaveraddr g), by simp⟩

/-- After a poll, its request and a reply that fits, the reply is at the front of
the receive buffer, the whole request is on the line, and the data are those the
poll published. -/
structure AfterExchange (g g' : Globals) (bytes : List UInt8) : Prop where
  value : g'.value = (modbusRtu g).value
  packet : g'.tcpClientSendbuf = (modbusRtu g).tcpClientSendbuf
  received : g'.receBuf.slice 0 bytes.length = bytes
  slaveraddr : g'.slaveraddr = advance g.slaveraddr
  dataRegister : g'.dataRegister = g.dataRegister ++ request crc16 (turn g.slaveraddr)

theorem afterExchange (g : Globals) {bytes : List UInt8} (hfit : bytes.length ≤ 25) :
    AfterExchange g (receive (transmit (modbusRtu g) 8) bytes) bytes := by
  have hpoll := afterPoll g
  -- seven interrupts send the rest of the request, the eighth turns the line around
  have hsent := transmit_all hpoll.sendPosi (by rw [hpoll.sendCount]; omega)
  rw [hpoll.sendCount] at hsent
  rw [hsent, receive_eq (by simpa using hfit)]
  refine ⟨rfl, rfl, Buffer.slice_blit (by simp only; omega), hpoll.slaveraddr, ?_⟩
  have hrequest : [(modbusRtu g).sendBuf.peek 0] ++ (modbusRtu g).sendBuf.slice 1 7 =
      request crc16 (turn g.slaveraddr) := by
    rw [← hpoll.sendBuf, show 8 = 1 + 7 from rfl, Buffer.slice_append]
    rfl
  calc (modbusRtu g).dataRegister ++ (modbusRtu g).sendBuf.slice 1 7
      = g.dataRegister ++ ([(modbusRtu g).sendBuf.peek 0] ++
          (modbusRtu g).sendBuf.slice 1 7) := by
        rw [hpoll.dataRegister, List.append_assoc]
    _ = g.dataRegister ++ request crc16 (turn g.slaveraddr) := by rw [hrequest]

/-- A frame that is received passes the checksum test, and its body is at the front of the receive
buffer. What is received after it lies behind it. -/
theorem received_frame_append (events : List Event) (body more : List UInt8)
    (hfit : body.length + 2 + more.length ≤ 25) :
    let g := run (events ++ exchange (frame crc16 body ++ more))
    CrcMatches g.receBuf (body.length + 2) ∧
      (∀ i < body.length, body[i]? = some (g.receBuf.peek i)) ∧
      ∀ i < more.length, more[i]? = some (g.receBuf.peek (body.length + 2 + i)) := by
  intro g
  have hlength : (frame crc16 body ++ more).length = body.length + 2 + more.length := by
    rw [List.length_append, length_frame]
  have hreceived := (afterExchange (run events) (hlength.trans_le hfit)).received
  rw [← run_append_exchange, hlength, Buffer.slice_append, Nat.zero_add] at hreceived
  obtain ⟨hframe, hmore⟩ := List.append_inj hreceived (by rw [Buffer.length_slice, length_frame])
  obtain ⟨hcrc, hbody⟩ := crcMatches_of_frame hframe
  refine ⟨hcrc, hbody, fun i hi => ?_⟩
  rw [← hmore, Buffer.getElem?_slice, if_pos hi]

theorem received_frame (events : List Event) (body : List UInt8) (hfit : body.length + 2 ≤ 25) :
    let g := run (events ++ exchange (frame crc16 body))
    CrcMatches g.receBuf (body.length + 2) ∧
      ∀ i < body.length, body[i]? = some (g.receBuf.peek i) := by
  obtain ⟨hcrc, hbody, -⟩ := received_frame_append events body [] hfit
  rw [List.append_nil] at hcrc hbody
  exact ⟨hcrc, hbody⟩

/-! ## What a poll publishes -/

/-- The change a poll makes to the data of the gateway when it publishes a reply:
the slave's block of `value` and its block of the packet take the reply's bytes
and nothing else moves. -/
structure Publishes (k : Slave) (data : Payload k) (g g' : Globals) : Prop where
  value_block : ∀ i < k.size, g'.value.peek (k.start + i) = data.peek i
  packet_block : ∀ i < k.size, g'.tcpClientSendbuf.peek (k.start + i + 6) = data.peek i
  value_rest : ∀ j < 38, ¬ k.InBlock j → g'.value.peek j = g.value.peek j
  packet_rest : ∀ j < 44, ¬ (6 ≤ j ∧ k.InBlock (j - 6)) →
    g'.tcpClientSendbuf.peek j = g.tcpClientSendbuf.peek j

/-- A poll that leaves the data of the gateway alone. -/
structure PublishesNothing (g g' : Globals) : Prop where
  value : g'.value = g.value
  packet : g'.tcpClientSendbuf = g.tcpClientSendbuf

section Decoded

variable {g : Globals} {k : Slave}

/-- A poll that finds the address of a slave runs the decoder on its block. -/
theorem value_of_addr (h : g.receBuf.peek 0 = k.addr) : (modbusRtu g).value =
    (rtuDataAnlys k.start k.replyLength g).2.value := by
  rw [(afterPoll g).value, acceptReply_of_addr h, decodeBranch_eq (start_le k)]

/-- Such a poll copies the slave's block of `value`, and nothing else, to the packet. -/
theorem peek_packet_of_addr (h : g.receBuf.peek 0 = k.addr) {j : ℕ} (hj : j < 1044) :
    (modbusRtu g).tcpClientSendbuf.peek j =
      if 6 ≤ j ∧ k.InBlock (j - 6) then (modbusRtu g).value.peek (j - 6)
      else g.tcpClientSendbuf.peek j := by
  rw [(afterPoll g).packet, acceptReply_of_addr h, peek_sendbuf_decodeBranch (start_le k),
    ← value_of_addr h]
  refine if_congr ?_ rfl rfl
  simp only [Slave.InBlock]
  omega

/-- A poll publishes a well-formed reply at the front of the receive buffer. -/
theorem publishes_of_reply {data : Payload k}
    (h : g.receBuf.slice 0 k.replyLength = reply crc16 k data) :
    Publishes k data g (modbusRtu g) := by
  obtain ⟨haccepts, haddr, hcount, hdata⟩ := accepts_of_reply h
  have hbound : k.start + k.size ≤ 38 := by cases k <;> decide
  -- a well-formed reply counts exactly the bytes of its block
  have hbytes : (g.receBuf.peek 2).toNat = k.size := by rw [hcount]; cases k <;> rfl
  have hvalue (j : ℕ) (hj : j < 38) : (modbusRtu g).value.peek j =
      if k.InBlock j then data.peek (j - k.start) else g.value.peek j := by
    rw [value_of_addr haddr, peek_rtuDataAnlys (start_le k) hj, hbytes]
    by_cases hin : k.InBlock j
    · have hlower := hin.1
      have hupper := hin.2
      rw [if_pos ⟨haccepts, hlower, hupper⟩, if_pos hin, hdata _ (by omega)]
    · rw [if_neg fun h' => hin ⟨h'.2.1, h'.2.2⟩, if_neg hin]
  have hin (i : ℕ) (hi : i < k.size) : k.InBlock (k.start + i) := ⟨by omega, by omega⟩
  refine ⟨fun i hi => ?_, fun i hi => ?_, fun j hj hout => ?_, fun j hj hout => ?_⟩
  · rw [hvalue _ (by omega), if_pos (hin i hi), Nat.add_sub_cancel_left]
  · rw [peek_packet_of_addr haddr (by omega), Nat.add_sub_cancel,
      if_pos ⟨by omega, hin i hi⟩, hvalue _ (by omega), if_pos (hin i hi),
      Nat.add_sub_cancel_left]
  · rw [hvalue j hj, if_neg hout]
  · rw [peek_packet_of_addr haddr (by omega), if_neg hout]

end Decoded

/-! ## Any number of exchanges -/

/-- The slave asked by each poll, counted from zero. -/
def slaveAt (i : ℕ) : Slave :=
  if i % 3 = 0 then .three else if i % 3 = 1 then .one else .two

/-- The events of the first exchanges of a healthy bus: the slave asked answers
with a well-formed reply. -/
def exchanges (data : ∀ i, Payload (slaveAt i)) : ℕ → List Event
  | 0 => []
  | i + 1 => exchanges data i ++ exchange (reply crc16 (slaveAt i) (data i))

/-- The address the code holds before a poll, by the number of polls so far. -/
def AddressAt (i : ℕ) (slaveraddr : UInt8) : Prop :=
  (i % 3 = 0 ∧ (slaveraddr = 0 ∨ slaveraddr = 3)) ∨ (i % 3 = 1 ∧ slaveraddr = 1) ∨
    (i % 3 = 2 ∧ slaveraddr = 2)

theorem AddressAt.turn_eq {i : ℕ} {a : UInt8} (h : AddressAt i a) : turn a = slaveAt i := by
  rcases h with ⟨hi, rfl | rfl⟩ | ⟨hi, rfl⟩ | ⟨hi, rfl⟩ <;> simp [slaveAt, hi] <;> rfl

theorem AddressAt.advance {i : ℕ} {a : UInt8} (h : AddressAt i a) :
    AddressAt (i + 1) (advance a) := by
  rcases h with ⟨hi, rfl | rfl⟩ | ⟨hi, rfl⟩ | ⟨hi, rfl⟩
  · exact .inr (.inl ⟨by omega, rfl⟩)
  · exact .inr (.inl ⟨by omega, rfl⟩)
  · exact .inr (.inr ⟨by omega, rfl⟩)
  · exact .inl ⟨by omega, .inr rfl⟩

/-- Before a poll on a healthy bus: the turn is fixed by the number of polls, and
the receive buffer starts with the last reply, or is still empty. -/
structure Waiting (data : ∀ i, Payload (slaveAt i)) (i : ℕ) (g : Globals) : Prop where
  address : AddressAt i g.slaveraddr
  empty : i = 0 → g.receBuf.peek 0 = 0
  received : ∀ n, i = n + 1 →
    g.receBuf.slice 0 (slaveAt n).replyLength = reply crc16 (slaveAt n) (data n)

theorem replyLength_le (k : Slave) : k.replyLength ≤ 25 := by cases k <;> decide

/-- The globals reached by one more exchange of a healthy bus. -/
theorem afterExchange_run (data : ∀ i, Payload (slaveAt i)) (i : ℕ) :
    AfterExchange (run (exchanges data i)) (run (exchanges data (i + 1)))
      (reply crc16 (slaveAt i) (data i)) := by
  rw [exchanges, run_append_exchange]
  exact afterExchange _ (by rw [length_reply]; exact replyLength_le _)

theorem waiting_run (data : ∀ i, Payload (slaveAt i)) (i : ℕ) :
    Waiting data i (run (exchanges data i)) := by
  -- induction on the exchanges; `Waiting` is the invariant
  induction i with
  | zero => exact ⟨.inl ⟨rfl, .inl rfl⟩, fun _ => rfl, fun n h => absurd h (by omega)⟩
  | succ i ih =>
    have hnext := afterExchange_run data i
    refine ⟨hnext.slaveraddr ▸ ih.address.advance, fun h => absurd h (by omega), ?_⟩
    intro n hn
    obtain rfl : i = n := by omega
    simpa using hnext.received

/-- The first poll finds an empty receive buffer and publishes nothing. -/
theorem publishesNothing_of_empty {g : Globals} (h : g.receBuf.peek 0 = 0) :
    PublishesNothing g (modbusRtu g) := by
  have hignored := acceptReply_of_ne (g := g) fun k => by rw [h]; cases k <;> decide
  have hpoll := afterPoll g
  exact ⟨by rw [hpoll.value, hignored], by rw [hpoll.packet, hignored]⟩

/-- **Polling.** On a healthy bus, whatever data the slaves report and however
often they are polled: the polls send the requests of slaves 3, 1, 2, 3, 1, 2 and
so on, whole and in order; the first poll publishes nothing; and every later poll
publishes exactly the data of the reply to the request before. -/
theorem polling_publishes_replies (data : ∀ i, Payload (slaveAt i)) (i : ℕ) :
    (run (exchanges data i)).dataRegister =
        (List.range i).flatMap (fun n => request crc16 (slaveAt n)) ∧
      (i = 0 → PublishesNothing (run (exchanges data i)) (modbusRtu (run (exchanges data i)))) ∧
      ∀ n, i = n + 1 → Publishes (slaveAt n) (data n) (run (exchanges data i))
        (modbusRtu (run (exchanges data i))) := by
  refine ⟨?_, fun hi => ?_, fun n hn => ?_⟩
  · -- induction on the exchanges; each adds the request of the slave in turn
    induction i with
    | zero => rfl
    | succ i ih =>
      rw [(afterExchange_run data i).dataRegister, ih, (waiting_run data i).address.turn_eq,
        List.range_succ, List.flatMap_append, List.flatMap_singleton]
  · exact publishesNothing_of_empty ((waiting_run data i).empty hi)
  · exact publishes_of_reply ((waiting_run data i).received n hn)

end FanGateway.Stm32
