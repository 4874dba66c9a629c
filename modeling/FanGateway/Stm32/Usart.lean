import FanGateway.Lib.Buffer

/-!
# The serial line of the STM32 gateway

The globals shared by the poll task and the USART2 interrupt, and the interrupt
routine itself. The routine looks at the receive flag first, so one run of it
either takes a received byte or finishes a transmitted one. Writes to the data
register are kept in the order they happen; they are what the line carries.
-/

namespace FanGateway.Stm32

open Lib

/-- The globals of `usart.c`, `master.c` and `main.c` that the Modbus poll and
the USART2 interrupt read or write. -/
structure Globals where
  receCount : ℕ
  receBuf : Buffer UInt8 100
  sendCount : ℕ
  sendBuf : Buffer UInt8 10
  sendPosi : ℕ
  usartRxBuf : Buffer UInt8 200
  modbusCom2Over : UInt8
  slaveraddr : UInt8
  value : Traced UInt8 38
  ready : UInt8
  tcpClientSendbuf : Traced UInt8 1044
  /-- The RS-485 direction pin: set while sending. -/
  pa1 : Bool
  /-- The bytes written to the USART2 data register, oldest first. -/
  dataRegister : List UInt8

/-- All globals zero, the direction pin at reception, nothing sent. -/
def boot : Globals where
  receCount := 0
  receBuf := fun _ => 0
  sendCount := 0
  sendBuf := fun _ => 0
  sendPosi := 0
  usartRxBuf := fun _ => 0
  modbusCom2Over := 0
  slaveraddr := 0
  value := ⟨fun _ => 0, []⟩
  ready := 0
  tcpClientSendbuf := ⟨fun _ => 0, []⟩
  pa1 := false
  dataRegister := []

/-- `USART_SendData(USART2, byte)`. -/
def sendData (byte : UInt8) (g : Globals) : Globals :=
  { g with dataRegister := g.dataRegister ++ [byte] }

def beginSend (g : Globals) : Globals :=
  let g := { g with pa1 := true, sendPosi := 0 }
  -- from here on the count is that of the bytes still to be sent behind the first
  let g := if g.sendCount > 1 then { g with sendCount := g.sendCount - 1 } else g
  sendData (g.sendBuf.peek 0) g

/-- What the interrupt routine finds pending: a received byte, or else a
finished transmission. -/
inductive Irq
  | rxne (ch : UInt8)
  | tc
  deriving DecidableEq, Repr

def usart2IRQHandler (g : Globals) : Irq → Globals
  | .rxne ch =>
    -- a byte is kept while fewer than 25 have come in, though the buffer has room for 100
    if g.receCount < 25 then
      { g with
        receBuf := g.receBuf.poke g.receCount ch
        receCount := (g.receCount + 1) % 256 }
    else g
  | .tc =>
    if g.sendPosi < g.sendCount then
      let g := { g with sendPosi := (g.sendPosi + 1) % 256 }
      sendData (g.sendBuf.peek g.sendPosi) g
    -- nothing left to send: the line is turned around
    else { g with pa1 := false, receCount := 0 }

/-! ## The memory behind `value` -/

namespace Globals

/-- The byte so many places behind the start of `value`. The linker has put the 100 bytes of
`receBuf`, the 10 of `sendBuf` and the 200 of `USART_RX_BUF` right behind its 38. -/
def byteAt (g : Globals) (i : ℕ) : UInt8 :=
  if i < 38 then g.value.peek i
  else if i < 138 then g.receBuf.peek (i - 38)
  else if i < 148 then g.sendBuf.peek (i - 138)
  else g.usartRxBuf.peek (i - 148)

/-- Store a byte through a pointer into `value`, which may have left it. -/
def storeAt (i : ℕ) (x : UInt8) (g : Globals) : Globals :=
  let g := { g with value := g.value.store i x }
  if i < 38 then g
  else if i < 138 then { g with receBuf := g.receBuf.poke (i - 38) x }
  else if i < 148 then { g with sendBuf := g.sendBuf.poke (i - 138) x }
  else { g with usartRxBuf := g.usartRxBuf.poke (i - 148) x }

variable (g : Globals) (i : ℕ) (x : UInt8)

@[simp] theorem value_storeAt : (g.storeAt i x).value = g.value.store i x := by
  rw [storeAt]
  split_ifs <;> rfl

theorem byteAt_value (h : i < 38) : g.byteAt i = g.value.peek i := if_pos h

theorem byteAt_receBuf (h : i < 100) : g.byteAt (38 + i) = g.receBuf.peek i := by
  rw [byteAt, if_neg (by omega), if_pos (by omega), Nat.add_sub_cancel_left]

/-- What such a store changes. -/
theorem byteAt_storeAt {j : ℕ} (hi : i < 348) :
    (g.storeAt i x).byteAt j = if j = i then x else g.byteAt j := by
  rw [storeAt]
  -- the array that the store is to and the one that is read
  split_ifs with h₁ h₂ h₃ <;>
    simp only [byteAt, Traced.peek, Traced.store, Buffer.peek_poke] <;> split_ifs <;>
      first | omega | rfl

/-- The buffers and `value` are all that changes. -/
theorem storeAt_eq : g.storeAt i x = { g with
    value := (g.storeAt i x).value
    receBuf := (g.storeAt i x).receBuf
    sendBuf := (g.storeAt i x).sendBuf
    usartRxBuf := (g.storeAt i x).usartRxBuf } := by
  rw [storeAt]
  split_ifs <;> rfl

end Globals

/-! ## Receiving -/

/-- One receive interrupt for each byte. -/
def receive (g : Globals) (bytes : List UInt8) : Globals :=
  bytes.foldl (fun g ch => usart2IRQHandler g (.rxne ch)) g

theorem receive_cons (g : Globals) (ch : UInt8) (bytes : List UInt8) :
    receive g (ch :: bytes) = receive (usart2IRQHandler g (.rxne ch)) bytes := rfl

/-- Bytes that fit are stored one after the other behind those already there. -/
theorem receive_eq {g : Globals} {bytes : List UInt8}
    (hfit : g.receCount + bytes.length ≤ 25) :
    receive g bytes =
      { g with
        receBuf := g.receBuf.blit g.receCount bytes
        receCount := g.receCount + bytes.length } := by
  -- induction on the bytes; the count grows with each and stays below the limit
  induction bytes generalizing g with
  | nil => simp [receive]
  | cons ch bytes ih =>
    rw [List.length_cons] at hfit
    have hroom : g.receCount < 25 := by omega
    have hcount : (g.receCount + 1) % 256 = g.receCount + 1 := by omega
    rw [receive_cons, usart2IRQHandler, if_pos hroom, hcount,
      ih (by simp only; omega), Buffer.blit_cons, List.length_cons]
    congr 1
    simp only
    omega

/-! ## Sending -/

/-- A number of transmit-complete interrupts in a row. -/
def transmit (g : Globals) (count : ℕ) : Globals :=
  (List.replicate count Irq.tc).foldl usart2IRQHandler g

theorem transmit_succ (g : Globals) (count : ℕ) :
    transmit g (count + 1) = usart2IRQHandler (transmit g count) .tc := by
  rw [transmit, List.replicate_succ', List.foldl_append]
  rfl

/-- While bytes of the request are left, each interrupt sends the next one. -/
theorem transmit_eq {g : Globals} {count : ℕ} (hposi : g.sendPosi = 0)
    (hsmall : g.sendCount < 256) (hleft : count ≤ g.sendCount) :
    transmit g count =
      { g with
        sendPosi := count
        dataRegister := g.dataRegister ++ g.sendBuf.slice 1 count } := by
  -- induction on the interrupts; `sendPosi` is their number
  induction count with
  | zero =>
    cases g
    simp only at hposi
    simp [transmit, Buffer.slice, hposi]
  | succ count ih =>
    have hnext : (count + 1) % 256 = count + 1 := by omega
    rw [transmit_succ, ih (by omega), usart2IRQHandler, if_pos (by simp only; omega)]
    simp [sendData, hnext, Buffer.slice_succ, Nat.add_comm]

/-- The interrupt after the last byte turns the line around and restarts
reception at the front of the receive buffer. -/
theorem transmit_all {g : Globals} (hposi : g.sendPosi = 0) (hsmall : g.sendCount < 256) :
    transmit g (g.sendCount + 1) =
      { g with
        sendPosi := g.sendCount
        dataRegister := g.dataRegister ++ g.sendBuf.slice 1 g.sendCount
        pa1 := false
        receCount := 0 } := by
  rw [transmit_succ, transmit_eq hposi hsmall le_rfl, usart2IRQHandler,
    if_neg (by simp only; omega)]

end FanGateway.Stm32
