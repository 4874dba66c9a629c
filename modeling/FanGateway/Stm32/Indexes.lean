import FanGateway.Lib.Log
import FanGateway.Stm32.Polling

/-!
# The indexes into the buffers of the serial line

The functions of the poll and of the USART2 interrupt once more, each with a log of the
indexes it uses into `receBuf` and `sendBuf`, in the order it uses them. Without the logs
they are the functions as before.

All indexes but those of the bytes that are decoded are fixed, or bounded by the counters.
How many bytes are decoded is said by the third byte of the frame, which a long frame is
copied over.
-/

namespace FanGateway.Stm32

open Lib Modbus

/-- An index into one of the two buffers. -/
inductive Index
  | receBuf (i : ℕ)
  | sendBuf (i : ℕ)
  deriving DecidableEq, Repr

/-- The buffers have 100 and 10 bytes. -/
def Index.InRange : Index → Prop
  | .receBuf i => i < 100
  | .sendBuf i => i < 10

namespace Indexed

/-! ## The functions with their indexes -/

def receBufAt (b : Buffer UInt8 100) (i : ℕ) : Log Index UInt8 := do
  tell [.receBuf i]
  pure (b.peek i)

def sendBufAt (b : Buffer UInt8 10) (i : ℕ) : Log Index UInt8 := do
  tell [.sendBuf i]
  pure (b.peek i)

def beginSend (g : Globals) : Log Index Globals := do
  let g := { g with pa1 := true, sendPosi := 0 }
  let g := if g.sendCount > 1 then { g with sendCount := g.sendCount - 1 } else g
  let byte ← sendBufAt g.sendBuf 0
  pure (sendData byte g)

def usart2IRQHandler (g : Globals) : Irq → Log Index Globals
  | .rxne ch =>
    if g.receCount < 25 then do
      tell [.receBuf g.receCount]
      pure { g with
        receBuf := g.receBuf.poke g.receCount ch
        receCount := (g.receCount + 1) % 256 }
    else pure g
  | .tc =>
    if g.sendPosi < g.sendCount then do
      let g := { g with sendPosi := (g.sendPosi + 1) % 256 }
      let byte ← sendBufAt g.sendBuf g.sendPosi
      pure (sendData byte g)
    else pure { g with pa1 := false, receCount := 0 }

/-- `construct_rtu_frm`, called on `sendBuf`. -/
def constructRtuFrm (dstBuf : Buffer UInt8 10) (srcBuf : List UInt8) :
    Log Index (Buffer UInt8 10) :=
  let crcTmp := crc16 srcBuf
  let frm := srcBuf ++ [(crcTmp >>> 8).toUInt8, (crcTmp &&& 0xFF).toUInt8]
  let copied := frm.take ((srcBuf.length + 2) % 256)
  Log.forRange 0 copied.length (fun t b => do
    tell [.sendBuf (t + 0)]
    pure (b.poke (t + 0) (copied[t]?.getD default))) dstBuf

def rtuReadHldreg (boardAdr : UInt8) (startAddress lenth : UInt16) (g : Globals) :
    Log Index (ℕ × Globals) := do
  let tmp := [boardAdr, 3, hi startAddress, low startAddress, hi lenth, low lenth]
  let sendBuf ← constructRtuFrm g.sendBuf tmp
  let g ← beginSend { g with sendBuf := sendBuf, sendCount := 8 }
  pure (8, g)

/-- The bytes that `crc16` goes through. -/
def receBufSlice (b : Buffer UInt8 100) (len : ℕ) : Log Index (List UInt8) :=
  Log.forRange 0 len (fun t xs => do
    let x ← receBufAt b t
    pure (xs ++ [x])) []

/-- `*(source_p + i)`, where `source_p` is `receBuf`. -/
def sourceAt (g : Globals) (i : ℕ) : Log Index UInt8 := do
  tell [.receBuf i]
  pure (g.byteAt (38 + i))

def rtuDataAnlys (dataStartAddress frLenth : ℕ) (g : Globals) : Log Index (ℤ × Globals) := do
  let high ← receBufAt g.receBuf (frLenth - 2)
  let low ← receBufAt g.receBuf (frLenth - 1)
  let message ← receBufSlice g.receBuf (frLenth - 2)
  if Crc.word high low = crc16 message then do
    let code ← receBufAt g.receBuf 1
    if code = 3 then do
      let g ← Log.forWhile
        (fun tmp1 g => do
          let count ← receBufAt g.receBuf 2
          pure (decide (tmp1 < count.toNat)))
        (fun tmp1 g => do
          let x ← sourceAt g (tmp1 + 3)
          pure (g.storeAt (tmp1 + dataStartAddress) x)) 256 0 g
      pure (0, g)
    else pure (-1, g)
  else pure (0, g)

def decodeBranch (lo hi frLenth : ℕ) (g : Globals) : Log Index Globals := do
  let g := { g with modbusCom2Over := 0 }
  let r ← rtuDataAnlys lo frLenth g
  let g := r.2
  pure { g with
    tcpClientSendbuf :=
      forRange lo hi (fun t buf => buf.store (t + 6) (g.value.peek t)) g.tcpClientSendbuf
    ready := 1 }

/-- `modbus_com2_over==2&&receBuf[0]==addr`. -/
def comesFrom (addr : UInt8) (g : Globals) : Log Index Bool :=
  if g.modbusCom2Over = 2 then do
    let x ← receBufAt g.receBuf 0
    pure (x = addr)
  else pure false

def acceptReply (g : Globals) : Log Index Globals := do
  let g := { g with modbusCom2Over := 2 }
  let one ← comesFrom 1 g
  if one then decodeBranch 0 16 21 g
  else do
    let two ← comesFrom 2 g
    if two then decodeBranch 16 32 21 g
    else do
      let three ← comesFrom 3 g
      if three then decodeBranch 32 38 11 g else pure g

def nextRequest (g : Globals) : Log Index Globals :=
  if g.slaveraddr = 1 then do
    let r ← rtuReadHldreg g.slaveraddr 0 8 g
    pure { r.2 with slaveraddr := 2 }
  else if g.slaveraddr = 2 then do
    let r ← rtuReadHldreg g.slaveraddr 0 8 g
    pure { r.2 with slaveraddr := 3 }
  else do
    let r ← rtuReadHldreg 3 0 3 g
    pure { r.2 with slaveraddr := 1 }

def modbusRtu (g : Globals) : Log Index Globals := do
  let g ← acceptReply g
  nextRequest { g with receCount := 0 }

def step (g : Globals) : Event → Log Index Globals
  | .poll => modbusRtu g
  | .irq i => usart2IRQHandler g i

def run (events : List Event) : Log Index Globals :=
  events.foldl (fun x e => x >>= fun g => step g e) (pure boot)

/-! ## Without the indexes -/

@[simp] theorem value_receBufAt (b : Buffer UInt8 100) (i : ℕ) :
    (receBufAt b i).value = b.peek i := rfl

theorem value_usart2IRQHandler (g : Globals) (i : Irq) :
    (usart2IRQHandler g i).value = Stm32.usart2IRQHandler g i := by
  cases i with
  | rxne ch => exact Log.value_ite _ _ _
  | tc => exact Log.value_ite _ _ _

theorem value_constructRtuFrm (dstBuf : Buffer UInt8 10) (srcBuf : List UInt8) :
    (constructRtuFrm dstBuf srcBuf).value = Stm32.constructRtuFrm dstBuf srcBuf :=
  Log.value_forRange fun _ _ => rfl

theorem value_rtuReadHldreg (boardAdr : UInt8) (startAddress lenth : UInt16) (g : Globals) :
    (rtuReadHldreg boardAdr startAddress lenth g).value =
      Stm32.rtuReadHldreg boardAdr startAddress lenth g := by
  rw [rtuReadHldreg, Log.value_bind, value_constructRtuFrm]
  rfl

theorem value_receBufSlice (b : Buffer UInt8 100) (len : ℕ) :
    (receBufSlice b len).value = b.slice 0 len := Log.value_slice fun _ => rfl

theorem value_rtuDataAnlys (dataStartAddress frLenth : ℕ) (g : Globals) :
    (rtuDataAnlys dataStartAddress frLenth g).value =
      Stm32.rtuDataAnlys dataStartAddress frLenth g := by
  rw [rtuDataAnlys, Stm32.rtuDataAnlys, Log.value_bind, Log.value_bind, Log.value_bind,
    value_receBufSlice, Log.value_ite, Log.value_bind, Log.value_ite, Log.value_bind,
    Log.value_forWhile (fun _ _ => rfl) fun _ _ => rfl]
  rfl

theorem value_decodeBranch (lo hi frLenth : ℕ) (g : Globals) :
    (decodeBranch lo hi frLenth g).value = Stm32.decodeBranch lo hi frLenth g := by
  rw [decodeBranch, Log.value_bind, value_rtuDataAnlys]
  rfl

theorem value_comesFrom (addr : UInt8) (g : Globals) :
    (comesFrom addr g).value = decide (g.modbusCom2Over = 2 ∧ g.receBuf.peek 0 = addr) := by
  rw [comesFrom, Log.value_ite, Bool.decide_and]
  split_ifs with hover
  · rw [decide_eq_true hover, Bool.true_and]
    rfl
  · rw [decide_eq_false hover, Bool.false_and]
    rfl

theorem value_acceptReply (g : Globals) :
    (acceptReply g).value = Stm32.acceptReply g := by
  simp only [acceptReply, Stm32.acceptReply, Log.value_bind, Log.value_ite, Log.value_pure,
    value_comesFrom, value_decodeBranch, decide_eq_true_eq]

theorem value_nextRequest (g : Globals) :
    (nextRequest g).value = Stm32.nextRequest g := by
  simp only [nextRequest, Stm32.nextRequest, Log.value_bind, Log.value_ite, Log.value_pure,
    value_rtuReadHldreg]

/-- Without the indexes a step is the step of the gateway. -/
theorem value_step (g : Globals) (e : Event) : (step g e).value = Stm32.step g e := by
  cases e with
  | poll =>
    rw [step, modbusRtu, Log.value_bind, value_acceptReply, value_nextRequest]
    rfl
  | irq i => exact value_usart2IRQHandler g i

theorem run_append_singleton (events : List Event) (e : Event) :
    run (events ++ [e]) = run events >>= fun g => step g e := List.foldl_concat ..

theorem value_run (events : List Event) : (run events).value = Stm32.run events := by
  -- induction on the events, the last one split off
  induction events using List.reverseRecOn with
  | nil => rfl
  | append_singleton events e ih =>
    rw [run_append_singleton, Stm32.run_append_singleton, Log.value_bind, ih, value_step]

/-! ## The indexes in range -/

/-- Every index that is used is in range. -/
def Safe {α : Type} (x : Log Index α) : Prop := ∀ i ∈ x.entries, i.InRange

section Safe

variable {α β σ : Type}

@[simp] theorem safe_pure (a : α) : Safe (pure a) := Log.all_pure a

@[simp] theorem safe_bind (x : Log Index α) (f : α → Log Index β) :
    Safe (x >>= f) ↔ Safe x ∧ Safe (f x.value) := Log.all_bind x f

@[simp] theorem safe_tell (i : Index) : Safe (tell [i] : Log Index PUnit) ↔ i.InRange :=
  Log.all_tell i

@[simp] theorem safe_receBufAt (b : Buffer UInt8 100) (i : ℕ) :
    Safe (receBufAt b i) ↔ i < 100 := by
  rw [receBufAt, safe_bind, safe_tell]
  exact and_iff_left (safe_pure _)

@[simp] theorem safe_sendBufAt (b : Buffer UInt8 10) (i : ℕ) : Safe (sendBufAt b i) ↔ i < 10 := by
  rw [sendBufAt, safe_bind, safe_tell]
  exact and_iff_left (safe_pure _)

/-- A loop whose rounds use one index each, settled by the number of the round. -/
theorem safe_forRange {n : ℕ} {body : ℕ → σ → Log Index σ} {s : σ} {f : ℕ → Index}
    (h : ∀ t s, (body t s).entries = [f t]) :
    Safe (Log.forRange 0 n body s) ↔ ∀ t < n, (f t).InRange := by
  rw [Safe, Log.entries_forRange (f := fun t => [f t]) h, ← List.map_eq_flatMap,
    List.forall_mem_map]
  exact forall_congr' fun t => imp_congr_left (by rw [List.mem_range'_1]; omega)

theorem safe_receBufSlice (b : Buffer UInt8 100) (len : ℕ) :
    Safe (receBufSlice b len) ↔ ∀ t < len, t < 100 :=
  safe_forRange (f := .receBuf) fun _ _ => rfl

theorem safe_beginSend (g : Globals) : Safe (beginSend g) := by
  rw [beginSend, safe_bind, safe_sendBufAt]
  exact ⟨by decide, safe_pure _⟩

/-- Eight bytes are constructed. -/
theorem safe_rtuReadHldreg (boardAdr : UInt8) (startAddress lenth : UInt16) (g : Globals) :
    Safe (rtuReadHldreg boardAdr startAddress lenth g) := by
  rw [rtuReadHldreg, safe_bind, safe_bind]
  refine ⟨(safe_forRange (f := fun t => .sendBuf (t + 0)) fun _ _ => rfl).mpr ?_,
    safe_beginSend _, safe_pure _⟩
  intro t ht
  exact ht.trans (by decide : 8 < 10)

theorem safe_nextRequest (g : Globals) : Safe (nextRequest g) := by
  rw [nextRequest]
  split_ifs <;> exact (safe_bind _ _).mpr ⟨safe_rtuReadHldreg _ _ _ _, safe_pure _⟩

@[simp] theorem safe_sourceAt (g : Globals) (i : ℕ) : Safe (sourceAt g i) ↔ i < 100 := by
  rw [sourceAt, safe_bind, safe_tell]
  exact and_iff_left (safe_pure _)

/-- The decoder goes past the end if it copies more than 97 bytes. -/
theorem safe_rtuDataAnlys {dataStartAddress frLenth : ℕ} {g : Globals}
    (hstart : dataStartAddress ≤ 32) (hlength : frLenth ≤ 100) (hpos : 0 < frLenth) :
    Safe (rtuDataAnlys dataStartAddress frLenth g) ↔
      (Accepts g.receBuf frLenth → rounds g.receBuf dataStartAddress ≤ 97) := by
  have hlt := rounds_lt g.receBuf dataStartAddress
  have hloop : Safe (Log.forWhile
      (fun tmp1 (g : Globals) => do
        let count ← receBufAt g.receBuf 2
        pure (decide (tmp1 < count.toNat)))
      (fun tmp1 g => do
        let x ← sourceAt g (tmp1 + 3)
        pure (g.storeAt (tmp1 + dataStartAddress) x)) 256 0 g) ↔
      ∀ t < rounds g.receBuf dataStartAddress, 0 + t + 3 < 100 := by
    refine Log.all_forWhile_iff (g := copyByte dataStartAddress) (Q := fun t => t + 3 < 100)
      (fun _ _ => rfl) (fun t g => ?_) (fun t g => ?_) hlt (fun t ht => ?_) ?_
    · exact (safe_bind _ _).mpr ⟨(safe_receBufAt _ _).mpr (by decide), safe_pure _⟩
    · exact (safe_bind _ _).trans ((and_iff_left (safe_pure _)).trans (safe_sourceAt _ _))
    · exact decide_eq_true (lt_count_of_lt_rounds hstart ht)
    · exact decide_eq_false (not_lt_count_rounds hstart)
  have hcheck : frLenth - 2 < 100 ∧ frLenth - 1 < 100 ∧ ∀ t < frLenth - 2, t < 100 :=
    ⟨by omega, by omega, fun t ht => by omega⟩
  rw [rtuDataAnlys, safe_bind, safe_bind, safe_bind, safe_receBufAt, safe_receBufAt,
    safe_receBufSlice, value_receBufSlice, value_receBufAt, value_receBufAt]
  -- a wrong checksum, another function code, a frame that is decoded
  by_cases hcrc : Crc.word (g.receBuf.peek (frLenth - 2)) (g.receBuf.peek (frLenth - 1)) =
      crc16 (g.receBuf.slice 0 (frLenth - 2))
  · rw [if_pos hcrc, safe_bind, safe_receBufAt, value_receBufAt]
    by_cases hcode : g.receBuf.peek 1 = 3
    · rw [if_pos hcode, safe_bind, hloop]
      constructor
      · rintro ⟨-, -, -, -, hall, -⟩ -
        by_contra hmany
        exact absurd (hall 97 (by omega)) (by decide)
      · intro hfew
        have hcount := hfew ⟨hcrc, hcode⟩
        exact ⟨hcheck.1, hcheck.2.1, hcheck.2.2, by decide, fun t ht => by omega, safe_pure _⟩
    · rw [if_neg hcode]
      exact iff_of_true ⟨hcheck.1, hcheck.2.1, hcheck.2.2, by decide, safe_pure _⟩
        fun h => absurd h.2 hcode
  · rw [if_neg hcrc]
    exact iff_of_true ⟨hcheck.1, hcheck.2.1, hcheck.2.2, safe_pure _⟩ fun h => absurd h.1 hcrc

theorem safe_decodeBranch {lo hi frLenth : ℕ} {g : Globals} (hlo : lo ≤ 32)
    (hlength : frLenth ≤ 100) (hpos : 0 < frLenth) :
    Safe (decodeBranch lo hi frLenth g) ↔
      (Accepts g.receBuf frLenth → rounds g.receBuf lo ≤ 97) := by
  rw [decodeBranch, safe_bind]
  exact (and_iff_left (safe_pure _)).trans (safe_rtuDataAnlys hlo hlength hpos)

theorem safe_comesFrom (addr : UInt8) (g : Globals) : Safe (comesFrom addr g) := by
  rw [comesFrom]
  split_ifs
  · rw [safe_bind, safe_receBufAt]
    exact ⟨by decide, safe_pure _⟩
  · exact safe_pure _

/-- The first half of a poll looks at the address, and decodes in the branch of the slave. -/
theorem safe_acceptReply_of_addr {g : Globals} {k : Slave} (h : g.receBuf.peek 0 = k.addr) :
    Safe (acceptReply g) ↔
      (Accepts g.receBuf k.replyLength → rounds g.receBuf k.start ≤ 97) := by
  have hfrom (addr : UInt8) : (comesFrom addr { g with modbusCom2Over := 2 }).value =
      decide (k.addr = addr) := by
    rw [value_comesFrom, h]
    exact decide_eq_decide.mpr (and_iff_right rfl)
  rw [acceptReply, safe_bind, and_iff_right (safe_comesFrom _ _), hfrom]
  cases k with
  | one => exact safe_decodeBranch (by decide) (by decide) (by decide)
  | two =>
    rw [if_neg (by decide), safe_bind, and_iff_right (safe_comesFrom _ _), hfrom]
    exact safe_decodeBranch (by decide) (by decide) (by decide)
  | three =>
    rw [if_neg (by decide), safe_bind, and_iff_right (safe_comesFrom _ _), hfrom,
      if_neg (by decide), safe_bind, and_iff_right (safe_comesFrom _ _), hfrom]
    exact safe_decodeBranch (by decide) (by decide) (by decide)

/-- For any other address it looks no further. -/
theorem safe_acceptReply_of_ne {g : Globals} (h : ∀ k : Slave, g.receBuf.peek 0 ≠ k.addr) :
    Safe (acceptReply g) := by
  have hfrom (k : Slave) : (comesFrom k.addr { g with modbusCom2Over := 2 }).value = false := by
    rw [value_comesFrom]
    exact decide_eq_false fun hboth => h k hboth.2
  have hone : (comesFrom 1 { g with modbusCom2Over := 2 }).value = false := hfrom .one
  have htwo : (comesFrom 2 { g with modbusCom2Over := 2 }).value = false := hfrom .two
  have hthree : (comesFrom 3 { g with modbusCom2Over := 2 }).value = false := hfrom .three
  rw [acceptReply, safe_bind, hone, if_neg Bool.false_ne_true, safe_bind, htwo,
    if_neg Bool.false_ne_true, safe_bind, hthree, if_neg Bool.false_ne_true]
  exact ⟨safe_comesFrom _ _, safe_comesFrom _ _, safe_comesFrom _ _, safe_pure _⟩

end Safe

end Indexed

/-- The receive buffer holds a frame that is decoded and copied on over its own byte count, and the
count that is copied there is more than the buffer has behind the third byte. -/
def Overrun (g : Globals) : Prop :=
  ∃ k : Slave, g.receBuf.peek 0 = k.addr ∧ Accepts g.receBuf k.replyLength ∧
    40 - k.start < (g.receBuf.peek 2).toNat ∧ 97 < (g.receBuf.peek (43 - k.start)).toNat

/-- The indexes a poll uses are in range exactly if it does not find such a frame. -/
theorem Indexed.safe_modbusRtu (g : Globals) : Safe (modbusRtu g) ↔ ¬ Overrun g := by
  rw [modbusRtu, safe_bind]
  refine (and_iff_left (safe_nextRequest _)).trans ?_
  by_cases haddr : ∃ k : Slave, g.receBuf.peek 0 = k.addr
  · obtain ⟨k, hk⟩ := haddr
    have hrounds : rounds g.receBuf k.start ≤ 97 ↔ ¬ (40 - k.start < (g.receBuf.peek 2).toNat ∧
        97 < (g.receBuf.peek (43 - k.start)).toNat) := by
      rw [rounds]
      split_ifs <;> omega
    rw [safe_acceptReply_of_addr hk, hrounds]
    constructor
    · rintro hfew ⟨l, hl, haccepts, hmany⟩
      obtain rfl := Slave.addr_injective (hk.symm.trans hl)
      exact hfew haccepts hmany
    · exact fun hnot haccepts hmany => hnot ⟨k, hk, haccepts, hmany⟩
  · have hnone := not_exists.mp haddr
    refine iff_of_true (safe_acceptReply_of_ne hnone) ?_
    rintro ⟨k, hk, -⟩
    exact hnone k hk

end FanGateway.Stm32
