import FanGateway.Lib.Machine
import FanGateway.Lib.Snapshot
import FanGateway.Stm32.Polling

/-!
# Packets sent while they are filled

The client hands its send buffer to a blocking write, which copies it in pieces as the
connection has room. Between two pieces the other tasks go on storing to the buffer: a poll
stores the block of one slave, a round of the analog task one sample of each channel. Either
stores whole fields, so a packet mixes no field if it is a snapshot.
-/

namespace FanGateway.Stm32

open Lib Modbus

/-! ## The tasks -/

/-- One round of the loop of `adc_task`, with what `Get_Adc` puts into `ain_buff`. -/
def adcTask (ain0 ain1 : UInt16) (m : ℕ) (g : Globals) : ℕ × Globals :=
  let buf := g.tcpClientSendbuf.store (2 * m + 44) (hi ain0)
  let buf := buf.store (2 * m + 45) (low ain0)
  let buf := buf.store (2 * m + 544) (hi ain1)
  let buf := buf.store (2 * m + 545) (low ain1)
  (if m + 1 = 250 then 0 else m + 1, { g with tcpClientSendbuf := buf })

/-- `tcp_client_thread` before its loop: "DATA" and the length. -/
def header (g : Globals) : Globals :=
  let buf := g.tcpClientSendbuf.store 0 0x44
  let buf := buf.store 1 0x41
  let buf := buf.store 2 0x54
  let buf := buf.store 3 0x41
  let buf := buf.store 4 0x04
  { g with tcpClientSendbuf := buf.store 5 0x0E }

/-- A byte of the send buffer with the number of the update that stored it. -/
structure Cell where
  value : UInt8
  stamp : ℕ
  deriving DecidableEq

/-- The gateway with the write in progress, if there is one, and the packets that have been
written. -/
structure Sender where
  g : Globals
  /-- The counter of `adc_task`. -/
  m : ℕ
  /-- The updates so far. -/
  time : ℕ
  stamps : ℕ → ℕ
  write : Option (Copy Cell)
  sent : List (Copy Cell)

inductive SendEvent
  | bus (e : Event)
  | adc (ain0 ain1 : UInt16)
  /-- `netconn_write` is called. -/
  | write
  /-- `do_writemore` runs; the send buffer of the connection has room for `available` bytes, none
  if there is no memory. -/
  | piece (available : ℕ)
  /-- The write ends with an error. -/
  | fail

namespace Sender

def cells (s : Sender) : ℕ → Cell := fun j => ⟨s.g.tcpClientSendbuf.peek j, s.stamps j⟩

/-- An update: a task has left other globals, and the bytes it stored bear its number. -/
def store (s : Sender) (g : Globals) : Sender :=
  let positions := g.tcpClientSendbuf.trace.drop s.g.tcpClientSendbuf.trace.length
  let s' := { s with
    g
    time := s.time + 1
    stamps := fun j => if j ∈ positions then s.time + 1 else s.stamps j }
  { s' with write := s.write.map fun c => c.update 1044 s.cells s'.cells }

/-- `do_writemore`. -/
def doWritemore (s : Sender) (available : ℕ) (c : Copy Cell) : Sender :=
  let c := c.piece s.cells (min available (1044 - c.copied.length))
  if c.copied.length = 1044 then { s with write := none, sent := s.sent ++ [c] }
  else { s with write := some c }

end Sender

/-- The tasks from the moment on when the client has stored the header. -/
def sending : Machine Sender SendEvent where
  init := ⟨header boot, 0, 0, fun _ => 0, none, []⟩
  step s
    | .bus e => some (s.store (step s.g e))
    | .adc ain0 ain1 =>
      let r := adcTask ain0 ain1 s.m s.g
      some { s.store r.2 with m := r.1 }
    | .write => if s.write.isNone then some { s with write := some (.start s.cells) } else none
    | .piece available => s.write.map (s.doWritemore available)
    | .fail => s.write.map fun _ => { s with write := none }

/-! ## Consistent packets -/

/-- Two bytes of the block of one slave, which holds its registers, or of one sample. -/
def SameField (i j : ℕ) : Prop :=
  (∃ k : Slave, 6 ≤ i ∧ k.InBlock (i - 6) ∧ 6 ≤ j ∧ k.InBlock (j - 6)) ∨
    (44 ≤ i ∧ 44 ≤ j ∧ (i - 44) / 2 = (j - 44) / 2)

/-- A packet is what the buffer held at one moment of its write, and no field of it comes from
two updates. -/
structure Consistent (c : Copy Cell) : Prop where
  instant : ∃ b ∈ c.seen, c.copied = front b 1044
  fields : ∀ i j x y, SameField i j → c.copied[i]? = some x → c.copied[j]? = some y →
    x.stamp = y.stamp

/-- No packet is finished that is torn. -/
def NotTorn (s : Sender) : SendEvent → Prop
  | .piece available =>
    ∀ c, s.write = some c → 1044 - c.copied.length ≤ available → ¬c.torn
  | _ => True

/-! ## Updates store whole fields -/

/-- From `b` to `b'` the bytes at some positions were stored. -/
structure Stores (positions : List ℕ) (b b' : Traced UInt8 1044) : Prop where
  trace : b'.trace = b.trace ++ positions
  rest : ∀ j, j ∉ positions → b'.peek j = b.peek j

/-- Positions that take in a field whole or not at all. -/
def Fieldwise (positions : List ℕ) : Prop :=
  ∀ i j, SameField i j → (i ∈ positions ↔ j ∈ positions)

section Stores

variable {b b' b'' : Traced UInt8 1044} {positions positions' : List ℕ} {g : Globals}

theorem Stores.refl : Stores [] b b := ⟨by simp, fun _ _ => rfl⟩

theorem stores_store {i : ℕ} {x : UInt8} : Stores [i] b (b.store i x) where
  trace := rfl
  rest j hj := Buffer.peek_poke_ne (by simpa using hj)

theorem Stores.trans (h : Stores positions b b') (h' : Stores positions' b' b'') :
    Stores (positions ++ positions') b b'' where
  trace := by rw [h'.trace, h.trace, List.append_assoc]
  rest j hj := by
    rw [List.mem_append, not_or] at hj
    exact (h'.rest j hj.2).trans (h.rest j hj.1)

theorem fieldwise_nil : Fieldwise [] := fun _ _ _ => by simp

theorem fieldwise_block (k : Slave) : Fieldwise (List.range' (k.start + 6) k.size) := by
  rintro i j (⟨l, hi, hli, hj, hlj⟩ | ⟨hi, hj, -⟩)
  · -- a block is taken in by itself and by no other
    rw [List.mem_range'_1, List.mem_range'_1]
    cases k <;> cases l <;> simp only [Slave.InBlock, Slave.start, Slave.size] at * <;> omega
  · -- the samples are behind all blocks
    rw [List.mem_range'_1, List.mem_range'_1]
    cases k <;> simp only [Slave.start, Slave.size] <;> omega

theorem fieldwise_sample {m : ℕ} (hm : m < 250) :
    Fieldwise [2 * m + 44, 2 * m + 45, 2 * m + 544, 2 * m + 545] := by
  rintro i j (⟨k, hi, hki, hj, hkj⟩ | ⟨hi, hj, hsample⟩)
  · have hi44 := hki.lt
    have hj44 := hkj.lt
    simp only [List.mem_cons, List.not_mem_nil, or_false]
    omega
  · simp only [List.mem_cons, List.not_mem_nil, or_false]
    omega

/-- A poll stores the block of the slave whose address it finds. -/
theorem stores_modbusRtu_block (g : Globals) :
    ∃ positions, Stores positions g.tcpClientSendbuf (modbusRtu g).tcpClientSendbuf ∧
      (positions = [] ∨ ∃ k : Slave, positions = List.range' (k.start + 6) k.size) := by
  rw [(afterPoll g).packet]
  by_cases haddr : ∃ k : Slave, g.receBuf.peek 0 = k.addr
  · obtain ⟨k, hk⟩ := haddr
    rw [acceptReply_of_addr hk]
    refine ⟨_, ⟨?_, fun j hj => ?_⟩, .inr ⟨k, rfl⟩⟩
    · rw [decodeBranch_eq (start_le k)]
      dsimp only
      rw [Traced.trace_forRange_store (Nat.le_add_right _ _), Nat.add_sub_cancel_left]
    · rw [peek_sendbuf_decodeBranch (start_le k), if_neg]
      rintro ⟨hlower, hupper, -⟩
      exact hj (List.mem_range'_1.mpr ⟨hlower, by omega⟩)
  · rw [acceptReply_of_ne (not_exists.mp haddr)]
    exact ⟨[], Stores.refl, .inl rfl⟩

theorem stores_modbusRtu (g : Globals) :
    ∃ positions, Stores positions g.tcpClientSendbuf (modbusRtu g).tcpClientSendbuf ∧
      Fieldwise positions := by
  obtain ⟨positions, hstores, hpositions⟩ := stores_modbusRtu_block g
  refine ⟨positions, hstores, ?_⟩
  rcases hpositions with rfl | ⟨k, rfl⟩
  · exact fieldwise_nil
  · exact fieldwise_block k

/-- An interrupt stores nothing. -/
theorem stores_step (g : Globals) (e : Event) :
    ∃ positions, Stores positions g.tcpClientSendbuf (step g e).tcpClientSendbuf ∧
      Fieldwise positions := by
  cases e with
  | poll => exact stores_modbusRtu g
  | irq i =>
    have hsame : (usart2IRQHandler g i).tcpClientSendbuf = g.tcpClientSendbuf := by
      cases i <;> simp only [usart2IRQHandler] <;> split_ifs <;> rfl
    rw [step, hsame]
    exact ⟨[], Stores.refl, fieldwise_nil⟩

/-- A round of the analog task stores one sample of each channel. -/
theorem stores_adcTask {m : ℕ} (hm : m < 250) (ain0 ain1 : UInt16) (g : Globals) :
    ∃ positions,
      Stores positions g.tcpClientSendbuf (adcTask ain0 ain1 m g).2.tcpClientSendbuf ∧
        Fieldwise positions :=
  ⟨_, ((stores_store.trans stores_store).trans stores_store).trans stores_store,
    fieldwise_sample hm⟩

end Stores

/-! ## Every step keeps the write followed -/

/-- Fields of one update each. -/
def Uniform (b : ℕ → Cell) : Prop := ∀ i j, SameField i j → (b i).stamp = (b j).stamp

/-- The write in progress has been followed from its start, and the buffer has never mixed a
field. -/
structure Tracked (s : Sender) : Prop where
  m_lt : s.m < 250
  stamps_le : ∀ k, s.stamps k ≤ s.time
  uniform : Uniform s.cells
  write : ∀ c, s.write = some c → c.copied.length ≤ 1044 ∧
    c.Followed Cell.stamp 1044 s.time s.cells ∧ ∀ b ∈ c.seen, Uniform b

section Steps

variable {s t : Sender} {g : Globals} {c : Copy Cell} {positions : List ℕ} {available : ℕ}

theorem tracked_init : Tracked sending.init where
  m_lt := by decide
  stamps_le _ := Nat.le_refl _
  uniform _ _ _ := rfl
  write c hc := absurd hc (Option.some_ne_none c).symm

theorem mem_stored (h : Stores positions s.g.tcpClientSendbuf g.tcpClientSendbuf) :
    g.tcpClientSendbuf.trace.drop s.g.tcpClientSendbuf.trace.length = positions := by
  rw [h.trace, List.drop_left]

/-- An update gives its number to the bytes it stores and leaves the others alone. -/
theorem stamp_store (h : Stores positions s.g.tcpClientSendbuf g.tcpClientSendbuf) (k : ℕ) :
    (s.store g).stamps k = if k ∈ positions then s.time + 1 else s.stamps k := by
  simp only [Sender.store, mem_stored h]

theorem renews_store (h : Stores positions s.g.tcpClientSendbuf g.tcpClientSendbuf) :
    Copy.Renews Cell.stamp s.time s.cells (s.store g).cells := by
  intro k
  have hstamp := stamp_store h k
  by_cases hk : k ∈ positions
  · right
    have hnew : ((s.store g).cells k).stamp = s.time + 1 := hstamp.trans (if_pos hk)
    rw [hnew]
    exact Nat.lt_succ_self _
  · left
    rw [if_neg hk] at hstamp
    have hvalue := h.rest k hk
    simp only [Sender.cells, hstamp]
    exact congrArg (Cell.mk · _) hvalue

theorem Tracked.store (h : Tracked s)
    (hstores : Stores positions s.g.tcpClientSendbuf g.tcpClientSendbuf)
    (hfields : Fieldwise positions) : Tracked (s.store g) := by
  have hle (k : ℕ) : (s.store g).stamps k ≤ s.time + 1 := by
    rw [stamp_store hstores]
    split_ifs
    · exact le_rfl
    · exact (h.stamps_le k).trans (Nat.le_succ _)
  have huniform : Uniform (s.store g).cells := by
    intro i j hfield
    simp only [Sender.cells, stamp_store hstores, hfields i j hfield]
    split_ifs
    · rfl
    · exact h.uniform i j hfield
  refine ⟨h.m_lt, hle, huniform, fun c' hc' => ?_⟩
  -- the write in progress sees the update
  obtain ⟨c, hc, rfl⟩ := Option.map_eq_some_iff.mp hc'
  obtain ⟨hlen, hfollowed, hseen⟩ := h.write c hc
  refine ⟨hlen, hfollowed.update (renews_store hstores) hle (Nat.le_succ _), fun b hb => ?_⟩
  rcases List.mem_append.mp hb with hb | hb
  · exact hseen b hb
  · rw [List.mem_singleton.mp hb]
    exact huniform

/-- The pieces of a write never make up more than the packet. -/
theorem length_piece_le (h : c.copied.length ≤ 1044) :
    (c.piece s.cells (min available (1044 - c.copied.length))).copied.length ≤ 1044 ∧
      ((c.piece s.cells (min available (1044 - c.copied.length))).copied.length = 1044 ↔
        1044 - c.copied.length ≤ available) := by
  rw [Copy.length_piece]
  omega

/-- A piece behind which something is left. -/
theorem doWritemore_of_lt (h : available < 1044 - c.copied.length) :
    s.doWritemore available c = { s with write := some (c.piece s.cells available) } := by
  rw [Sender.doWritemore, min_eq_left h.le]
  refine if_neg ?_
  rw [Copy.length_piece]
  omega

/-- The last piece. -/
theorem doWritemore_of_le (hlen : c.copied.length ≤ 1044)
    (h : 1044 - c.copied.length ≤ available) :
    s.doWritemore available c = { s with
      write := none, sent := s.sent ++ [c.piece s.cells (1044 - c.copied.length)] } := by
  rw [Sender.doWritemore, min_eq_right h]
  refine if_pos ?_
  rw [Copy.length_piece]
  omega

theorem Tracked.doWritemore (h : Tracked s) (hc : s.write = some c) :
    Tracked (s.doWritemore available c) := by
  obtain ⟨hlen, hfollowed, hseen⟩ := h.write c hc
  rw [Sender.doWritemore]
  split_ifs
  · exact ⟨h.m_lt, h.stamps_le, h.uniform, fun c' hc' => absurd hc' (Option.some_ne_none c').symm⟩
  · refine ⟨h.m_lt, h.stamps_le, h.uniform, fun c' hc' => ?_⟩
    obtain rfl := Option.some.inj hc'
    exact ⟨(length_piece_le hlen).1, hfollowed.piece (by omega), hseen⟩

theorem Tracked.step (h : Tracked s) {e : SendEvent} (hstep : sending.step s e = some t) :
    Tracked t := by
  cases e with
  | bus e =>
    obtain ⟨positions, hstores, hfields⟩ := stores_step s.g e
    cases hstep
    exact h.store hstores hfields
  | adc ain0 ain1 =>
    obtain ⟨positions, hstores, hfields⟩ := stores_adcTask h.m_lt ain0 ain1 s.g
    obtain ⟨-, hle, huniform, hwrite⟩ := h.store hstores hfields
    cases hstep
    refine ⟨?_, hle, huniform, hwrite⟩
    have hm := h.m_lt
    simp only [adcTask]
    split_ifs <;> omega
  | write =>
    simp only [sending, Option.ite_none_right_eq_some] at hstep
    obtain ⟨-, hstep⟩ := hstep
    cases hstep
    refine ⟨h.m_lt, h.stamps_le, h.uniform, fun c hc => ?_⟩
    obtain rfl := Option.some.inj hc
    refine ⟨Nat.zero_le _, Copy.followed_start h.stamps_le, fun b hb => ?_⟩
    rw [List.mem_singleton.mp hb]
    exact h.uniform
  | piece available =>
    obtain ⟨c, hc, rfl⟩ := Option.map_eq_some_iff.mp hstep
    exact h.doWritemore hc
  | fail =>
    obtain ⟨c, -, rfl⟩ := Option.map_eq_some_iff.mp hstep
    exact ⟨h.m_lt, h.stamps_le, h.uniform, fun c' hc' => absurd hc' (Option.some_ne_none c').symm⟩

/-! ## Which packets are consistent -/

/-- A finished packet is consistent exactly when it is not torn. -/
theorem consistent_iff {time : ℕ} {cells : ℕ → Cell}
    (h : c.Followed Cell.stamp 1044 time cells) (hseen : ∀ b ∈ c.seen, Uniform b)
    (hlen : c.copied.length = 1044) : Consistent c ↔ ¬c.torn := by
  rw [← h.isSnapshot_iff hlen, Copy.IsSnapshot, hlen]
  refine ⟨Consistent.instant, fun hinstant => ⟨hinstant, fun i j x y hfield hx hy => ?_⟩⟩
  obtain ⟨b, hb, hcopied⟩ := hinstant
  have hcells : ∀ k z, c.copied[k]? = some z → z = b k := by
    rw [← eq_front_iff, hlen]
    exact hcopied
  rw [hcells i x hx, hcells j y hy]
  exact hseen b hb i j hfield

theorem Tracked.sent_step (h : Tracked s) {e : SendEvent} (hstep : sending.step s e = some t) :
    (∀ c ∈ t.sent, Consistent c) ↔ (∀ c ∈ s.sent, Consistent c) ∧ NotTorn s e := by
  cases e with
  | bus e =>
    cases hstep
    exact (and_iff_left trivial).symm
  | adc ain0 ain1 =>
    cases hstep
    exact (and_iff_left trivial).symm
  | write =>
    simp only [sending, Option.ite_none_right_eq_some] at hstep
    obtain ⟨-, hstep⟩ := hstep
    cases hstep
    exact (and_iff_left trivial).symm
  | piece available =>
    obtain ⟨c, hc, rfl⟩ := Option.map_eq_some_iff.mp hstep
    obtain ⟨hlen, hfollowed, hseen⟩ := h.write c hc
    have hcond : NotTorn s (.piece available) ↔
        (1044 - c.copied.length ≤ available → ¬c.torn) := by
      simp only [NotTorn, hc, Option.some.injEq, forall_eq']
    rw [hcond, ← (length_piece_le (s := s) hlen).2, Sender.doWritemore]
    split_ifs with hdone
    · have hlast := consistent_iff (hfollowed.piece (by omega)) hseen hdone
      rw [imp_iff_right hdone]
      exact List.forall_mem_append.trans (and_congr_right' (List.forall_mem_singleton.trans hlast))
    · exact (and_iff_left fun hlen => absurd hlen hdone).symm
  | fail =>
    obtain ⟨c, -, rfl⟩ := Option.map_eq_some_iff.mp hstep
    exact (and_iff_left trivial).symm

/-- **Snapshots.** In every run of the tasks, whatever the bus, the analog channels and the
connection do, all packets are consistent exactly when none is finished that is torn. -/
theorem packets_consistent_iff {events : List SendEvent}
    (hrun : sending.run sending.init events = some s) :
    (∀ c ∈ s.sent, Consistent c) ↔ sending.Exec NotTorn sending.init events s :=
  Machine.iff_exec hrun (fun _ hc => absurd hc List.not_mem_nil) tracked_init
    (fun _ _ _ h hstep => h.step hstep) fun _ _ _ h hstep => h.sent_step hstep

end Steps

/-! ## One packet in two pieces -/

/-- A packet whose first `n` bytes are copied before the analog task stores its first samples,
and the others after that. -/
def twoPieces (n : ℕ) : List SendEvent :=
  [.write, .piece n, .adc 0x0102 0x0304, .piece (1044 - n)]

/-- The copy of the first piece. -/
def firstPiece (n : ℕ) : Copy Cell := (Copy.start sending.init.cells).piece sending.init.cells n

/-- The tasks when the samples have been stored. -/
def betweenPieces (n : ℕ) : Sender :=
  { { sending.init with write := some (firstPiece n) }.store
      (adcTask 0x0102 0x0304 0 sending.init.g).2 with m := 1 }

/-- The packet. -/
def mixedPacket (n : ℕ) : Copy Cell :=
  ((firstPiece n).update 1044 sending.init.cells (betweenPieces n).cells).piece
    (betweenPieces n).cells (1044 - n)

theorem length_firstPiece (n : ℕ) : (firstPiece n).copied.length = n := by
  simp [firstPiece, Copy.start]

theorem run_twoPieces {n : ℕ} (hn : n < 1044) :
    sending.run sending.init (twoPieces n) =
      some { betweenPieces n with write := none, sent := [mixedPacket n] } := by
  have hlen := length_firstPiece n
  have hfirst : sending.step { sending.init with write := some (.start sending.init.cells) }
      (.piece n) = some { sending.init with write := some (firstPiece n) } :=
    congrArg some (doWritemore_of_lt hn)
  have hlast : sending.step (betweenPieces n) (.piece (1044 - n)) =
      some { betweenPieces n with write := none, sent := [mixedPacket n] } := by
    let c := (firstPiece n).update 1044 sending.init.cells (betweenPieces n).cells
    have hc : c.copied.length = n := hlen
    have hdone : (betweenPieces n).doWritemore (1044 - n) c = _ :=
      doWritemore_of_le (hc.trans_le hn.le) (Nat.sub_le_sub_left hc.ge 1044)
    rw [hc] at hdone
    exact congrArg some hdone
  have hstart : sending.step sending.init .write =
      some { sending.init with write := some (.start sending.init.cells) } := rfl
  have hadc : sending.step { sending.init with write := some (firstPiece n) }
      (.adc 0x0102 0x0304) = some (betweenPieces n) := rfl
  rw [twoPieces, Machine.run_cons, hstart, Option.bind_some, Machine.run_cons, hfirst,
    Option.bind_some, Machine.run_cons, hadc, Option.bind_some, Machine.run_cons, hlast]
  rfl

/-- The analog task stores samples that have been copied already, and the connection takes the
rest of the packet. -/
theorem packets_consistent_iff_of_late_samples :
    ∃ s, sending.run sending.init (twoPieces 600) = some s ∧
      ((∀ c ∈ s.sent, Consistent c) ↔
        sending.Exec NotTorn sending.init (twoPieces 600) s) :=
  ⟨_, run_twoPieces (by decide), packets_consistent_iff (run_twoPieces (by decide))⟩

/-- The analog task stores a sample the first byte of which has been copied. -/
theorem half_copied_sample_not_consistent :
    ∃ s, sending.run sending.init (twoPieces 45) = some s ∧ ¬∀ c ∈ s.sent, Consistent c := by
  refine ⟨_, run_twoPieces (by decide), fun hall => ?_⟩
  have hconsistent : Consistent (mixedPacket 45) := hall _ (List.mem_singleton_self _)
  -- the high byte is from before the update, the low byte from the update
  have hhigh : (mixedPacket 45).copied[44]? = some ⟨0, 0⟩ :=
    Copy.getElem?_piece_of_some (Copy.getElem?_piece_of_le (Nat.zero_le _) (by decide))
  have hlow : (mixedPacket 45).copied[45]? = some ⟨2, 1⟩ :=
    Copy.getElem?_piece_of_le (length_firstPiece 45).le (by decide)
  have hfield : SameField 44 45 := .inr (by decide)
  exact absurd (hconsistent.fields 44 45 _ _ hfield hhigh hlow) (by decide)

end FanGateway.Stm32
