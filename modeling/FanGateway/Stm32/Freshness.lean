import FanGateway.Stm32.Isolation

/-!
# Freshness of the published data

A poll should publish data, or report them as ready, only if the bytes received
since its predecessor's request went out are one complete reply to that request.
This module compares the poll with a record of the line that is kept from the
events alone.

The poll never looks at the number of bytes received. It takes the byte at the
front of the receive buffer for an address whether or not anything arrived since
the last poll, and it reports the data as ready whatever the decoder says. Only
the front byte and the events decide, then, whether a poll is a fresh one. A frame
that is copied on behind `value` may change the front byte; but the poll that
copies it is no fresh one.
-/

namespace FanGateway.Stm32

open Lib Modbus

/-! ## The record of the line -/

/-- What the line has carried. -/
structure Line where
  /-- The polls so far. -/
  polls : ℕ
  /-- The transmit-complete interrupts since the last poll; the eighth ends the
  request. -/
  completions : ℕ
  /-- The bytes stored since reception last started at the front. -/
  count : ℕ
  /-- The bytes stored since the last poll's request was sent. -/
  stored : List UInt8
  /-- The last byte received at the front of the receive buffer. -/
  front : UInt8

namespace Line

def start : Line := ⟨0, 0, 0, [], 0⟩

def next (l : Line) : Event → Line
  | .poll => { l with polls := l.polls + 1, completions := 0, count := 0, stored := [] }
  | .irq (.rxne ch) =>
    if l.count < 25 then
      { l with
        count := l.count + 1
        -- before the request is out a byte is kept by the buffer but is no answer
        stored := if 8 ≤ l.completions then l.stored ++ [ch] else l.stored
        front := if l.count = 0 then ch else l.front }
    else l
  | .irq .tc =>
    { l with
      completions := l.completions + 1
      count := if l.polls = 0 ∨ 7 ≤ l.completions then 0 else l.count }

end Line

def line (events : List Event) : Line := events.foldl Line.next Line.start

@[simp] theorem line_append_singleton (events : List Event) (e : Event) :
    line (events ++ [e]) = (line events).next e := by simp [line]

/-- The reply to the last request is complete: the bytes stored since the request
was sent are a well-formed reply of the slave it went to, and they start at the
front of the receive buffer. -/
structure Answers (n : ℕ) (data : Payload (slaveAt n)) (l : Line) : Prop where
  polls : l.polls = n + 1
  reply : l.stored = reply crc16 (slaveAt n) data
  whole : l.stored.length = l.count

/-- A poll that reports data as ready or changes a data byte in `value` or in the
packet. -/
def Changes (g : Globals) : Prop :=
  (modbusRtu { g with ready := 0 }).ready = 1 ∨
    (∃ j < 38, (modbusRtu g).value.peek j ≠ g.value.peek j) ∨
    ∃ j, 6 ≤ j ∧ j < 44 ∧ (modbusRtu g).tcpClientSendbuf.peek j ≠ g.tcpClientSendbuf.peek j

/-- A poll after the given events that changes something only if the last request
has been answered, and then publishes the data of that answer. -/
def Fresh (events : List Event) : Prop :=
  Changes (run events) → ∃ n data, Answers n data (line events) ∧
    Publishes (slaveAt n) data (run events) (modbusRtu (run events))

/-! ## The globals follow the record -/

/-- The globals of a gateway whose line has the given record. -/
structure Follows (l : Line) (g : Globals) : Prop where
  receCount : g.receCount = l.count
  count_le : l.count ≤ 25
  front : g.receBuf.peek 0 = l.front
  unsent : l.completions < 8 → l.stored = []
  stored : l.stored.length = l.count → g.receBuf.slice 0 l.count = l.stored
  idle : l.polls = 0 → g.sendCount = 0
  sending : 0 < l.polls → g.sendCount = 7 ∧ g.sendPosi = min l.completions 7
  address : AddressAt l.polls g.slaveraddr

section Follows

variable {l : Line} {g : Globals}

theorem follows_boot : Follows Line.start boot where
  receCount := rfl
  count_le := Nat.zero_le _
  front := rfl
  unsent := fun _ => rfl
  stored := fun _ => rfl
  idle := fun _ => rfl
  sending := fun h => absurd h (Nat.lt_irrefl 0)
  address := .inl ⟨rfl, .inl rfl⟩

theorem Follows.poll (h : Follows l g) (hshort : ∀ k : Slave, ¬ Overlong k g) :
    Follows (l.next .poll) (modbusRtu g) := by
  have hpoll := afterPoll g
  refine ⟨hpoll.receCount, Nat.zero_le _, ?_, fun _ => rfl, fun _ => rfl, ?_, fun _ => ?_, ?_⟩
  · rw [receBuf_of_not_overlong hshort, h.front]
    rfl
  · intro hzero
    exact absurd hzero (Nat.succ_ne_zero _)
  · exact ⟨hpoll.sendCount, by rw [hpoll.sendPosi]; rfl⟩
  · exact hpoll.slaveraddr ▸ h.address.advance

theorem Follows.rxne (h : Follows l g) (ch : UInt8) :
    Follows (l.next (.irq (.rxne ch))) (usart2IRQHandler g (.rxne ch)) := by
  by_cases hroom : l.count < 25
  · simp only [Line.next, usart2IRQHandler, h.receCount, if_pos hroom]
    refine ⟨?_, hroom, ?_, fun hunsent => ?_, fun hwhole => ?_, h.idle, h.sending, h.address⟩
    · exact Nat.mod_eq_of_lt (by omega)
    · simp only [Buffer.peek_poke, ← h.front]
      exact if_congr (by omega) rfl rfl
    · simp only at hunsent ⊢
      rw [if_neg (by omega), h.unsent hunsent]
    · -- the byte continues the frame, or else the frame is no longer in one piece
      simp only at hwhole ⊢
      by_cases hsent : 8 ≤ l.completions
      · rw [if_pos hsent, List.length_append, List.length_singleton,
          Nat.add_right_cancel_iff] at hwhole
        have hbefore : (g.receBuf.poke l.count ch).slice 0 l.count = g.receBuf.slice 0 l.count :=
          Buffer.slice_congr fun i hi => Buffer.peek_poke_ne (by omega)
        rw [if_pos hsent, Buffer.slice_succ, hbefore, h.stored hwhole, Nat.zero_add,
          Buffer.peek_poke_self (by omega)]
      · rw [if_neg hsent, h.unsent (by omega)] at hwhole
        exact absurd hwhole.symm (Nat.succ_ne_zero _)
  · simp only [Line.next, usart2IRQHandler, h.receCount, if_neg hroom]
    exact h

theorem Follows.tc (h : Follows l g) :
    Follows (l.next (.irq .tc)) (usart2IRQHandler g .tc) := by
  have hunsent (hlt : l.completions + 1 < 8) : l.stored = [] := h.unsent (by omega)
  -- the interrupt either continues the request or turns the line around
  by_cases hleft : g.sendPosi < g.sendCount
  · have hpolls : 0 < l.polls := by
      apply Nat.pos_of_ne_zero
      intro hzero
      rw [h.idle hzero] at hleft
      exact absurd hleft (Nat.not_lt_zero _)
    obtain ⟨hcount, hposi⟩ := h.sending hpolls
    have hearly : l.completions < 7 := by omega
    have hrestart : ¬ (l.polls = 0 ∨ 7 ≤ l.completions) := by omega
    rw [usart2IRQHandler, if_pos hleft]
    simp only [Line.next, if_neg hrestart]
    refine ⟨h.receCount, h.count_le, h.front, hunsent, h.stored, h.idle, fun _ => ⟨hcount, ?_⟩,
      h.address⟩
    simp only [sendData]
    omega
  · have hrestart : l.polls = 0 ∨ 7 ≤ l.completions := by
      rcases Nat.eq_zero_or_pos l.polls with hzero | hpos
      · exact .inl hzero
      · obtain ⟨hcount, hposi⟩ := h.sending hpos
        exact .inr (by omega)
    rw [usart2IRQHandler, if_neg hleft]
    simp only [Line.next, if_pos hrestart]
    refine ⟨rfl, Nat.zero_le _, h.front, hunsent, ?_, h.idle, fun hpos => ?_, h.address⟩
    · intro hwhole
      exact (List.eq_nil_of_length_eq_zero hwhole).symm
    · obtain ⟨hcount, hposi⟩ := h.sending hpos
      exact ⟨hcount, by simp only; omega⟩

theorem Follows.irq (h : Follows l g) (i : Irq) :
    Follows (l.next (.irq i)) (usart2IRQHandler g i) := by
  cases i with
  | rxne ch => exact h.rxne ch
  | tc => exact h.tc

end Follows

/-- The globals follow the record of a run in which no poll finds an overlong frame. -/
theorem follows_run {events : List Event}
    (h : ∀ before, before ++ [.poll] <+: events → Follows (line before) (run before) →
      ∀ k : Slave, ¬ Overlong k (run before)) : Follows (line events) (run events) := by
  -- induction on the events, the last one split off
  induction events using List.reverseRecOn with
  | nil => exact follows_boot
  | append_singleton events e ih =>
    have hbefore := ih fun before hpre => h before (hpre.trans (List.prefix_append _ _))
    rw [line_append_singleton, run_append_singleton]
    cases e with
    | poll => exact hbefore.poll (h events (List.prefix_refl _) hbefore)
    | irq i => exact hbefore.irq i

/-! ## Fresh polls -/

/-- A poll changes something exactly when the front byte is the address of a slave. -/
theorem changes_iff (g : Globals) : Changes g ↔ ∃ k : Slave, g.receBuf.peek 0 = k.addr := by
  constructor
  · contrapose!
    rintro hnone (hready | ⟨j, -, hvalue⟩ | ⟨j, -, -, hpacket⟩)
    · rw [(afterPoll _).ready, acceptReply_of_ne (g := { g with ready := 0 }) hnone] at hready
      exact absurd (show (0 : UInt8) = 1 from hready) (by decide)
    · rw [(afterPoll g).value, acceptReply_of_ne hnone] at hvalue
      exact hvalue rfl
    · rw [(afterPoll g).packet, acceptReply_of_ne hnone] at hpacket
      exact hpacket rfl
  · rintro ⟨k, haddr⟩
    -- the decoding branch sets `ready` whatever the decoder says
    refine .inl ?_
    rw [(afterPoll _).ready, acceptReply_of_addr (g := { g with ready := 0 }) haddr]
    rfl

section Record

variable {events : List Event} (hfollows : Follows (line events) (run events))

include hfollows

/-- A complete reply to the last request is at the front of the receive buffer. -/
theorem slice_of_answers {n : ℕ} {data : Payload (slaveAt n)} (h : Answers n data (line events)) :
    (run events).receBuf.slice 0 (slaveAt n).replyLength = reply crc16 (slaveAt n) data := by
  have hstored := hfollows.stored h.whole
  rw [h.reply, ← h.whole, h.reply, length_reply] at hstored
  exact hstored

/-- A poll is a fresh one exactly when the last request has been answered or the
front byte is the address of no slave. -/
theorem fresh_iff :
    Fresh events ↔ (∃ n data, Answers n data (line events)) ∨
      ∀ k : Slave, (line events).front ≠ k.addr := by
  rw [Fresh, changes_iff, hfollows.front]
  constructor
  · intro hfresh
    by_cases haddr : ∃ k : Slave, (line events).front = k.addr
    · obtain ⟨n, data, hanswers, -⟩ := hfresh haddr
      exact .inl ⟨n, data, hanswers⟩
    · exact .inr (not_exists.mp haddr)
  · rintro (⟨n, data, hanswers⟩ | hnone) haddr
    · exact ⟨n, data, hanswers, publishes_of_reply (slice_of_answers hfollows hanswers)⟩
    · exact absurd haddr (not_exists.mpr hnone)

/-- Such a poll finds no overlong frame. -/
theorem not_overlong_of_expected
    (h : (∃ n data, Answers n data (line events)) ∨ ∀ k : Slave, (line events).front ≠ k.addr)
    (k : Slave) : ¬ Overlong k (run events) := by
  rintro ⟨haddr, -, hlong⟩
  rcases h with ⟨n, data, hanswers⟩ | hnone
  · obtain ⟨-, hfront, hcount, -⟩ := accepts_of_reply (slice_of_answers hfollows hanswers)
    obtain rfl := Slave.addr_injective (haddr.symm.trans hfront)
    rw [hcount] at hlong
    generalize slaveAt n = k at hlong
    cases k <;> exact absurd hlong (by decide)
  · rw [hfollows.front] at haddr
    exact hnone k haddr

end Record

/-- **Freshness.** All polls of a run are fresh ones exactly when before each of them
the last request has been answered or the front byte is the address of no slave. -/
theorem polls_fresh_iff (events : List Event) :
    (∀ before, before ++ [.poll] <+: events → Fresh before) ↔
      ∀ before, before ++ [.poll] <+: events → (∃ n data, Answers n data (line before)) ∨
        ∀ k : Slave, (line before).front ≠ k.addr := by
  -- what is before a poll of the run
  have hpolls {before b : List Event} (hpre : before ++ [.poll] <+: events)
      (hb : b ++ [.poll] <+: before) : b ++ [.poll] <+: events :=
    hb.trans ((List.prefix_append _ _).trans hpre)
  constructor
  · intro hfresh before hpre
    have hfollows : Follows (line before) (run before) := follows_run fun b hb hf =>
      not_overlong_of_expected hf ((fresh_iff hf).mp (hfresh b (hpolls hpre hb)))
    exact (fresh_iff hfollows).mp (hfresh before hpre)
  · intro hexpected before hpre
    have hfollows : Follows (line before) (run before) := follows_run fun b hb hf =>
      not_overlong_of_expected hf (hexpected b (hpolls hpre hb))
    exact (fresh_iff hfollows).mpr (hexpected before hpre)

/-! ## Exchanges -/

theorem line_sent (events : List Event) :
    line (events ++ .poll :: List.replicate 8 (.irq .tc)) =
      { line events with
        polls := (line events).polls + 1, completions := 8, count := 0, stored := [] } := by
  simp [line, Line.next, List.replicate]

/-- A request and the bytes that answer it. -/
theorem line_exchange (events : List Event) {bytes : List UInt8} (hfit : bytes.length ≤ 25) :
    line (events ++ exchange bytes) =
      { polls := (line events).polls + 1
        completions := 8
        count := bytes.length
        stored := bytes
        front := bytes.head?.getD (line events).front } := by
  rw [exchange, ← List.append_assoc]
  -- induction on the bytes, the last one split off
  induction bytes using List.reverseRecOn with
  | nil => simpa using line_sent events
  | append_singleton bytes ch ih =>
    rw [List.length_append, List.length_singleton] at hfit
    rw [List.map_append, ← List.append_assoc, List.map_singleton, line_append_singleton,
      ih (by omega), Line.next, if_pos (by simp only; omega)]
    cases bytes <;> simp

/-- An exchange keeps the record unless its poll finds an overlong frame. -/
theorem Follows.exchange {events : List Event} (h : Follows (line events) (run events))
    (hexpected : (∃ n data, Answers n data (line events)) ∨
      ∀ k : Slave, (line events).front ≠ k.addr) (bytes : List UInt8) :
    Follows (line (events ++ exchange bytes)) (run (events ++ exchange bytes)) := by
  have hpoll := h.poll (not_overlong_of_expected h hexpected)
  rw [← line_append_singleton, show modbusRtu (run events) = run (events ++ [.poll]) from
    (run_append_singleton events .poll).symm] at hpoll
  have hirqs (irqs : List Irq) : Follows (line (events ++ [.poll] ++ irqs.map .irq))
      (run (events ++ [.poll] ++ irqs.map .irq)) := by
    induction irqs using List.reverseRecOn with
    | nil => simpa using hpoll
    | append_singleton irqs i ih =>
      rw [List.map_append, ← List.append_assoc, List.map_singleton, line_append_singleton,
        run_append_singleton]
      exact ih.irq i
  have hevents : events ++ Stm32.exchange bytes =
      events ++ [.poll] ++ (List.replicate 8 Irq.tc ++ bytes.map Irq.rxne).map .irq := by
    simp [Stm32.exchange]
  rw [hevents]
  exact hirqs _

/-- Slave 1 answers its first request, and slave 2 then stays silent. The next
poll takes the old reply, which is still in the receive buffer, for a new one. -/
theorem stale_reply_not_fresh :
    ¬ Fresh (exchange [] ++ exchange (reply crc16 .one fun _ => 0) ++ exchange []) := by
  have hreply : (reply crc16 .one fun _ => 0).length ≤ 25 := by
    rw [length_reply]
    exact replyLength_le _
  have hsilent : line (exchange []) = ⟨1, 8, 0, [], 0⟩ := line_exchange [] (Nat.zero_le _)
  have hanswered : line (exchange [] ++ exchange (reply crc16 .one fun _ => 0)) =
      ⟨2, 8, (reply crc16 .one fun _ => 0).length, reply crc16 .one fun _ => 0, 1⟩ := by
    rw [line_exchange _ hreply, hsilent]
    rfl
  -- the first three polls find nothing, nothing and the reply
  have hfollows : Follows
      (line (exchange [] ++ exchange (reply crc16 .one fun _ => 0) ++ exchange []))
      (run (exchange [] ++ exchange (reply crc16 .one fun _ => 0) ++ exchange [])) := by
    have hboot : Follows (line []) (run []) := follows_boot
    refine ((hboot.exchange ?_ []).exchange ?_ _).exchange ?_ []
    · exact .inr fun k => by cases k <;> decide
    · exact .inr fun k => by
        rw [List.nil_append, hsilent]
        cases k <;> decide
    · exact .inl ⟨1, fun _ => 0, by
        rw [List.nil_append, hanswered]
        exact ⟨rfl, rfl, rfl⟩⟩
  rw [fresh_iff hfollows, line_exchange _ (Nat.zero_le _), hanswered]
  rintro (⟨n, data, hanswers⟩ | hnone)
  · have hlength := congrArg List.length hanswers.reply
    rw [length_reply] at hlength
    exact absurd hlength.symm (Nat.succ_ne_zero _)
  · exact hnone .one rfl

end FanGateway.Stm32
