import FanGateway.Stm32.Freshness
import FanGateway.Stm32.Indexes

/-!
# Sending a request, receiving the answer

One interrupt routine serves both directions of a half-duplex line. A poll starts to send
its request, at any time; each transmit-complete interrupt sends the next byte, and the
one after the last byte turns the line around. Bytes may be received at any time.

`sendCount` is the number of bytes behind the first, and `sendPosi` is compared with it
before it is incremented. The invariant says of both, and of what has been sent, which
they are after a number of transmit-complete interrupts since the last poll.
-/

namespace FanGateway.Stm32

open Lib Modbus

/-! ## The counters -/

/-- The counters of the serial line. -/
structure Bounded (g : Globals) : Prop where
  receCount : g.receCount ≤ 25
  sendPosi : g.sendPosi ≤ g.sendCount
  sendCount : g.sendCount ≤ 7

section Bounded

variable {g : Globals}

theorem bounded_boot : Bounded boot := ⟨by decide, by decide, by decide⟩

theorem Bounded.irq (h : Bounded g) (i : Irq) : Bounded (usart2IRQHandler g i) := by
  obtain ⟨hrece, hposi, hcount⟩ := h
  cases i with
  | rxne ch =>
    rw [usart2IRQHandler]
    split_ifs with hroom
    · exact ⟨(Nat.mod_le _ _).trans hroom, hposi, hcount⟩
    · exact ⟨hrece, hposi, hcount⟩
  | tc =>
    rw [usart2IRQHandler]
    split_ifs with hleft
    · exact ⟨hrece, (Nat.mod_le _ _).trans hleft, hcount⟩
    · exact ⟨Nat.zero_le _, hposi, hcount⟩

theorem bounded_poll (g : Globals) : Bounded (modbusRtu g) := by
  have hpoll := afterPoll g
  exact ⟨by rw [hpoll.receCount]; omega, by rw [hpoll.sendPosi]; omega, hpoll.sendCount.le⟩

theorem bounded_run (events : List Event) : Bounded (run events) := by
  -- induction on the events, the last one split off
  induction events using List.reverseRecOn with
  | nil => exact bounded_boot
  | append_singleton events e ih =>
    rw [run_append_singleton]
    cases e with
    | poll => exact bounded_poll _
    | irq i => exact ih.irq i

/-- The indexes of an interrupt are in range. -/
theorem safe_irq (h : Bounded g) (i : Irq) :
    Indexed.Safe (Indexed.usart2IRQHandler g i) := by
  cases i with
  | rxne ch =>
    rw [Indexed.usart2IRQHandler]
    split_ifs with hroom
    · rw [Indexed.safe_bind, Indexed.safe_tell]
      exact ⟨hroom.trans (by decide : 25 < 100), Indexed.safe_pure _⟩
    · exact Indexed.safe_pure _
  | tc =>
    rw [Indexed.usart2IRQHandler]
    split_ifs with hleft
    · rw [Indexed.safe_bind, Indexed.safe_sendBufAt]
      have hnext : (g.sendPosi + 1) % 256 ≤ g.sendPosi + 1 := Nat.mod_le _ _
      have hcount := h.sendCount
      exact ⟨by simp only; omega, Indexed.safe_pure _⟩
    · exact Indexed.safe_pure _

end Bounded

/-! ## The request on the line -/

/-- After a poll from the first globals and a number of transmit-complete interrupts: so many
bytes of the request have been sent behind the first, and the line is turned around after the
last. -/
structure Sending (before : Globals) (completions : ℕ) (g : Globals) : Prop where
  sendBuf : g.sendBuf.slice 0 8 = request crc16 (turn before.slaveraddr)
  sendCount : g.sendCount = 7
  sendPosi : g.sendPosi = min completions 7
  sent : g.dataRegister = before.dataRegister ++ g.sendBuf.slice 0 (min completions 7 + 1)
  pa1 : g.pa1 = decide (completions < 8)

section Sending

variable {before g : Globals} {completions : ℕ}

theorem sending_poll (g : Globals) : Sending g 0 (modbusRtu g) where
  sendBuf := (afterPoll g).sendBuf
  sendCount := (afterPoll g).sendCount
  sendPosi := (afterPoll g).sendPosi
  sent := (afterPoll g).dataRegister
  pa1 := by
    obtain ⟨_, -, hnext⟩ := nextRequest_eq { acceptReply g with receCount := 0 }
    rw [modbusRtu, hnext]
    rfl

/-- A received byte changes nothing about what is sent. -/
theorem Sending.rxne (h : Sending before completions g) (ch : UInt8) :
    Sending before completions (usart2IRQHandler g (.rxne ch)) := by
  rw [usart2IRQHandler]
  split_ifs <;> exact ⟨h.sendBuf, h.sendCount, h.sendPosi, h.sent, h.pa1⟩

/-- While bytes are left, a transmit-complete interrupt sends the next one; then it turns the
line around. -/
theorem Sending.tc (h : Sending before completions g) :
    Sending before (completions + 1) (usart2IRQHandler g .tc) := by
  have hcount := h.sendCount
  have hposi := h.sendPosi
  have hpa1 := h.pa1
  have hsent := h.sent
  rw [usart2IRQHandler]
  split_ifs with hleft
  · have hearly : completions < 7 := by omega
    have hnext : (g.sendPosi + 1) % 256 = completions + 1 := by omega
    have hmin : min (completions + 1) 7 = completions + 1 := min_eq_left hearly
    rw [min_eq_left hearly.le] at hsent
    refine ⟨h.sendBuf, hcount, ?_, ?_, ?_⟩
    · rw [hmin]
      exact hnext
    · simp only [sendData, hnext, hmin]
      rw [Buffer.slice_succ, ← List.append_assoc, ← hsent, Nat.zero_add]
    · rw [decide_eq_true (by omega)] at hpa1 ⊢
      exact hpa1
  · have hlate : 7 ≤ completions := by omega
    have hlater : 7 ≤ completions + 1 := by omega
    rw [min_eq_right hlate] at hposi hsent
    refine ⟨h.sendBuf, hcount, ?_, ?_, ?_⟩
    · rw [min_eq_right hlater]
      exact hposi
    · rw [min_eq_right hlater]
      exact hsent
    · exact (decide_eq_false (by omega)).symm

/-- What has been sent is a beginning of the request. -/
theorem Sending.sent_eq (h : Sending before completions g) :
    g.dataRegister = before.dataRegister ++
      (request crc16 (turn before.slaveraddr)).take (min completions 7 + 1) := by
  obtain ⟨k, hk⟩ : ∃ k, min completions 7 + 1 + k = 8 := ⟨7 - min completions 7, by omega⟩
  have hsplit : g.sendBuf.slice 0 (min completions 7 + 1 + k) =
      g.sendBuf.slice 0 (min completions 7 + 1) ++
        g.sendBuf.slice (0 + (min completions 7 + 1)) k := Buffer.slice_append k
  rw [h.sent, ← h.sendBuf, ← hk, hsplit, List.take_left' Buffer.length_slice]

end Sending

/-- The transmit-complete interrupts among events. -/
def completions (events : List Event) : ℕ := events.count (.irq .tc)

/-- However receive interrupts are interleaved. -/
theorem sending_run (before : List Event) {after : List Event} (h : .poll ∉ after) :
    Sending (run before) (completions after) (run (before ++ .poll :: after)) := by
  -- induction on the events after the poll, the last one split off
  induction after using List.reverseRecOn with
  | nil =>
    rw [run_append_singleton]
    exact sending_poll _
  | append_singleton after e ih =>
    rw [List.mem_append, not_or, List.mem_singleton] at h
    rw [← List.cons_append, ← List.append_assoc, run_append_singleton, completions,
      List.count_append]
    cases e with
    | poll => exact absurd rfl h.2
    | irq i =>
      cases i with
      | rxne ch => exact (ih h.1).rxne ch
      | tc => exact (ih h.1).tc

/-! ## Runs -/

/-- What a run has sent and received since a poll: the bytes on the line are a beginning of the
request, one more with each transmit-complete interrupt; the line is turned around with the
eighth; that one and the later ones restart reception, and no earlier one does. -/
structure SinceLastPoll (before after : List Event) : Prop where
  sent : (run (before ++ .poll :: after)).dataRegister = (run before).dataRegister ++
    (request crc16 (turn (run before).slaveraddr)).take (min (completions after) 7 + 1)
  driver : (run (before ++ .poll :: after)).pa1 = decide (completions after < 8)
  restart : ∀ rest, after = rest ++ [.irq .tc] →
    (run (before ++ .poll :: after)).receCount =
      if 8 ≤ completions after then 0 else (run (before ++ .poll :: rest)).receCount

/-- After the events of a run the counters are in bounds, every index that was used was in range,
and the request of the last poll is being sent. -/
structure Orderly (events : List Event) : Prop where
  bounded : Bounded (run events)
  indexes : Indexed.Safe (Indexed.run events)
  request : ∀ before after, events = before ++ .poll :: after → .poll ∉ after →
    SinceLastPoll before after

theorem sinceLastPoll {before after : List Event} (h : .poll ∉ after) :
    SinceLastPoll before after where
  sent := (sending_run before h).sent_eq
  driver := (sending_run before h).pa1
  restart rest hafter := by
    subst hafter
    have hrest : .poll ∉ rest := fun hin => h (List.mem_append_left _ hin)
    have hbefore := sending_run before hrest
    have hcount : completions (rest ++ [.irq .tc]) = completions rest + 1 := List.count_append
    rw [hcount, ← List.cons_append, ← List.append_assoc, run_append_singleton]
    have hposi := hbefore.sendPosi
    have hlength := hbefore.sendCount
    simp only [step, usart2IRQHandler]
    split_ifs with hleft hlate hlate
    · omega
    · rfl
    · rfl
    · omega

theorem safe_step_iff (events : List Event) (e : Event) :
    Indexed.Safe (Indexed.step (run events) e) ↔ (e = .poll → ¬ Overrun (run events)) := by
  cases e with
  | poll => exact (Indexed.safe_modbusRtu _).trans ⟨fun h _ => h, fun h => h rfl⟩
  | irq i => exact iff_of_true (safe_irq (bounded_run events) i) fun h => absurd h (by simp)

/-- The indexes of a run are in range exactly if those of its polls are. -/
theorem safe_run_iff (events : List Event) : Indexed.Safe (Indexed.run events) ↔
    ∀ before, before ++ [.poll] <+: events → ¬ Overrun (run before) := by
  -- induction on the events, the last one split off
  induction events using List.reverseRecOn with
  | nil =>
    refine iff_of_true (Indexed.safe_pure _) fun before hpre => ?_
    exact absurd (List.prefix_nil.mp hpre) (List.append_ne_nil_of_right_ne_nil _ (by simp))
  | append_singleton events e ih =>
    rw [Indexed.run_append_singleton, Indexed.safe_bind, ih, Indexed.value_run, safe_step_iff]
    constructor
    · rintro ⟨hall, hlast⟩ before hpre
      rcases List.prefix_concat_iff.mp hpre with heq | hpre
      · obtain ⟨rfl, he⟩ := List.append_inj' heq rfl
        exact hlast (List.singleton_inj.mp he).symm
      · exact hall before hpre
    · intro hall
      refine ⟨fun before hpre => hall before (hpre.trans (List.prefix_append _ _)), ?_⟩
      rintro rfl
      exact hall events (List.prefix_refl _)

/-- **Sending and receiving.** A run is orderly exactly if no poll of it finds a frame that is
decoded and copied on over its own byte count, with a count that leads out of the buffer. -/
theorem orderly_iff (events : List Event) :
    Orderly events ↔ ∀ before, before ++ [.poll] <+: events → ¬ Overrun (run before) := by
  rw [← safe_run_iff]
  constructor
  · exact Orderly.indexes
  · intro hsafe
    refine ⟨bounded_run events, hsafe, ?_⟩
    rintro before after - hafter
    exact sinceLastPoll hafter

/-- The body of a reply of slave 3 with the usual six data bytes, whose byte count says nine. -/
def overrunBody : List UInt8 := [3, 3, 9] ++ List.replicate 6 0

/-- Slave 3 answers its first request with that frame, and a byte 200 is received behind it. The
next poll passes the frame, and its ninth round copies that byte over the byte count. -/
theorem not_orderly_after_overrun : ¬ ∀ events, Orderly events := by
  intro hall
  obtain ⟨before, hbefore⟩ : ∃ before,
    before = [] ++ exchange (frame crc16 overrunBody ++ [200]) := ⟨_, rfl⟩
  have hreceived := received_frame_append [] overrunBody [200] (by decide)
  rw [← hbefore] at hreceived
  obtain ⟨hcrc, hbody, hmore⟩ := hreceived
  have haddr : (run before).receBuf.peek 0 = 3 := Option.some.inj (hbody 0 (by decide)).symm
  have hcode : (run before).receBuf.peek 1 = 3 := Option.some.inj (hbody 1 (by decide)).symm
  have hcount : (run before).receBuf.peek 2 = 9 := Option.some.inj (hbody 2 (by decide)).symm
  have hbehind : (run before).receBuf.peek 11 = 200 := Option.some.inj (hmore 0 (by decide)).symm
  have hsafe := (hall (before ++ [.poll])).indexes
  have hnot := (safe_run_iff _).mp hsafe before (List.prefix_refl _)
  refine hnot ⟨.three, haddr, ⟨hcrc, hcode⟩, ?_, ?_⟩
  · rw [hcount]
    decide
  · rw [show 43 - Slave.three.start = 11 from rfl, hbehind]
    decide

end FanGateway.Stm32
