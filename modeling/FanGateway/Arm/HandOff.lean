import FanGateway.Arm.Demo
import FanGateway.Lib.Machine

/-!
# Handing messages from the reader to the processor

The reader and the processor share one buffer, one length and one flag. The reads
and the check-and-copy are made under the mutex, and so is the clearing of the
flag; the length and the flag are set outside it. A message is handed over
properly if the processor checks it once, whole, with its own length and under its
own flag.

Nothing keeps the reader from reading the next message before the processor has
seen the flag of the last. Where it never stores into the buffer while the flag is
up, every message is handed over.
-/

namespace FanGateway.Arm.HandOff

open Lib Modbus

/-! ## The steps -/

/-- Where the reader stands in `read_port`. -/
inductive Reader
  | first
  /-- About to read the rest behind the bytes it has. -/
  | second (nread : ℤ)
  | assignLength (length : ℤ)
  | assignFlag
  deriving DecidableEq, Repr

/-- Where the processor stands in `proc_data`. -/
inductive Processor
  | test
  | lock
  | clear
  | check
  deriving DecidableEq, Repr

/-- The mutex is held from the lock to the end of the check-and-copy. -/
def Processor.holdsMut : Processor → Bool
  | test | lock => false
  | clear | check => true

structure State where
  globals : Globals
  reader : Reader
  processor : Processor
  /-- The messages the reader has raised the flag for, oldest first. -/
  flagged : List (List UInt8)
  /-- The messages the processor has checked, oldest first. -/
  checked : List (List UInt8)

inductive Event
  | first (result : Option (List UInt8))
  | second (result : Option (List UInt8))
  | assignLength
  | assignFlag
  | test
  | lock
  | clear
  | check
  deriving DecidableEq, Repr

/-- The message in the buffer, by its published length. -/
def State.message (s : State) : List UInt8 := s.globals.msg.slice 0 s.globals.msgLength.toNat

/-- Where the reader goes from its first read. -/
def afterFirst (nread : ℤ) (msg : Buffer UInt8 40) : Reader :=
  if nread > 0 then
    if nread = (msg.peek 2).toNat + 5 then .assignLength nread
    else if nread < (msg.peek 2).toNat + 5 then .second nread
    else .first
  else .first

/-- One step of the two threads. A read waits for the mutex, gets at most the bytes it
asks for, and gives the mutex back. -/
def step (s : State) : Event → Option State
  | .first result =>
    if s.reader = .first ∧ s.processor.holdsMut = false ∧
        (result.map List.length).getD 0 ≤ 21 then
      let (nread, msg) := readInto s.globals.msg 0 result
      some { s with globals := { s.globals with msg }, reader := afterFirst nread msg }
    else none
  | .second result =>
    match s.reader with
    | .second nread =>
      if s.processor.holdsMut = false ∧ (result.map List.length).getD 0 ≤ 5 then
        let (tmp, msg) := readInto s.globals.msg nread.toNat result
        some { s with globals := { s.globals with msg }, reader := .assignLength (nread + tmp) }
      else none
    | _ => none
  | .assignLength =>
    match s.reader with
    | .assignLength length =>
      some { s with
        globals := { s.globals with msgLength := length }
        -- a short message is not flagged, but its length stays published
        reader := if length < 11 then .first else .assignFlag }
    | _ => none
  | .assignFlag =>
    if s.reader = .assignFlag then
      some { s with
        globals := { s.globals with modbusDataChange := true }
        reader := .first
        flagged := s.flagged ++ [s.message] }
    else none
  | .test =>
    if s.processor = .test then
      some { s with processor := if s.globals.modbusDataChange then .lock else .test }
    else none
  | .lock => if s.processor = .lock then some { s with processor := .clear } else none
  | .clear =>
    if s.processor = .clear then
      some { s with
        globals := { s.globals with modbusDataChange := false }
        processor := .check }
    else none
  | .check =>
    if s.processor = .check then
      some { s with
        globals := checkAndCopy s.globals
        processor := .test
        checked := s.checked ++ [s.message] }
    else none

/-- The two threads from their start on. -/
def machine : Machine State Event where
  init := ⟨boot, .first, .test, [], []⟩
  step := step

/-! ## One thread at a time -/

section Alone

variable {s : State} {first second : Option (List UInt8)}

/-- From the assignment of the length on, the reader publishes the message. -/
theorem run_publish {length : ℤ} (hreader : s.reader = .assignLength length) :
    ∃ es t, machine.run s es = some t ∧ t.globals = publish length s.globals ∧
      t.reader = .first ∧ t.processor = s.processor := by
  by_cases hshort : length < 11
  · have hrun : machine.run s [.assignLength] = some { s with
        globals := { s.globals with msgLength := length }, reader := .first } := by
      simp [machine, Machine.run_cons, step, hreader, hshort]
    exact ⟨_, _, hrun, by simp [publish, hshort], rfl, rfl⟩
  · have hrun : machine.run s [.assignLength, .assignFlag] = some { s with
        globals := { s.globals with msgLength := length, modbusDataChange := true }
        reader := .first
        flagged := s.flagged ++ [s.globals.msg.slice 0 length.toNat] } := by
      simp [machine, Machine.run_cons, step, hreader, hshort, State.message]
    exact ⟨_, _, hrun, by simp [publish, hshort], rfl, rfl⟩

/-- A reader that is not disturbed makes a call of `read_port`. -/
theorem run_readPort (hreader : s.reader = .first) (hfree : s.processor.holdsMut = false)
    (hfirst : (first.map List.length).getD 0 ≤ 21)
    (hsecond : (second.map List.length).getD 0 ≤ 5) :
    ∃ es t, machine.run s es = some t ∧ t.globals = readPort 1 first second s.globals ∧
      t.reader = .first ∧ t.processor = s.processor := by
  obtain ⟨nread, msg, hread⟩ : ∃ nread msg, readInto s.globals.msg 0 first = (nread, msg) :=
    ⟨_, _, rfl⟩
  obtain ⟨tmp, msg', hread'⟩ : ∃ tmp msg', readInto msg nread.toNat second = (tmp, msg') :=
    ⟨_, _, rfl⟩
  have hport : readPort 1 first second s.globals =
      if nread > 0 then
        if nread = (msg.peek 2).toNat + 5 then publish nread { s.globals with msg := msg }
        else if nread < (msg.peek 2).toNat + 5 then
          publish (nread + tmp) { s.globals with msg := msg' }
        else { s.globals with msg := msg }
      else { s.globals with msg := msg } := by
    simp only [readPort, hread, hread']
    rw [if_neg (by omega)]
  have hstep : machine.run s [.first first] = some { s with
      globals := { s.globals with msg := msg }, reader := afterFirst nread msg } := by
    simp [machine, Machine.run_cons, step, hreader, hfree, hfirst, hread]
  rw [hport]
  -- a whole message, one to be completed, one that is too long, nothing
  split_ifs with hsome hwhole hpart
  · obtain ⟨es, t, hes, hglobals, ht, hprocessor⟩ := run_publish (s := { s with
      globals := { s.globals with msg := msg }, reader := .assignLength nread }) rfl
    refine ⟨[.first first] ++ es, t, ?_, hglobals, ht, hprocessor⟩
    rw [Machine.run_append, hstep, afterFirst, if_pos hsome, if_pos hwhole]
    exact hes
  · have hstep' : machine.run { s with
        globals := { s.globals with msg := msg }, reader := .second nread } [.second second] =
          some { s with
            globals := { s.globals with msg := msg' }, reader := .assignLength (nread + tmp) } := by
      simp [machine, Machine.run_cons, step, hfree, hsecond, hread']
    obtain ⟨es, t, hes, hglobals, ht, hprocessor⟩ := run_publish (s := { s with
      globals := { s.globals with msg := msg' }, reader := .assignLength (nread + tmp) }) rfl
    refine ⟨[.first first] ++ ([.second second] ++ es), t, ?_, hglobals, ht, hprocessor⟩
    rw [Machine.run_append, hstep, afterFirst, if_pos hsome, if_neg hwhole, if_pos hpart]
    simp only [Option.bind_some]
    rw [Machine.run_append, hstep']
    exact hes
  · refine ⟨[.first first], _, hstep, rfl, ?_, rfl⟩
    simp only [afterFirst]
    rw [if_pos hsome, if_neg hwhole, if_neg hpart]
  · refine ⟨[.first first], _, hstep, rfl, ?_, rfl⟩
    simp only [afterFirst]
    rw [if_neg hsome]

/-- A processor that is not disturbed makes an iteration of `proc_data`. -/
theorem run_procData (htest : s.processor = .test) (hflag : s.globals.modbusDataChange = true) :
    ∃ t, machine.run s [.test, .lock, .clear, .check] = some t ∧
      { t.globals with dataChanged := true } = procData s.globals ∧
      t.checked = s.checked ++ [s.message] := by
  have hrun : machine.run s [.test, .lock, .clear, .check] = some { s with
      globals := checkAndCopy { s.globals with modbusDataChange := false }
      processor := .test
      checked := s.checked ++ [s.message] } := by
    simp [machine, Machine.run_cons, step, htest, hflag, State.message]
  refine ⟨_, hrun, ?_, rfl⟩
  rw [procData, if_pos hflag]

end Alone

/-! ## Hand-over -/

/-- A flagged message that waits to be checked: it is the last one flagged, and the buffer and
the length are still its own. -/
def Waiting (s : State) (message : List UInt8) : Prop :=
  s.flagged = s.checked ++ [message] ∧ s.globals.msg.slice 0 message.length = message ∧
    s.globals.msgLength = message.length

/-- The flag is up, or has been cleared for the check that comes next. -/
def Raised (s : State) : Prop :=
  s.globals.modbusDataChange = true ∨ s.processor = .check

/-- Every flagged message has been checked once and in order, except for one that waits under
its own flag; and the data of the last reply checked are in the packet. -/
structure HandedOff (s : State) : Prop where
  once : s.checked = s.flagged ∨ ∃ message, Waiting s message ∧ Raised s
  copied : ∀ (k : Slave) (data : Payload k), s.checked.getLast? = some (reply crc16 k data) →
    ∀ i < k.size, s.globals.dataBuf.peek (k.start + 6 + i) = data.peek i

/-- A read that stores at least one byte. -/
def Stores : Event → Prop
  | .first (some (_ :: _)) | .second (some (_ :: _)) => True
  | _ => False

instance (e : Event) : Decidable (Stores e) := by unfold Stores; split <;> infer_instance

/-- The condition on a step: nothing is stored into the buffer while the flag is up. -/
def NoOverrun (s : State) (e : Event) : Prop := Stores e → s.globals.modbusDataChange = false

instance (s : State) (e : Event) : Decidable (NoOverrun s e) :=
  inferInstanceAs (Decidable (_ → _))

/-! ## The invariant -/

structure Inv (s : State) : Prop where
  raised : Raised s → ∃ message, Waiting s message
  quiet : ¬ Raised s → s.checked = s.flagged
  /-- While the reader works on a message, no other waits. -/
  reading : s.reader ≠ .first → ¬ Raised s
  seen : s.processor = .lock ∨ s.processor = .clear → s.globals.modbusDataChange = true
  cleared : s.processor = .check → s.globals.modbusDataChange = false
  length : s.reader = .assignFlag → 0 ≤ s.globals.msgLength
  copied : ∀ (k : Slave) (data : Payload k), s.checked.getLast? = some (reply crc16 k data) →
    ∀ i < k.size, s.globals.dataBuf.peek (k.start + 6 + i) = data.peek i

theorem Inv.handedOff {s : State} (h : Inv s) : HandedOff s := by
  refine ⟨?_, h.copied⟩
  by_cases hraised : Raised s
  · obtain ⟨message, hwaiting⟩ := h.raised hraised
    exact .inr ⟨message, hwaiting, hraised⟩
  · exact .inl (h.quiet hraised)

theorem inv_init : Inv machine.init where
  raised h := by simp [Raised, machine, boot] at h
  quiet _ := rfl
  reading h := absurd rfl h
  seen h := by simp [machine] at h
  cleared _ := rfl
  length h := by simp [machine] at h
  copied _ _ h := by simp [machine] at h

section Steps

variable {s t : State}

/-- While nothing waits, the reader may change the buffer and the length as it likes. -/
theorem Inv.of_quiet (h : Inv s) (hquiet : ¬ Raised s) {g : Globals} {reader : Reader}
    (hflag : g.modbusDataChange = s.globals.modbusDataChange)
    (hbuf : g.dataBuf = s.globals.dataBuf)
    (hlength : reader = .assignFlag → 0 ≤ g.msgLength) :
    Inv { s with globals := g, reader := reader } := by
  have hstill : ¬ Raised { s with globals := g, reader := reader } := by
    simpa only [Raised, hflag] using hquiet
  refine ⟨fun hraised => absurd hraised hstill, fun _ => h.quiet hquiet, fun _ => hstill,
    fun hseen => ?_, fun hcleared => ?_, hlength, ?_⟩
  · rw [← h.seen hseen]
    exact hflag
  · rw [← h.cleared hcleared]
    exact hflag
  · simpa only [hbuf] using h.copied

theorem Inv.first (h : Inv s) {result : Option (List UInt8)} (hok : NoOverrun s (.first result))
    (hstep : step s (.first result) = some t) : Inv t := by
  simp only [step] at hstep
  split_ifs at hstep with hguard
  obtain ⟨hreader, hfree, -⟩ := hguard
  obtain rfl := Option.some.inj hstep
  -- a read that stores comes while nothing waits, by the condition
  by_cases hstores : Stores (.first result)
  · have hquiet : ¬ Raised s := by
      rintro (hflag | hcheck)
      · exact absurd (hok hstores) (by simp [hflag])
      · rw [hcheck] at hfree
        exact absurd hfree (by decide)
    refine h.of_quiet hquiet rfl rfl fun hassign => ?_
    rw [afterFirst] at hassign
    split_ifs at hassign
  · -- a read without bytes leaves everything as it was
    have hsame : { s with
        globals := { s.globals with msg := (readInto s.globals.msg 0 result).2 }
        reader := afterFirst (readInto s.globals.msg 0 result).1
          (readInto s.globals.msg 0 result).2 } = s := by
      have hnothing : (readInto s.globals.msg 0 result).2 = s.globals.msg ∧
          ¬ (readInto s.globals.msg 0 result).1 > 0 := by
        rcases result with _ | bytes
        · exact ⟨rfl, by simp [readInto]⟩
        · cases bytes with
          | nil => exact ⟨by rw [readInto, Buffer.blit_nil], by simp [readInto]⟩
          | cons ch bytes => exact absurd trivial hstores
      rw [hnothing.1, afterFirst, if_neg hnothing.2, ← hreader]
    rw [hsame]
    exact h

theorem Inv.second (h : Inv s) {result : Option (List UInt8)}
    (hstep : step s (.second result) = some t) : Inv t := by
  simp only [step] at hstep
  split at hstep
  · next nread hreader =>
    split_ifs at hstep
    obtain rfl := Option.some.inj hstep
    -- the reader is in the middle of a message, so no other waits
    refine h.of_quiet (h.reading ?_) rfl rfl fun hassign => ?_
    · simp [hreader]
    · exact absurd hassign (by simp)
  · exact absurd hstep (by simp)

theorem Inv.assignLength (h : Inv s) (hstep : step s .assignLength = some t) : Inv t := by
  simp only [step] at hstep
  split at hstep
  · next length hreader =>
    obtain rfl := Option.some.inj hstep
    refine h.of_quiet (h.reading ?_) rfl rfl fun hassign => ?_
    · simp [hreader]
    · split_ifs at hassign with hshort
      simp only
      omega
  · exact absurd hstep (by simp)

/-- Raising the flag makes the message in the buffer the one that waits. -/
theorem Inv.assignFlag (h : Inv s) (hstep : step s .assignFlag = some t) : Inv t := by
  simp only [step] at hstep
  split_ifs at hstep with hreader
  obtain rfl := Option.some.inj hstep
  have hquiet : ¬ Raised s := h.reading (by simp [hreader])
  have hlength := h.length hreader
  -- the processor is past its test only while a flag is up
  have htest : s.processor = .test := by
    cases hprocessor : s.processor with
    | test => rfl
    | lock => exact absurd (.inl (h.seen (.inl hprocessor))) hquiet
    | clear => exact absurd (.inl (h.seen (.inr hprocessor))) hquiet
    | check => exact absurd (.inr hprocessor) hquiet
  refine ⟨fun _ => ⟨s.message, ?_, ?_, ?_⟩, fun hnot => absurd (.inl rfl) hnot,
    fun hfirst => absurd rfl hfirst, fun _ => rfl, fun hcheck => ?_, fun hassign => ?_, h.copied⟩
  · simp only [h.quiet hquiet]
  · simp only [State.message, Buffer.length_slice]
  · simp only [State.message, Buffer.length_slice]
    omega
  · exact absurd (htest.symm.trans hcheck) (by simp)
  · exact absurd hassign (by simp)

theorem Inv.test (h : Inv s) (hstep : step s .test = some t) : Inv t := by
  simp only [step] at hstep
  split_ifs at hstep with htest hflag
  · obtain rfl := Option.some.inj hstep
    refine ⟨fun _ => h.raised (.inl hflag), fun hnot => absurd (.inl hflag) hnot,
      fun hreading => absurd (.inl hflag) (h.reading hreading), fun _ => hflag,
      fun hcheck => absurd hcheck (by simp), h.length, h.copied⟩
  · obtain rfl := Option.some.inj hstep
    rw [← htest]
    exact h

theorem Inv.lock (h : Inv s) (hstep : step s .lock = some t) : Inv t := by
  simp only [step] at hstep
  split_ifs at hstep with hlock
  obtain rfl := Option.some.inj hstep
  have hflag := h.seen (.inl hlock)
  exact ⟨fun _ => h.raised (.inl hflag), fun hnot => absurd (.inl hflag) hnot,
    fun hreading => absurd (.inl hflag) (h.reading hreading), fun _ => hflag,
    fun hcheck => absurd hcheck (by simp), h.length, h.copied⟩

theorem Inv.clear (h : Inv s) (hstep : step s .clear = some t) : Inv t := by
  simp only [step] at hstep
  split_ifs at hstep with hclear
  obtain rfl := Option.some.inj hstep
  have hflag := h.seen (.inr hclear)
  exact ⟨fun _ => h.raised (.inl hflag), fun hnot => absurd (.inr rfl) hnot,
    fun hreading => absurd (.inl hflag) (h.reading hreading), fun hseen => absurd hseen (by simp),
    fun _ => rfl, h.length, h.copied⟩

theorem dataBuf_frame (g : Globals) : (checkAndCopy g).msg = g.msg ∧
    (checkAndCopy g).msgLength = g.msgLength ∧
    (checkAndCopy g).modbusDataChange = g.modbusDataChange := by
  rw [checkAndCopy]
  split_ifs <;> exact ⟨rfl, rfl, rfl⟩

/-- The check takes the message that waits. -/
theorem Inv.check (h : Inv s) (hstep : step s .check = some t) : Inv t := by
  simp only [step] at hstep
  split_ifs at hstep with hcheck
  obtain rfl := Option.some.inj hstep
  obtain ⟨message, hflagged, hmsg, hlength⟩ := h.raised (.inr hcheck)
  -- the buffer and the length are still those of the message that was flagged
  have hmessage : s.message = message := by
    rw [State.message, hlength, Int.toNat_natCast, hmsg]
  have hflag : (checkAndCopy s.globals).modbusDataChange = false :=
    (dataBuf_frame s.globals).2.2.trans (h.cleared hcheck)
  have hnot : ¬ Raised { s with
      globals := checkAndCopy s.globals
      processor := .test
      checked := s.checked ++ [s.message] } := by
    simp [Raised, hflag]
  refine ⟨fun hraised => absurd hraised hnot, fun _ => ?_, fun _ => hnot,
    fun hseen => absurd hseen (by simp), fun htest => absurd htest (by simp), fun hassign => ?_,
    fun k data hlast => ?_⟩
  · simp only [hmessage, hflagged]
  · exact absurd (.inr hcheck) (h.reading (by simp only at hassign; simp [hassign]))
  · rw [List.getLast?_concat, hmessage] at hlast
    obtain rfl := Option.some.inj hlast
    rw [length_reply] at hmsg hlength
    exact checkAndCopy_of_reply hmsg hlength

/-- Every step that meets the condition keeps the invariant. -/
theorem Inv.step (h : Inv s) {e : Event} (hok : NoOverrun s e) (hstep : step s e = some t) :
    Inv t := by
  cases e with
  | first result => exact h.first hok hstep
  | second result => exact h.second hstep
  | assignLength => exact h.assignLength hstep
  | assignFlag => exact h.assignFlag hstep
  | test => exact h.test hstep
  | lock => exact h.lock hstep
  | clear => exact h.clear hstep
  | check => exact h.check hstep

end Steps

/-- **Hand-over.** In every run in which nothing is stored into the buffer while the flag is
up, every flagged message is handed over. -/
theorem handedOff_of_noOverrun {es : List Event} {s : State}
    (h : machine.Exec NoOverrun machine.init es s) : HandedOff s :=
  (h.invariant inv_init fun _ _ _ hinv hok hstep => hinv.step hok hstep).handedOff

/-- Slave 1 answers with the bytes from 1 on. -/
def countingReply : List UInt8 := reply crc16 .one fun i => UInt8.ofNat (i + 1)

/-- That reply is read in two pieces, flagged and checked; then slave 3 answers. -/
def twoReplies : List Event :=
  [.first (some (countingReply.take 16)), .second (some (countingReply.drop 16)), .assignLength,
    .assignFlag, .test, .lock, .clear, .check, .first (some (reply crc16 .three fun _ => 0)),
    .assignLength, .assignFlag, .test, .lock, .clear, .check]

theorem twoReplies_isSome :
    ((machine.restrict NoOverrun).run machine.init twoReplies).isSome = true := by
  decide +kernel

theorem handedOff_of_twoReplies :
    let s := ((machine.restrict NoOverrun).run machine.init twoReplies).get twoReplies_isSome
    s.checked = [countingReply, reply crc16 .three fun _ => 0] ∧
    (∀ i < 16, s.globals.dataBuf.peek (6 + i) = UInt8.ofNat (i + 1)) ∧ HandedOff s := by
  have hexec := Machine.exec_of_run_restrict (Option.some_get twoReplies_isSome).symm
  exact ⟨by decide +kernel, by decide +kernel, handedOff_of_noOverrun hexec⟩

/-- A reply that is read and flagged while the processor waits for the mutex or for the
flag. -/
theorem run_reply {s : State} (hreader : s.reader = .first)
    (hfree : s.processor.holdsMut = false) (k : Slave) (data : Payload k) :
    ∃ t, machine.run s [.first (some (reply crc16 k data)), .assignLength, .assignFlag] = some t ∧
      t.reader = .first ∧ t.processor = s.processor ∧
      t.flagged = s.flagged ++ [reply crc16 k data] ∧ t.checked = s.checked := by
  obtain ⟨msg, hblit⟩ : ∃ msg, s.globals.msg.blit 0 (reply crc16 k data) = msg := ⟨_, rfl⟩
  have hlength : (reply crc16 k data).length = k.replyLength := length_reply
  have hfits : k.replyLength ≤ 21 ∧ 11 ≤ k.replyLength := by cases k <;> decide
  have hmsg : msg.slice 0 k.replyLength = reply crc16 k data := by
    rw [← hblit, ← hlength, Buffer.slice_blit (by omega)]
  have hbody : (replyBody k data).length + 2 = k.replyLength := by
    rw [length_replyBody, Slave.replyLength]
  have hcount : (msg.peek 2).toNat = k.size := by
    have hcells := (peek_of_frame (hbody ▸ hmsg)).2 2 (by rw [length_replyBody]; omega)
    rw [← Option.some.inj hcells]
    cases k <;> rfl
  -- the reply counts its own bytes, so it is not read on
  have hnext : afterFirst k.replyLength msg = .assignLength k.replyLength := by
    rw [afterFirst, if_pos (by omega), if_pos (by rw [hcount, Slave.replyLength]; rfl)]
  have hlong : ¬ ((k.replyLength : ℤ) < 11) := by omega
  have hrun : machine.run s
      [.first (some (reply crc16 k data)), .assignLength, .assignFlag] = some { s with
        globals := { s.globals with
          msg := msg
          msgLength := k.replyLength
          modbusDataChange := true }
        flagged := s.flagged ++ [reply crc16 k data] } := by
    simp [machine, Machine.run_cons, step, readInto, hreader, hfree, hlength, hfits.1, hblit, hnext,
      hlong, State.message, hmsg]
  exact ⟨_, hrun, hreader, rfl, rfl, rfl⟩

/-- Slave 1 and slave 2 answer before the processor has looked at the flag. The second reply
overwrites the first, which is never checked. -/
theorem overrun_not_handedOff :
    ∃ s, machine.run machine.init
        [.first (some (reply crc16 .one fun _ => 0)), .assignLength, .assignFlag,
          .first (some (reply crc16 .two fun _ => 0)), .assignLength, .assignFlag] = some s ∧
      ¬ HandedOff s := by
  obtain ⟨s, hs, hreader, hprocessor, hflagged, hchecked⟩ :=
    run_reply (s := machine.init) rfl rfl .one fun _ => 0
  obtain ⟨t, ht, -, -, hflagged', hchecked'⟩ :=
    run_reply (s := s) hreader (by rw [hprocessor]; rfl) .two fun _ => 0
  refine ⟨t, ?_, ?_⟩
  · have hsplit := machine.run_append machine.init
      [.first (some (reply crc16 .one fun _ => 0)), .assignLength, .assignFlag]
      [.first (some (reply crc16 .two fun _ => 0)), .assignLength, .assignFlag]
    rw [hs] at hsplit
    exact hsplit.trans ht
  · -- two are flagged and none is checked, so more than one waits
    rintro ⟨honce, -⟩
    have hnone : t.checked = [] := hchecked'.trans hchecked
    have htwo : t.flagged.length = 2 := by
      rw [hflagged', hflagged]
      rfl
    rcases honce with hall | ⟨message, hwaiting, -⟩
    · rw [← hall, hnone] at htwo
      exact absurd htwo (by decide)
    · rw [hwaiting.1, hnone] at htwo
      exact absurd htwo (by simp)

end FanGateway.Arm.HandOff
