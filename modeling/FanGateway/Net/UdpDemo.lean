import FanGateway.Net.TcpClient

/-!
# The UDP task

The UDP task sends a greeting whenever a flag is set, and gathers the datagrams it
receives with the same loop as the client, into an array of its own. What it does with
buffers is kept; each buffer is numbered by the call that returned it.

Behind the test whether the greeting could be sent its buffer is deleted again. So the
buffers are used in order, and each is deleted once, as long as no greeting fails.
-/

namespace FanGateway.Net

open Lib Lifetime

/-- The call that `udp_thread` makes next, or that it has returned. -/
inductive UdpControl
  | new
  | bind
  | send
  | recv
  | stopped
  deriving DecidableEq

/-- A call that concerns a buffer, or an access through a pointer to one. -/
inductive UdpCall
  | netbufNew (buf : Option ℕ)
  | netbufAlloc (buf : Option ℕ)
  | setPayload (buf : Option ℕ)
  | netconnSend (buf : Option ℕ)
  | netconnRecv (buf : Option ℕ)
  | readChain (buf : Option ℕ)
  | netbufDelete (buf : Option ℕ)
  deriving DecidableEq

abbrev udpDemoRxBufsize : ℕ := 200

structure UdpThread where
  control : UdpControl
  sentbuf : Option ℕ
  recvbuf : Option Netbuf
  gather : Gather udpDemoRxBufsize
  calls : List UdpCall

/-- What a call returns; for a round of the loop, what sending the greeting would return, if
`send_data` is set. -/
inductive UdpResult
  | new (created : Bool)
  | bind (err : ℤ)
  | send (greeting : Option (Bool × ℤ))
  | recv (received : Option (List Segment))

namespace UdpThread

def init : UdpThread := ⟨.new, none, none, .boot, []⟩

def call (c : UdpCall) (s : UdpThread) : UdpThread := { s with calls := s.calls ++ [c] }

def netbufNew (created : Bool) (s : UdpThread) : UdpThread :=
  let buf := if created then some s.calls.length else none
  { s with sentbuf := buf }.call (.netbufNew buf)

/-- Sending the greeting. A buffer that could not be sent is deleted twice. -/
def sendGreeting (created : Bool) (err : ℤ) (s : UdpThread) : UdpThread :=
  let s := s.netbufNew created
  let s := s.call (.netbufAlloc s.sentbuf)
  let s := s.call (.setPayload s.sentbuf)
  let s := s.call (.netconnSend s.sentbuf)
  let s := if err ≠ errOk then s.call (.netbufDelete s.sentbuf) else s
  s.call (.netbufDelete s.sentbuf)

/-- `netconn_recv` makes the pointer null if there is nothing. -/
def netconnRecv (received : Option (List Segment)) (s : UdpThread) : UdpThread :=
  match received with
  | some chain =>
    { s with recvbuf := some ⟨s.calls.length, chain⟩ }.call (.netconnRecv (some s.calls.length))
  | none => { s with recvbuf := none }.call (.netconnRecv none)

/-- The copying of the received data, with interrupts off, and the end of the round. -/
def copyReceived (s : UdpThread) : UdpThread :=
  match s.recvbuf with
  | some buf =>
    { s.call (.readChain (some buf.number)) with gather := s.gather.gather buf.chain }.call
      (.netbufDelete (some buf.number))
  | none => s

def step (s : UdpThread) : UdpResult → Option UdpThread
  | .new created =>
    if s.control = .new then some { s with control := if created then .bind else .stopped }
    else none
  | .bind err =>
    if s.control = .bind then some { s with control := if err = errOk then .send else .stopped }
    else none
  | .send greeting =>
    if s.control = .send then
      match greeting with
      | some (created, err) => some { s.sendGreeting created err with control := .recv }
      | none => some { s with control := .recv }
    else none
  | .recv received =>
    if s.control = .recv then
      some { (s.netconnRecv received).copyReceived with control := .send }
    else none

end UdpThread

/-- `udp_thread`. -/
def udpThread : Machine UdpThread UdpResult := ⟨UdpThread.init, UdpThread.step⟩

/-! ## What is received -/

namespace UdpThread

variable {s t : UdpThread}

theorem gather_sendGreeting (created : Bool) (err : ℤ) :
    (s.sendGreeting created err).gather = s.gather := by
  rw [sendGreeting]
  split_ifs <;> rfl

/-- What a step can be. -/
theorem step_cases {e : UdpResult} (h : s.step e = some t) :
    (∃ created, e = .new created ∧
      t = { s with control := if created then .bind else .stopped }) ∨
    (∃ err, e = .bind err ∧ t = { s with control := if err = errOk then .send else .stopped }) ∨
    (e = .send none ∧ t = { s with control := .recv }) ∨
    (∃ created err, e = .send (some (created, err)) ∧
      t = { s.sendGreeting created err with control := .recv }) ∨
    ∃ received, e = .recv received ∧
      t = { (s.netconnRecv received).copyReceived with control := .send } := by
  cases e with
  | new created =>
    simp only [step, Option.ite_none_right_eq_some, Option.some.injEq] at h
    exact .inl ⟨created, rfl, h.2.symm⟩
  | bind err =>
    simp only [step, Option.ite_none_right_eq_some, Option.some.injEq] at h
    exact .inr (.inl ⟨err, rfl, h.2.symm⟩)
  | send greeting =>
    cases greeting with
    | none =>
      simp only [step, Option.ite_none_right_eq_some, Option.some.injEq] at h
      exact .inr (.inr (.inl ⟨rfl, h.2.symm⟩))
    | some greeting =>
      simp only [step, Option.ite_none_right_eq_some, Option.some.injEq] at h
      exact .inr (.inr (.inr (.inl ⟨greeting.1, greeting.2, rfl, h.2.symm⟩)))
  | recv received =>
    simp only [step, Option.ite_none_right_eq_some, Option.some.injEq] at h
    exact .inr (.inr (.inr (.inr ⟨received, rfl, h.2.symm⟩)))

theorem gather_step {e : UdpResult} (hstep : s.step e = some t) :
    t.gather = s.gather ∨ ∃ chain, t.gather = s.gather.gather chain := by
  obtain ⟨created, -, rfl⟩ | ⟨err, -, rfl⟩ | ⟨-, rfl⟩ | ⟨created, err, -, rfl⟩ |
    ⟨received, -, rfl⟩ := step_cases hstep
  · exact .inl rfl
  · exact .inl rfl
  · exact .inl rfl
  · exact .inl (gather_sendGreeting created err)
  · cases received with
    | none => exact .inl rfl
    | some chain => exact .inr ⟨chain, rfl⟩

end UdpThread

theorem udpThread_receives :
    Receives udpThread UdpThread.gather fun chain => .recv (some chain) := by
  refine receives_of_step (by decide) rfl (fun s chain t _ hstep => ?_) fun s e t hstep =>
    UdpThread.gather_step hstep
  simp only [udpThread, UdpThread.step, Option.ite_none_right_eq_some, Option.some.injEq] at hstep
  obtain ⟨-, rfl⟩ := hstep
  rfl

/-- **Both tasks gather.** -/
theorem chains_gathered :
    (Receives tcpClient TcpClient.gather fun chain => .recv (.data chain)) ∧
      Receives udpThread UdpThread.gather fun chain => .recv (some chain) :=
  ⟨tcpClient_receives, udpThread_receives⟩

/-! ## Greetings that cannot be sent -/

namespace UdpCall

def bufOp : UdpCall → Option (Op ℕ)
  | .netbufNew buf | .netconnRecv buf => buf.map .acquire
  | .netbufAlloc buf | .setPayload buf | .netconnSend buf | .readChain buf => buf.map .use
  | .netbufDelete buf => buf.map .release

end UdpCall

def udpOps (calls : List UdpCall) : List (Op ℕ) := calls.filterMap UdpCall.bufOp

/-- A greeting for which there is a buffer is sent. -/
def Sends (_ : UdpThread) : UdpResult → Prop
  | .send (some (created, err)) => created = true → err = errOk
  | _ => True

section Greetings

variable {calls calls' : List UdpCall} {s t : UdpThread} {err : ℤ}

/-- No buffer has a number that is still to come. -/
def Numbered (calls : List UdpCall) : Prop := ∀ op ∈ udpOps calls, op.resource < calls.length

theorem Numbered.fresh (h : Numbered calls) : ∀ op ∈ udpOps calls, op.resource ≠ calls.length :=
  fun op hop => (h op hop).ne

/-- More calls that concern a new buffer, if any. -/
theorem Numbered.of_ops (h : Numbered calls) (hlen : calls.length < calls'.length)
    (hops : ∀ op ∈ udpOps calls', op ∈ udpOps calls ∨ op.resource = calls.length) :
    Numbered calls' := by
  intro op hop
  rcases hops op hop with hold | hnew
  · exact (h op hold).trans hlen
  · rw [hnew]
    exact hlen

theorem length_sendGreeting (created : Bool) (err : ℤ) :
    s.calls.length < (s.sendGreeting created err).calls.length := by
  rw [UdpThread.sendGreeting]
  split_ifs <;> simp [UdpThread.netbufNew, UdpThread.call]

/-- Without a buffer nothing is done to one. -/
theorem udpOps_without_buffer (err : ℤ) :
    udpOps (s.sendGreeting false err).calls = udpOps s.calls := by
  rw [UdpThread.sendGreeting]
  split_ifs <;> simp [UdpThread.netbufNew, UdpThread.call, udpOps, UdpCall.bufOp]

theorem udpOps_sent :
    udpOps (s.sendGreeting true errOk).calls =
      udpOps s.calls ++ [.acquire s.calls.length] ++ [.use s.calls.length] ++
        [.use s.calls.length] ++ [.use s.calls.length] ++ [.release s.calls.length] := by
  simp [UdpThread.sendGreeting, UdpThread.netbufNew, UdpThread.call, udpOps, UdpCall.bufOp]

/-- Deleted where it failed, and once more behind that. -/
theorem udpOps_failed (h : err ≠ errOk) :
    udpOps (s.sendGreeting true err).calls =
      udpOps s.calls ++ [.acquire s.calls.length] ++ [.use s.calls.length] ++
        [.use s.calls.length] ++ [.use s.calls.length] ++ [.release s.calls.length] ++
        [.release s.calls.length] := by
  simp [UdpThread.sendGreeting, UdpThread.netbufNew, UdpThread.call, udpOps, UdpCall.bufOp, h]

theorem udpOps_nothing :
    udpOps (s.netconnRecv none).copyReceived.calls = udpOps s.calls := by
  simp [UdpThread.netconnRecv, UdpThread.copyReceived, UdpThread.call, udpOps, UdpCall.bufOp]

theorem udpOps_received (chain : List Segment) :
    udpOps (s.netconnRecv (some chain)).copyReceived.calls =
      udpOps s.calls ++ [.acquire s.calls.length] ++ [.use s.calls.length] ++
        [.release s.calls.length] := by
  simp [UdpThread.netconnRecv, UdpThread.copyReceived, UdpThread.call, udpOps, UdpCall.bufOp]

/-- A greeting keeps the discipline exactly if it is sent or has no buffer. -/
theorem disciplined_sendGreeting (h : Numbered s.calls) (created : Bool) (err : ℤ) :
    Disciplined (udpOps (s.sendGreeting created err).calls) ↔
      Disciplined (udpOps s.calls) ∧ (created = true → err = errOk) := by
  cases created with
  | false =>
    rw [udpOps_without_buffer]
    exact (and_iff_left fun hcreated => absurd hcreated Bool.false_ne_true).symm
  | true =>
    have hnew := inUse_acquire h.fresh
    by_cases herr : err = errOk
    · rw [herr, udpOps_sent]
      constructor
      · intro hall
        exact ⟨hall.of_append.of_append.of_append.of_append.of_append, fun _ => rfl⟩
      · rintro ⟨hbefore, -⟩
        have hused := ((hbefore.acquire h.fresh).use hnew).use hnew.use
        exact (hused.use hnew.use.use).release hnew.use.use.use
    · rw [udpOps_failed herr]
      exact iff_of_false not_disciplined_of_release_release fun hall => herr (hall.2 rfl)

theorem disciplined_received (h : Numbered s.calls) (chain : List Segment) :
    Disciplined (udpOps (s.netconnRecv (some chain)).copyReceived.calls) ↔
      Disciplined (udpOps s.calls) := by
  have hnew := inUse_acquire h.fresh
  rw [udpOps_received]
  constructor
  · exact fun hall => hall.of_append.of_append.of_append
  · exact fun hbefore => ((hbefore.acquire h.fresh).use hnew).release hnew.use

theorem numbered_sendGreeting (h : Numbered s.calls) (created : Bool) (err : ℤ) :
    Numbered (s.sendGreeting created err).calls := by
  refine h.of_ops (length_sendGreeting created err) fun op hop => ?_
  cases created with
  | false =>
    rw [udpOps_without_buffer] at hop
    exact .inl hop
  | true =>
    by_cases herr : err = errOk
    · rw [herr, udpOps_sent] at hop
      grind [Op.resource]
    · rw [udpOps_failed herr] at hop
      grind [Op.resource]

theorem numbered_received (h : Numbered s.calls) (received : Option (List Segment)) :
    Numbered (s.netconnRecv received).copyReceived.calls := by
  have hlen : s.calls.length < (s.netconnRecv received).copyReceived.calls.length := by
    cases received <;> simp [UdpThread.netconnRecv, UdpThread.copyReceived, UdpThread.call]
  refine h.of_ops hlen fun op hop => ?_
  cases received with
  | none =>
    rw [udpOps_nothing] at hop
    exact .inl hop
  | some chain =>
    rw [udpOps_received] at hop
    grind [Op.resource]

theorem Numbered.step (h : Numbered s.calls) {e : UdpResult} (hstep : s.step e = some t) :
    Numbered t.calls := by
  obtain ⟨created, -, rfl⟩ | ⟨err, -, rfl⟩ | ⟨-, rfl⟩ | ⟨created, err, -, rfl⟩ |
    ⟨received, -, rfl⟩ := UdpThread.step_cases hstep
  · exact h
  · exact h
  · exact h
  · exact numbered_sendGreeting h created err
  · exact numbered_received h received

/-- A step keeps the discipline exactly if it fails to send no greeting. -/
theorem disciplined_step (h : Numbered s.calls) {e : UdpResult} (hstep : s.step e = some t) :
    Disciplined (udpOps t.calls) ↔ Disciplined (udpOps s.calls) ∧ Sends s e := by
  obtain ⟨created, rfl, rfl⟩ | ⟨err, rfl, rfl⟩ | ⟨rfl, rfl⟩ | ⟨created, err, rfl, rfl⟩ |
    ⟨received, rfl, rfl⟩ := UdpThread.step_cases hstep
  · exact (and_iff_left trivial).symm
  · exact (and_iff_left trivial).symm
  · exact (and_iff_left trivial).symm
  · exact disciplined_sendGreeting h created err
  · refine Iff.trans ?_ (and_iff_left trivial).symm
    cases received with
    | none =>
      exact iff_of_eq (congrArg Disciplined udpOps_nothing)
    | some chain => exact disciplined_received h chain

theorem disciplined_iff_sends {events : List UdpResult}
    (h : udpThread.run udpThread.init events = some s) :
    Disciplined (udpOps s.calls) ↔ udpThread.Exec Sends udpThread.init events s := by
  have hinit : Disciplined (udpOps udpThread.init.calls) := atEach_nil
  have hnumbered : Numbered udpThread.init.calls := fun _ hop => absurd hop List.not_mem_nil
  exact Machine.iff_exec (P := fun s => Disciplined (udpOps s.calls))
    (I := fun s => Numbered s.calls) h hinit hnumbered
    (fun _ _ _ hs hstep => hs.step hstep) fun _ _ _ hs hstep => disciplined_step hs hstep

/-! ## Deletions that are not left out -/

theorem Numbered.not_mem (h : Numbered calls) :
    ∀ i ∈ some calls.length, .acquire i ∉ udpOps calls := by
  rintro i ⟨⟩ hmem
  exact h.fresh _ hmem rfl

/-- A greeting that is sent leaves no buffer behind. -/
theorem holds_sendGreeting (h : Holds ∅ (udpOps s.calls)) (hnumbered : Numbered s.calls)
    {created : Bool} (hsent : created = true → err = errOk) :
    Holds ∅ (udpOps (s.sendGreeting created err).calls) := by
  cases created with
  | false =>
    rw [udpOps_without_buffer]
    exact h
  | true =>
    rw [hsent rfl, udpOps_sent]
    have hnew := h.acquire_pointer hnumbered.not_mem
    exact hnew.use_pointer.use_pointer.use_pointer.release_pointer

/-- Nor does a round of the receiving loop. -/
theorem holds_received (h : Holds ∅ (udpOps s.calls)) (hnumbered : Numbered s.calls)
    (received : Option (List Segment)) :
    Holds ∅ (udpOps (s.netconnRecv received).copyReceived.calls) := by
  cases received with
  | none =>
    rw [udpOps_nothing]
    exact h
  | some chain =>
    rw [udpOps_received]
    exact (h.acquire_pointer hnumbered.not_mem).use_pointer.release_pointer

theorem holds_step (h : Holds ∅ (udpOps s.calls)) (hnumbered : Numbered s.calls) {e : UdpResult}
    (hsends : Sends s e) (hstep : s.step e = some t) : Holds ∅ (udpOps t.calls) := by
  obtain ⟨created, rfl, rfl⟩ | ⟨err, rfl, rfl⟩ | ⟨rfl, rfl⟩ | ⟨created, err, rfl, rfl⟩ |
    ⟨received, rfl, rfl⟩ := UdpThread.step_cases hstep
  · exact h
  · exact h
  · exact h
  · exact holds_sendGreeting h hnumbered hsends
  · exact holds_received h hnumbered received

/-- **Double deletion.** The buffers of the UDP task are used in order, and each it got has been
deleted exactly once by the end of its round, exactly in the runs in which no greeting fails to be
sent. -/
theorem deletedOnce_iff_sends {events : List UdpResult}
    (h : udpThread.run udpThread.init events = some s) :
    (Disciplined (udpOps s.calls) ∧ Settled (udpOps s.calls)) ↔
      udpThread.Exec Sends udpThread.init events s := by
  constructor
  · exact fun hdeleted => (disciplined_iff_sends h).mp hdeleted.1
  · intro hsends
    have hnumbered : Numbered udpThread.init.calls := fun _ hop => absurd hop List.not_mem_nil
    -- between the rounds nothing is held
    have hlast := hsends.invariant (P := fun s => Holds ∅ (udpOps s.calls) ∧ Numbered s.calls)
      ⟨.nil, hnumbered⟩ fun _ _ _ hs hok hstep =>
        ⟨holds_step hs.1 hs.2 hok hstep, hs.2.step hstep⟩
    exact ⟨hlast.1.disciplined, hlast.1.settled⟩

/-- A greeting is sent, a datagram comes, and for the next greeting there is no buffer. -/
def sentGreeting : List UdpResult :=
  [.new true, .bind 0, .send (some (true, 0)), .recv (some []), .send (some (false, -1))]

/-- A greeting is sent, and the next one cannot be. -/
def failedGreeting : List UdpResult :=
  [.new true, .bind 0, .send (some (true, 0)), .recv none] ++ [.send (some (true, -1))]

theorem greetings_run : (udpThread.run udpThread.init sentGreeting).isSome = true ∧
    (udpThread.run udpThread.init failedGreeting).isSome = true := ⟨rfl, rfl⟩

theorem deletedOnce_iff_sends_greetings :
    (Disciplined (udpOps ((udpThread.run udpThread.init sentGreeting).get
        greetings_run.1).calls) ∧
      Settled (udpOps ((udpThread.run udpThread.init sentGreeting).get
        greetings_run.1).calls)) ∧
    ¬ (Disciplined (udpOps ((udpThread.run udpThread.init failedGreeting).get
        greetings_run.2).calls) ∧
      Settled (udpOps ((udpThread.run udpThread.init failedGreeting).get
        greetings_run.2).calls)) := by
  have hsent := Option.some_get greetings_run.1
  have hfailed := Option.some_get greetings_run.2
  constructor
  · refine (deletedOnce_iff_sends hsent.symm).mpr ?_
    exact .snoc (.snoc (.snoc (.snoc (.snoc .nil trivial rfl) trivial rfl) (fun _ => rfl) rfl)
      trivial rfl) (fun hcreated => absurd hcreated Bool.false_ne_true) rfl
  · intro hdeleted
    obtain ⟨t, -, hsends, -⟩ := ((deletedOnce_iff_sends hfailed.symm).mp hdeleted).of_snoc
    exact absurd (hsends rfl) (by decide)

end Greetings

end FanGateway.Net
