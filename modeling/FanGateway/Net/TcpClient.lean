import FanGateway.Lib.Machine
import FanGateway.Lib.Lifetime
import FanGateway.Net.Ethernet
import FanGateway.Net.Gather

/-!
# The client task

The client creates a connection, connects it, and then sends the packet and looks for
something to receive, again and again, until one of the calls fails in a way that it takes
for the end of the connection. It deletes the connection and creates the next one. That the
peer has closed the connection is tested for twice in a row.

A run is determined by what the calls of the network stack return. The calls are kept, with
the connections and buffers they concern, and each connection and each buffer is numbered
by the call that returned it.
-/

namespace FanGateway.Net

open Lib Lifetime

/-! ## Calls of the network stack -/

/-- A call, or an access through a pointer. -/
inductive NetCall
  | netconnNew (conn : Option ℕ)
  | netconnConnect (conn : Option ℕ)
  | setRecvTimeout (conn : Option ℕ)
  | netconnGetaddr (conn : Option ℕ)
  | netconnWrite (conn : Option ℕ)
  | netconnRecv (conn buf : Option ℕ)
  | readChain (buf : Option ℕ)
  | netbufDelete (buf : Option ℕ)
  | netconnClose (conn : Option ℕ)
  | netconnDelete (conn : Option ℕ)
  deriving DecidableEq

/-- `ERR_CLSD`. -/
abbrev errClsd : ℤ := -12

/-- `ERR_ARG`. -/
abbrev errArg : ℤ := -14

/-- What `netconn_recv` finds: a chain of buffers, or an error. -/
inductive Received
  | data (chain : List Segment)
  | error (err : ℤ) (ne : err ≠ errOk)

/-- A received buffer. -/
structure Netbuf where
  number : ℕ
  chain : List Segment

/-! ## The client -/

/-- The call that `tcp_client_thread` makes next. -/
inductive Control
  | new
  | connect
  | write
  | recv
  deriving DecidableEq

abbrev tcpClientRxBufsize : ℕ := 200

structure TcpClient where
  control : Control
  tcpClientconn : Option ℕ
  recvbuf : Option Netbuf
  gather : Gather tcpClientRxBufsize
  calls : List NetCall

/-- What a call of the network stack returns. -/
inductive NetResult
  | new (created : Bool)
  | connect (err : ℤ)
  | write (err : ℤ)
  | recv (received : Received)

namespace TcpClient

def init : TcpClient := ⟨.new, none, none, .boot, []⟩

def call (c : NetCall) (s : TcpClient) : TcpClient := { s with calls := s.calls ++ [c] }

def netconnNew (created : Bool) (s : TcpClient) : TcpClient :=
  let conn := if created then some s.calls.length else none
  { s with tcpClientconn := conn }.call (.netconnNew conn)

/-- The functions of the stack return an error for a null pointer. -/
def checked (conn : Option ℕ) (err : ℤ) : ℤ := if conn.isSome then err else errArg

def netconnRecv (received : Received) (s : TcpClient) : ℤ × TcpClient :=
  match received with
  | .data chain =>
    if s.tcpClientconn.isSome then
      (errOk, { s with recvbuf := some ⟨s.calls.length, chain⟩ }.call
        (.netconnRecv s.tcpClientconn (some s.calls.length)))
    else
      (errArg, { s with recvbuf := none }.call (.netconnRecv s.tcpClientconn none))
  | .error err _ =>
    (checked s.tcpClientconn err,
      { s with recvbuf := none }.call (.netconnRecv s.tcpClientconn none))

def netbufDelete (s : TcpClient) : TcpClient :=
  s.call (.netbufDelete (s.recvbuf.map Netbuf.number))

/-- `netconn_close` and `netconn_delete`. The pointer stays what it is. -/
def closeAndDelete (s : TcpClient) : TcpClient :=
  (s.call (.netconnClose s.tcpClientconn)).call (.netconnDelete s.tcpClientconn)

/-- The copying of the received data, with interrupts off. -/
def copyReceived (s : TcpClient) : TcpClient :=
  match s.recvbuf with
  | none => s.call (.readChain none)
  | some buf =>
    { s.call (.readChain (some buf.number)) with gather := s.gather.gather buf.chain }

def connect (err : ℤ) (s : TcpClient) : TcpClient :=
  let err := checked s.tcpClientconn err
  let s := s.call (.netconnConnect s.tcpClientconn)
  if err ≠ errOk then { s.call (.netconnDelete s.tcpClientconn) with control := .new }
  else if err = errOk then
    let s := s.call (.setRecvTimeout s.tcpClientconn)
    { s.call (.netconnGetaddr s.tcpClientconn) with control := .write }
  else { s with control := .new }

/-- One write, behind the wait for a message in the mailbox. -/
def write (err : ℤ) (s : TcpClient) : TcpClient :=
  let err := checked s.tcpClientconn err
  let s := s.call (.netconnWrite s.tcpClientconn)
  if err ≠ errOk then { s.closeAndDelete with control := .new } else { s with control := .recv }

/-- The second test for a closed connection. -/
def testClosed (recvErr : ℤ) (s : TcpClient) : TcpClient :=
  if recvErr = errClsd then { s.closeAndDelete with control := .new }
  else { s with control := .write }

def recv (received : Received) (s : TcpClient) : TcpClient :=
  let r := s.netconnRecv received
  let recvErr := r.1
  let s := r.2
  if recvErr = errOk then s.copyReceived.netbufDelete.testClosed recvErr
  else if recvErr = errClsd then { s.closeAndDelete with control := .new }
  else s.testClosed recvErr

def step (s : TcpClient) : NetResult → Option TcpClient
  | .new created =>
    if s.control = .new then some { s.netconnNew created with control := .connect } else none
  | .connect err => if s.control = .connect then some (s.connect err) else none
  | .write err => if s.control = .write then some (s.write err) else none
  | .recv received => if s.control = .recv then some (s.recv received) else none

end TcpClient

/-- `tcp_client_thread`. -/
def tcpClient : Machine TcpClient NetResult := ⟨TcpClient.init, TcpClient.step⟩

/-! ## What is done with connections and buffers -/

namespace NetCall

def connOp : NetCall → Option (Op ℕ)
  | .netconnNew conn => conn.map .acquire
  | .netconnDelete conn => conn.map .release
  | .netconnConnect conn | .setRecvTimeout conn | .netconnGetaddr conn | .netconnWrite conn
  | .netconnRecv conn _ | .netconnClose conn => conn.map .use
  | .readChain _ | .netbufDelete _ => none

def bufOp : NetCall → Option (Op ℕ)
  | .netconnRecv _ buf => buf.map .acquire
  | .readChain buf => buf.map .use
  | .netbufDelete buf => buf.map .release
  | _ => none

def IsNew : NetCall → Prop
  | .netconnNew _ => True
  | _ => False

def IsRecv : NetCall → Prop
  | .netconnRecv _ _ => True
  | _ => False

end NetCall

def connOps (calls : List NetCall) : List (Op ℕ) := calls.filterMap NetCall.connOp

def bufOps (calls : List NetCall) : List (Op ℕ) := calls.filterMap NetCall.bufOp

/-- What must hold of the calls before a call: it uses and deletes only what has been created and
not been deleted, and a connection is created only after all others, and a buffer received only
after all others, have been deleted exactly once. -/
structure Tidy (before : List NetCall) (c : NetCall) : Prop where
  conn : ∀ op ∈ c.connOp, op.Allowed (connOps before)
  buf : ∀ op ∈ c.bufOp, op.Allowed (bufOps before)
  new : c.IsNew → Settled (connOps before)
  recv : c.IsNew ∨ c.IsRecv → Settled (bufOps before)

/-- After tidy calls certain connections and buffers are held. -/
structure Keeps (conns bufs : Set ℕ) (calls : List NetCall) : Prop where
  conns : Holds conns (connOps calls)
  bufs : Holds bufs (bufOps calls)
  number_lt : ∀ n, .acquire n ∈ connOps calls ∨ .acquire n ∈ bufOps calls → n < calls.length
  tidy : AtEach Tidy calls

/-! ## One call -/

namespace Keeps

variable {conns bufs : Set ℕ} {calls : List NetCall} {conn buf : Option ℕ} {c : NetCall}

theorem nil : Keeps ∅ ∅ [] :=
  ⟨.nil, .nil, fun _ hn => absurd hn (by simp [connOps, bufOps]), atEach_nil⟩

theorem connOps_append : connOps (calls ++ [c]) = connOps calls ++ c.connOp.toList := by
  rw [connOps, List.filterMap_append, List.filterMap_cons]
  cases c.connOp <;> rfl

theorem bufOps_append : bufOps (calls ++ [c]) = bufOps calls ++ c.bufOp.toList := by
  rw [bufOps, List.filterMap_append, List.filterMap_cons]
  cases c.bufOp <;> rfl

/-- A call that may follow the calls so far. -/
theorem append {conns' bufs' : Set ℕ} (h : Keeps conns bufs calls)
    (hconns : Holds conns' (connOps calls ++ c.connOp.toList))
    (hbufs : Holds bufs' (bufOps calls ++ c.bufOp.toList))
    (hnumber : ∀ n, c.connOp = some (.acquire n) ∨ c.bufOp = some (.acquire n) →
      n = calls.length)
    (hnew : c.IsNew → Settled (connOps calls))
    (hrecv : c.IsNew ∨ c.IsRecv → Settled (bufOps calls)) :
    Keeps conns' bufs' (calls ++ [c]) := by
  have hallowed {live : Set ℕ} {ops : List (Op ℕ)} {next : Option (Op ℕ)}
      (hlive : Holds live (ops ++ next.toList)) : ∀ op ∈ next, op.Allowed ops := by
    rintro op rfl
    exact (atEach_append_singleton.mp hlive.disciplined).2
  refine ⟨?_, ?_, fun n hn => ?_, atEach_append_singleton.mpr
    ⟨h.tidy, hallowed hconns, hallowed hbufs, hnew, hrecv⟩⟩
  · rw [connOps_append]
    exact hconns
  · rw [bufOps_append]
    exact hbufs
  · rw [connOps_append, bufOps_append] at hn
    rw [List.length_append, List.length_singleton]
    have hbefore := h.number_lt n
    have hlast := hnumber n
    simp only [List.mem_append, Option.mem_toList] at hn
    grind

theorem number_not_mem (h : Keeps conns bufs calls) :
    .acquire calls.length ∉ connOps calls ∧ .acquire calls.length ∉ bufOps calls :=
  ⟨fun hn => absurd (h.number_lt _ (.inl hn)) (lt_irrefl _),
    fun hn => absurd (h.number_lt _ (.inr hn)) (lt_irrefl _)⟩

theorem netconnNew (h : Keeps ∅ ∅ calls) (hconn : ∀ n ∈ conn, n = calls.length) :
    Keeps (heldBy conn) ∅ (calls ++ [.netconnNew conn]) := by
  refine h.append (h.conns.acquire_pointer fun n hn => ?_) ?_ (fun n hn => ?_)
    (fun _ => h.conns.settled) fun _ => h.bufs.settled
  · rw [hconn n hn]
    exact h.number_not_mem.1
  · simpa [NetCall.bufOp] using h.bufs
  · exact hconn n (by simpa [NetCall.connOp, NetCall.bufOp] using hn)

/-- A call on the connection that neither creates nor receives. -/
theorem use (h : Keeps (heldBy conn) bufs calls) (hconn : c.connOp = conn.map .use)
    (hbuf : c.bufOp = none) (hnew : ¬ c.IsNew) (hrecv : ¬ c.IsRecv) :
    Keeps (heldBy conn) bufs (calls ++ [c]) := by
  refine h.append ?_ ?_ (fun n hn => ?_) (fun hc => absurd hc hnew) fun hc =>
    absurd hc (not_or.mpr ⟨hnew, hrecv⟩)
  · rw [hconn]
    exact h.conns.use_pointer
  · rw [hbuf, Option.toList_none, List.append_nil]
    exact h.bufs
  · rw [hconn, hbuf] at hn
    exact absurd hn (by simp)

theorem netconnDelete (h : Keeps (heldBy conn) bufs calls) :
    Keeps ∅ bufs (calls ++ [.netconnDelete conn]) := by
  refine h.append h.conns.release_pointer ?_ (fun n hn => ?_) False.elim (or_self_iff.mp · |>.elim)
  · simpa [NetCall.bufOp] using h.bufs
  · exact absurd hn (by simp [NetCall.connOp, NetCall.bufOp])

theorem netconnRecv (h : Keeps (heldBy conn) ∅ calls) (hbuf : ∀ n ∈ buf, n = calls.length) :
    Keeps (heldBy conn) (heldBy buf) (calls ++ [.netconnRecv conn buf]) := by
  refine h.append h.conns.use_pointer (h.bufs.acquire_pointer fun n hn => ?_) (fun n hn => ?_)
    False.elim fun _ => h.bufs.settled
  · rw [hbuf n hn]
    exact h.number_not_mem.2
  · exact hbuf n (by simpa [NetCall.connOp, NetCall.bufOp] using hn)

theorem readChain (h : Keeps conns (heldBy buf) calls) :
    Keeps conns (heldBy buf) (calls ++ [.readChain buf]) := by
  refine h.append ?_ h.bufs.use_pointer (fun n hn => ?_) False.elim (or_self_iff.mp · |>.elim)
  · simpa [NetCall.connOp] using h.conns
  · exact absurd hn (by simp [NetCall.connOp, NetCall.bufOp])

theorem netbufDelete (h : Keeps conns (heldBy buf) calls) :
    Keeps conns ∅ (calls ++ [.netbufDelete buf]) := by
  refine h.append ?_ h.bufs.release_pointer (fun n hn => ?_) False.elim (or_self_iff.mp · |>.elim)
  · simpa [NetCall.connOp] using h.conns
  · exact absurd hn (by simp [NetCall.connOp, NetCall.bufOp])

end Keeps

/-! ## Every run -/

namespace TcpClient

variable {s t : TcpClient}

/-- What a step can be. -/
theorem step_cases {e : NetResult} (h : s.step e = some t) :
    (∃ created, e = .new created ∧ s.control = .new ∧
      t = { s.netconnNew created with control := .connect }) ∨
    (∃ err, e = .connect err ∧ s.control = .connect ∧ t = s.connect err) ∨
    (∃ err, e = .write err ∧ s.control = .write ∧ t = s.write err) ∨
    ∃ received, e = .recv received ∧ s.control = .recv ∧ t = s.recv received := by
  cases e with
  | new created =>
    simp only [step, Option.ite_none_right_eq_some, Option.some.injEq] at h
    exact .inl ⟨created, rfl, h.1, h.2.symm⟩
  | connect err =>
    simp only [step, Option.ite_none_right_eq_some, Option.some.injEq] at h
    exact .inr (.inl ⟨err, rfl, h.1, h.2.symm⟩)
  | write err =>
    simp only [step, Option.ite_none_right_eq_some, Option.some.injEq] at h
    exact .inr (.inr (.inl ⟨err, rfl, h.1, h.2.symm⟩))
  | recv received =>
    simp only [step, Option.ite_none_right_eq_some, Option.some.injEq] at h
    exact .inr (.inr (.inr ⟨received, rfl, h.1, h.2.symm⟩))

/-- A connection is held except before the next one is created; no buffer is held. -/
def Balanced (s : TcpClient) : Prop :=
  Keeps (if s.control = .new then ∅ else heldBy s.tcpClientconn) ∅ s.calls

theorem balanced_of_new (hcontrol : s.control = .new) (h : Keeps ∅ ∅ s.calls) : s.Balanced := by
  rw [Balanced, if_pos hcontrol]
  exact h

theorem balanced_of_ne (hcontrol : s.control ≠ .new)
    (h : Keeps (heldBy s.tcpClientconn) ∅ s.calls) : s.Balanced := by
  rw [Balanced, if_neg hcontrol]
  exact h

theorem Balanced.keeps (h : s.Balanced) (hcontrol : s.control ≠ .new) :
    Keeps (heldBy s.tcpClientconn) ∅ s.calls := by
  rw [Balanced, if_neg hcontrol] at h
  exact h

theorem keeps_closeAndDelete (h : Keeps (heldBy s.tcpClientconn) ∅ s.calls) :
    Keeps ∅ ∅ s.closeAndDelete.calls :=
  (h.use (c := .netconnClose s.tcpClientconn) rfl rfl id id).netconnDelete

/-- Closing the connection and going for the next one. -/
theorem balanced_closeAndDelete (h : Keeps (heldBy s.tcpClientconn) ∅ s.calls) :
    Balanced { s.closeAndDelete with control := .new } :=
  balanced_of_new rfl (keeps_closeAndDelete h)

theorem balanced_connect (err : ℤ) (h : Keeps (heldBy s.tcpClientconn) ∅ s.calls) :
    (s.connect err).Balanced := by
  have hcall := h.use (c := .netconnConnect s.tcpClientconn) rfl rfl id id
  rw [connect]
  dsimp only
  split_ifs with herr hok
  · exact balanced_of_new rfl hcall.netconnDelete
  · have hset := hcall.use (c := .setRecvTimeout s.tcpClientconn) rfl rfl id id
    exact balanced_of_ne (by simp) (hset.use rfl rfl id id)
  · exact absurd (not_not.mp herr) hok

theorem balanced_write (err : ℤ) (h : Keeps (heldBy s.tcpClientconn) ∅ s.calls) :
    (s.write err).Balanced := by
  have hcall := h.use (c := .netconnWrite s.tcpClientconn) rfl rfl id id
  rw [write]
  dsimp only
  split_ifs
  · exact balanced_closeAndDelete hcall
  · exact balanced_of_ne (by simp) hcall

theorem balanced_testClosed (recvErr : ℤ) (h : Keeps (heldBy s.tcpClientconn) ∅ s.calls) :
    (s.testClosed recvErr).Balanced := by
  rw [testClosed]
  split_ifs
  · exact balanced_closeAndDelete h
  · exact balanced_of_ne (by simp) h

/-- A buffer is received unless there is an error. -/
theorem keeps_netconnRecv (received : Received) (h : Keeps (heldBy s.tcpClientconn) ∅ s.calls) :
    Keeps (heldBy (s.netconnRecv received).2.tcpClientconn)
      (heldBy ((s.netconnRecv received).2.recvbuf.map Netbuf.number))
      (s.netconnRecv received).2.calls := by
  cases received with
  | data chain =>
    rw [netconnRecv]
    split_ifs
    · exact h.netconnRecv fun n hn => (Option.some.inj hn).symm
    · exact h.netconnRecv fun n hn => absurd hn (Option.not_mem_none n)
  | error err ne => exact h.netconnRecv fun n hn => absurd hn (Option.not_mem_none n)

theorem recvbuf_of_error {received : Received} (h : (s.netconnRecv received).1 ≠ errOk) :
    (s.netconnRecv received).2.recvbuf = none := by
  cases received with
  | data chain =>
    rw [netconnRecv] at h ⊢
    split_ifs at h ⊢
    · exact absurd rfl h
    · rfl
  | error err ne => rfl

theorem keeps_copyReceived {conns : Set ℕ}
    (h : Keeps conns (heldBy (s.recvbuf.map Netbuf.number)) s.calls) :
    Keeps conns ∅ s.copyReceived.netbufDelete.calls := by
  obtain ⟨control, conn, recvbuf, gather, calls⟩ := s
  cases recvbuf with
  | none => exact h.readChain.netbufDelete
  | some buf => exact h.readChain.netbufDelete

theorem tcpClientconn_copyReceived : s.copyReceived.tcpClientconn = s.tcpClientconn := by
  rw [copyReceived]
  cases s.recvbuf <;> rfl

theorem balanced_recv (received : Received) (h : Keeps (heldBy s.tcpClientconn) ∅ s.calls) :
    (s.recv received).Balanced := by
  have hrecv := keeps_netconnRecv received h
  rw [recv]
  dsimp only
  -- data, or a closed connection, or another error
  split_ifs with hok hclosed
  · apply balanced_testClosed
    have hcopied := keeps_copyReceived hrecv
    rw [← tcpClientconn_copyReceived] at hcopied
    exact hcopied
  · rw [recvbuf_of_error hok, Option.map_none, heldBy_none] at hrecv
    exact balanced_closeAndDelete hrecv
  · rw [recvbuf_of_error hok, Option.map_none, heldBy_none] at hrecv
    exact balanced_testClosed _ hrecv

theorem Balanced.step (h : s.Balanced) {e : NetResult} (hstep : s.step e = some t) :
    t.Balanced := by
  obtain ⟨created, -, hcontrol, rfl⟩ | ⟨err, -, hcontrol, rfl⟩ | ⟨err, -, hcontrol, rfl⟩ |
    ⟨received, -, hcontrol, rfl⟩ := step_cases hstep
  · rw [Balanced, if_pos hcontrol] at h
    refine balanced_of_ne (by simp) (h.netconnNew fun n hn => ?_)
    cases created with
    | false => exact absurd hn (Option.not_mem_none n)
    | true => exact (Option.some.inj hn).symm
  · exact balanced_connect err (h.keeps (by simp [hcontrol]))
  · exact balanced_write err (h.keeps (by simp [hcontrol]))
  · exact balanced_recv received (h.keeps (by simp [hcontrol]))

end TcpClient

/-- **The client cleans up.** In every run every call is tidy, whatever the calls return. -/
theorem tidy_of_reachable {s : TcpClient} (h : tcpClient.Reachable s) : AtEach Tidy s.calls := by
  have hinit : TcpClient.init.Balanced := TcpClient.balanced_of_new rfl .nil
  exact (h.invariant hinit fun _ _ _ hs hstep => hs.step hstep).tidy

/-- A write fails, a connection cannot be had, the peer closes the next one. -/
def reconnects : List NetResult :=
  [.new true, .connect 0, .write (-1), .new false, .connect 0, .new true, .connect 0, .write 0,
    .recv (.data []), .write 0, .recv (.error (-12) (by decide))]

theorem tidy_of_reconnects :
    AtEach Tidy
      [.netconnNew (some 0), .netconnConnect (some 0), .setRecvTimeout (some 0),
        .netconnGetaddr (some 0), .netconnWrite (some 0), .netconnClose (some 0),
        .netconnDelete (some 0), .netconnNew none, .netconnConnect none, .netconnDelete none,
        .netconnNew (some 10), .netconnConnect (some 10), .setRecvTimeout (some 10),
        .netconnGetaddr (some 10), .netconnWrite (some 10), .netconnRecv (some 10) (some 15),
        .readChain (some 15), .netbufDelete (some 15), .netconnWrite (some 10),
        .netconnRecv (some 10) none, .netconnClose (some 10), .netconnDelete (some 10)] :=
  tidy_of_reachable ⟨reconnects, Machine.exec_of_run rfl⟩

/-! ## What is received -/

namespace TcpClient

variable {s t : TcpClient}

/-- The client writes to a connection and receives from one, never through a null pointer. -/
def Connected (s : TcpClient) : Prop :=
  s.control = .write ∨ s.control = .recv → s.tcpClientconn.isSome

theorem isSome_of_checked {conn : Option ℕ} {err : ℤ} (h : checked conn err = errOk) :
    conn.isSome := by
  rw [checked] at h
  split_ifs at h with hsome
  · exact hsome
  · exact absurd h (by decide)

theorem tcpClientconn_netconnRecv (received : Received) :
    (s.netconnRecv received).2.tcpClientconn = s.tcpClientconn := by
  cases received with
  | data chain =>
    rw [netconnRecv]
    split_ifs <;> rfl
  | error err ne => rfl

theorem gather_netconnRecv (received : Received) :
    (s.netconnRecv received).2.gather = s.gather := by
  cases received with
  | data chain =>
    rw [netconnRecv]
    split_ifs <;> rfl
  | error err ne => rfl

theorem tcpClientconn_testClosed (recvErr : ℤ) :
    (s.testClosed recvErr).tcpClientconn = s.tcpClientconn := by
  rw [testClosed]
  split_ifs <;> rfl

theorem gather_testClosed (recvErr : ℤ) : (s.testClosed recvErr).gather = s.gather := by
  rw [testClosed]
  split_ifs <;> rfl

theorem tcpClientconn_recv (received : Received) :
    (s.recv received).tcpClientconn = s.tcpClientconn := by
  rw [recv]
  dsimp only
  split_ifs
  · rw [tcpClientconn_testClosed]
    exact tcpClientconn_copyReceived.trans (tcpClientconn_netconnRecv received)
  · exact tcpClientconn_netconnRecv received
  · rw [tcpClientconn_testClosed, tcpClientconn_netconnRecv]

theorem Connected.step (h : s.Connected) {e : NetResult} (hstep : s.step e = some t) :
    t.Connected := by
  obtain ⟨created, -, hcontrol, rfl⟩ | ⟨err, -, hcontrol, rfl⟩ | ⟨err, -, hcontrol, rfl⟩ |
    ⟨received, -, hcontrol, rfl⟩ := step_cases hstep
  · exact fun hnext => absurd hnext (by simp)
  · rw [connect]
    dsimp only
    split_ifs with herr hok
    · exact fun hnext => absurd hnext (by simp)
    · exact fun _ => isSome_of_checked hok
    · exact absurd (not_not.mp herr) hok
  · rw [write]
    dsimp only
    split_ifs with herr
    · exact fun hnext => absurd hnext (by simp)
    · exact fun _ => h (.inl hcontrol)
  · intro _
    rw [tcpClientconn_recv]
    exact h (.inr hcontrol)

/-- Data that are received are gathered. -/
theorem gather_recv_data (h : s.tcpClientconn.isSome) (chain : List Segment) :
    (s.recv (.data chain)).gather = s.gather.gather chain := by
  rw [recv, netconnRecv]
  dsimp only
  rw [if_pos h, if_pos rfl, gather_testClosed]
  rfl

theorem gather_copyReceived :
    s.copyReceived.gather = s.gather ∨ ∃ chain, s.copyReceived.gather = s.gather.gather chain := by
  rw [copyReceived]
  cases s.recvbuf with
  | none => exact .inl rfl
  | some buf => exact .inr ⟨buf.chain, rfl⟩

theorem gather_step {e : NetResult} (hstep : s.step e = some t) :
    t.gather = s.gather ∨ ∃ chain, t.gather = s.gather.gather chain := by
  obtain ⟨created, -, -, rfl⟩ | ⟨err, -, -, rfl⟩ | ⟨err, -, -, rfl⟩ |
    ⟨received, -, -, rfl⟩ := step_cases hstep
  · exact .inl rfl
  · rw [connect]
    dsimp only
    split_ifs <;> exact .inl rfl
  · rw [write]
    dsimp only
    split_ifs <;> exact .inl rfl
  · rw [recv]
    dsimp only
    split_ifs
    · have hcopied := gather_copyReceived (s := (s.netconnRecv received).2)
      rw [gather_netconnRecv] at hcopied
      rw [gather_testClosed]
      exact hcopied
    · exact .inl (gather_netconnRecv received)
    · rw [gather_testClosed]
      exact .inl (gather_netconnRecv received)

end TcpClient

theorem connected_of_reachable {s : TcpClient} (h : tcpClient.Reachable s) : s.Connected :=
  h.invariant (fun hnext => absurd hnext (by simp [tcpClient, TcpClient.init]))
    fun _ _ _ hs hstep => hs.step hstep

/-- The client receives. -/
theorem tcpClient_receives :
    Receives tcpClient TcpClient.gather fun chain => .recv (.data chain) := by
  refine receives_of_step (by decide) rfl (fun s chain t h hstep => ?_) fun s e t hstep => ?_
  · simp only [tcpClient, TcpClient.step, Option.ite_none_right_eq_some, Option.some.injEq] at hstep
    obtain ⟨hcontrol, rfl⟩ := hstep
    exact TcpClient.gather_recv_data (connected_of_reachable h (.inr hcontrol)) chain
  · exact TcpClient.gather_step hstep

end FanGateway.Net
