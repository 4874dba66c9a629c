import FanGateway.Lib.Machine
import Mathlib.Data.Int.Notation

/-!
# Transmissions paced by a mailbox

One task posts to a mailbox twice a second, and the client transmits a packet for every
message it takes out. The mailbox is created by the first of these tasks, which itself is
created late. A client that is connected earlier finds no mailbox; it does not look at the
error it gets and transmits.
-/

namespace FanGateway.Net

open Lib

/-! ## Mailboxes of the kernel -/

/-- An event block that is a mailbox: the message, or the null pointer, and whether a task waits
for one. -/
structure OsMbox where
  osEventPtr : ℕ
  waiting : Bool
  deriving DecidableEq

/-- What a pend does to the task that calls it. -/
inductive Pend
  | returned (perr : ℕ)
  | waits

/-- `OSMboxPend` without a timeout. -/
def osMboxPend : Option OsMbox → Pend × Option OsMbox
  -- OS_ERR_PEVENT_NULL
  | none => (.returned 4, none)
  | some pevent =>
    if pevent.osEventPtr ≠ 0 then (.returned 0, some { pevent with osEventPtr := 0 })
    else (.waits, some { pevent with waiting := true })

/-- `OSMboxPost`: 0 for success, 4 for a null pointer, 20 for a full mailbox. A waiting task gets
the message without it being put into the mailbox. -/
def osMboxPost (pmsg : ℕ) : Option OsMbox → ℕ × Option OsMbox
  | none => (4, none)
  | some pevent =>
    if pevent.waiting then (0, some { pevent with waiting := false })
    else if pevent.osEventPtr ≠ 0 then (20, some pevent)
    else (0, some { pevent with osEventPtr := pmsg })

/-- The messages in a mailbox. -/
def held (mybox : Option OsMbox) : ℕ := if mybox.any (·.osEventPtr ≠ 0) then 1 else 0

/-- A post puts a message into the mailbox or lets a waiting task go on, but not both. -/
theorem held_osMboxPost (pmsg : ℕ) (mybox : Option OsMbox) :
    held (osMboxPost pmsg mybox).2 + (if mybox.any OsMbox.waiting then 1 else 0) ≤
      held mybox + 1 := by
  cases mybox with
  | none => simp [held, osMboxPost]
  | some pevent =>
    simp only [held, osMboxPost, Option.any_some]
    split_ifs <;> simp_all

/-- A pend that returns from a mailbox takes a message out. -/
theorem held_osMboxPend_returned {mybox mybox' : Option OsMbox} {perr : ℕ}
    (hbox : mybox.isSome) (h : osMboxPend mybox = (.returned perr, mybox')) :
    held mybox' + 1 ≤ held mybox := by
  obtain ⟨pevent, rfl⟩ := Option.isSome_iff_exists.mp hbox
  simp only [osMboxPend] at h
  split_ifs at h with hmessage
  · cases h
    simp [held, hmessage]
  · cases h

theorem held_osMboxPend_waits {mybox mybox' : Option OsMbox}
    (h : osMboxPend mybox = (.waits, mybox')) : held mybox' = held mybox := by
  cases mybox with
  | none => cases h
  | some pevent =>
    simp only [osMboxPend] at h
    split_ifs at h
    · cases h
    · cases h
      rfl

/-! ## The tasks -/

/-- Where `start_task` is. -/
inductive StartTask
  | iwdgInit
  /-- `OSStatInit` waits for the clock tick, and then while the idle rate is measured. -/
  | statSync
  | statMeasure
  | createTasks
  | suspended
  deriving DecidableEq

/-- Where `led_task` is. -/
inductive LedTask
  | notCreated
  | mboxCreate
  | mboxPost
  | delay
  deriving DecidableEq

/-- Where `tcp_client_thread` is. -/
inductive ClientTask
  | connect
  | pend
  /-- In the pend, without a message. -/
  | waiting
  | write
  | recv
  deriving DecidableEq

/-- The three tasks with the mailbox they share. -/
structure Tasks where
  start : StartTask
  led : LedTask
  client : ClientTask
  mybox : Option OsMbox
  /-- The calls of `OSMboxPost` so far. -/
  posts : ℕ
  /-- The calls of `netconn_write` so far. -/
  writes : ℕ
  deriving DecidableEq

inductive TaskEvent
  | start
  /-- `created` is whether there is an event block left. -/
  | led (created : Bool)
  /-- `err` is what the call of the network stack returns, if there is one. -/
  | client (err : ℤ)

namespace Tasks

def startTask (s : Tasks) : Option Tasks :=
  match s.start with
  | .iwdgInit => some { s with start := .statSync }
  | .statSync => some { s with start := .statMeasure }
  | .statMeasure => some { s with start := .createTasks }
  -- the other tasks it creates do not use the mailbox
  | .createTasks => some { s with start := .suspended, led := .mboxCreate }
  | .suspended => none

def ledTask (created : Bool) (s : Tasks) : Option Tasks :=
  match s.led with
  | .notCreated => none
  | .mboxCreate =>
    some { s with led := .mboxPost, mybox := if created then some ⟨0, false⟩ else none }
  | .mboxPost =>
    -- a client that waits goes on behind the pend
    some { s with
      led := .delay
      client := if s.mybox.any OsMbox.waiting then .write else s.client
      mybox := (osMboxPost 1 s.mybox).2
      posts := s.posts + 1 }
  | .delay => some { s with led := .mboxPost }

def tcpClientThread (err : ℤ) (s : Tasks) : Option Tasks :=
  match s.client with
  | .connect => some { s with client := if err ≠ 0 then .connect else .pend }
  | .pend =>
    -- the error of the pend is not looked at
    match osMboxPend s.mybox with
    | (.returned _, mybox) => some { s with client := .write, mybox }
    | (.waits, mybox) => some { s with client := .waiting, mybox }
  | .waiting => none
  | .write =>
    some { s with client := if err ≠ 0 then .connect else .recv, writes := s.writes + 1 }
  -- ERR_CLSD; after any other error the client goes on
  | .recv => some { s with client := if err = -12 then .connect else .pend }

end Tasks

/-- The tasks from `OSStart` on; the scheduler may pick any of them at any time. -/
def tasks : Machine Tasks TaskEvent where
  init := ⟨.iwdgInit, .notCreated, .connect, none, 0, 0⟩
  step s
    | .start => s.startTask
    | .led created => s.ledTask created
    | .client err => s.tcpClientThread err

/-! ## Posts are the credit of the client -/

namespace Tasks

/-- The writes the client may still make without another post. -/
def credit (s : Tasks) : ℕ := (if s.client = .write then 1 else 0) + held s.mybox

theorem credit_of_write {s : Tasks} (h : s.client = .write) : s.credit = 1 + held s.mybox := by
  rw [credit, if_pos h]

theorem credit_of_ne {s : Tasks} (h : s.client ≠ .write) : s.credit = held s.mybox := by
  rw [credit, if_neg h, Nat.zero_add]

/-- Every write, made or to be made, has been paid for by a post. -/
def Paid (s : Tasks) : Prop := s.writes + s.credit ≤ s.posts

/-- The client does not pend without a mailbox. -/
def HasBox (s : Tasks) : TaskEvent → Prop
  | .client _ => s.client = .pend → s.mybox.isSome
  | _ => True

instance (s : Tasks) : ∀ e, Decidable (s.HasBox e)
  | .client _ => inferInstanceAs (Decidable (_ → _))
  | .start | .led _ => inferInstanceAs (Decidable True)

end Tasks

section Steps

variable {s t : Tasks} {e : TaskEvent} {created : Bool} {err : ℤ}

theorem Tasks.Paid.startTask (h : s.Paid) (hstep : s.startTask = some t) : t.Paid := by
  cases hstart : s.start <;> simp only [Tasks.startTask, hstart] at hstep <;> cases hstep <;>
    exact h

/-- Creating the mailbox and posting to it costs nothing, and a post pays for one write. -/
theorem Tasks.Paid.ledTask (h : s.Paid) (hstep : s.ledTask created = some t) : t.Paid := by
  simp only [Tasks.Paid, Tasks.credit] at h ⊢
  cases hled : s.led <;> simp only [Tasks.ledTask, hled] at hstep <;> cases hstep
  case mboxCreate =>
    have hnew : held (if created then some ⟨0, false⟩ else none) = 0 := by
      cases created <;> rfl
    simp only [hnew]
    omega
  case mboxPost =>
    have hpost := held_osMboxPost 1 s.mybox
    simp only
    split_ifs at hpost h ⊢ <;> omega
  case delay => exact h

/-- A write uses up what the pend before it took out of the mailbox. -/
theorem Tasks.Paid.tcpClientThread (h : s.Paid) (hbox : s.client = .pend → s.mybox.isSome)
    (hstep : s.tcpClientThread err = some t) : t.Paid := by
  rw [Tasks.Paid] at h ⊢
  cases hclient : s.client <;> simp only [Tasks.tcpClientThread, hclient] at hstep
  case connect | recv =>
    rw [Tasks.credit_of_ne (by simp [hclient])] at h
    cases hstep
    rw [Tasks.credit_of_ne (by dsimp only; split_ifs <;> decide)]
    exact h
  case pend =>
    rw [Tasks.credit_of_ne (by simp [hclient])] at h
    split at hstep
    case h_1 perr mybox hpend =>
      have htaken := held_osMboxPend_returned (hbox hclient) hpend
      cases hstep
      rw [Tasks.credit_of_write rfl, Nat.add_comm 1]
      exact Nat.le_trans (Nat.add_le_add_left htaken _) h
    case h_2 mybox hpend =>
      have hkept := held_osMboxPend_waits hpend
      cases hstep
      rw [Tasks.credit_of_ne (by simp), hkept]
      exact h
  case waiting => cases hstep
  case write =>
    rw [Tasks.credit_of_write hclient, ← Nat.add_assoc] at h
    cases hstep
    rw [Tasks.credit_of_ne (by dsimp only; split_ifs <;> decide)]
    exact h

theorem Tasks.Paid.step (h : s.Paid) (hbox : s.HasBox e) (hstep : tasks.step s e = some t) :
    t.Paid := by
  cases e with
  | start => exact h.startTask hstep
  | led created => exact h.ledTask hstep
  | client err => exact h.tcpClientThread hbox hstep

end Steps

/-! ## Whole runs -/

section Runs

variable {s : Tasks} {events : List TaskEvent}

/-- **Pacing.** From `OSStart` on, in whatever order the tasks run and whatever the network
returns, there are never more writes than posts as long as the client does not pend without a
mailbox. -/
theorem writes_le_posts (h : tasks.Exec Tasks.HasBox tasks.init events s) :
    s.writes ≤ s.posts := by
  have hpaid : s.Paid :=
    h.invariant (Nat.zero_le _) fun _ _ _ hpaid hbox hstep => hpaid.step hbox hstep
  exact Nat.le_trans (Nat.le_add_right _ _) hpaid

/-- One packet of a client that finds no mailbox; the server is silent. -/
def unpacedPacket : List TaskEvent := [.client 0, .client 0, .client (-3)]

/-- A client that pends without a mailbox may transmit any number of packets before anything is
posted. -/
theorem unpaced (hclient : s.client = .pend) (hnone : s.mybox = none) (n : ℕ) :
    ∃ events t, tasks.run s events = some t ∧ t.posts = s.posts ∧ t.writes = s.writes + n := by
  -- induction on the packets; behind each the client is where it was
  induction n generalizing s with
  | zero => exact ⟨[], s, rfl, rfl, rfl⟩
  | succ n ih =>
    have hround : tasks.run s unpacedPacket = some { s with writes := s.writes + 1 } := by
      obtain ⟨start, led, client, mybox, posts, writes⟩ := s
      cases hclient
      cases hnone
      rfl
    obtain ⟨events, t, hrun, hposts, hwrites⟩ :=
      ih (s := { s with writes := s.writes + 1 }) hclient hnone
    refine ⟨unpacedPacket ++ events, t, ?_, hposts, ?_⟩
    · rw [Machine.run_append, hround]
      exact hrun
    · rw [hwrites, Nat.add_assoc, Nat.add_comm 1]

end Runs

/-- The mailbox is there before the client connects, and the second packet waits for a second
post. -/
def lateClient : List TaskEvent :=
  [.start, .start, .start, .start, .led true, .led true, .client 0, .client 0, .client 0,
    .client (-3), .client 0, .led true, .led true, .client 0]

theorem writes_le_posts_of_late_client :
    ∃ s, tasks.Exec Tasks.HasBox tasks.init lateClient s ∧ s.writes = 2 ∧ s.writes ≤ s.posts := by
  have hrun : tasks.Exec Tasks.HasBox tasks.init lateClient
      ⟨.suspended, .delay, .recv, some ⟨0, false⟩, 2, 2⟩ := Machine.exec_of_run_restrict rfl
  exact ⟨_, hrun, rfl, writes_le_posts hrun⟩

/-- A client that is connected before the mailbox is created transmits without a post. -/
theorem early_client_not_paced :
    ∃ s, tasks.run tasks.init [.client 0, .client 0, .client 0] = some s ∧
      ¬s.writes ≤ s.posts :=
  ⟨⟨.iwdgInit, .notCreated, .recv, none, 0, 1⟩, rfl, by decide⟩

end FanGateway.Net
