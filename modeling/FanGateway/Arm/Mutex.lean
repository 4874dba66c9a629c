import FanGateway.Lib.Machine
import FanGateway.Lib.Mutex

/-!
# The data mutex of the ARM program

The reader, the processor and the TCP thread share the data under one mutex. The
main thread initialises it before it starts anything, and the Modbus thread
initialises it once more, after the serial port is open and before it starts the
reader and the processor. By then the TCP thread may be sending under the mutex, and
the second initialisation frees it. Where it does not come in the middle of a send,
the mutex does its work.
-/

namespace FanGateway.Arm.Mutex

open Lib

/-! ## The threads -/

/-- The threads that touch the mutex. -/
inductive Thread
  | main
  | modbus
  | reader
  | processor
  | tcp
  deriving DecidableEq, Repr

/-- The next step of `main`. -/
inductive Main
  | init
  | createModbus
  | createTcp
  | done
  deriving DecidableEq, Repr

/-- The next step of `modbus_rtu_thread`. -/
inductive ModbusRtu
  | absent
  | openDev
  | init
  | createReader
  | createProcessor
  | done
  deriving DecidableEq, Repr

/-- The next step of `com_read`. -/
inductive Reader
  | absent
  | select
  | lockFirst
  | readFirst
  | compare
  | lockSecond
  | readSecond
  | assign
  deriving DecidableEq, Repr

/-- The next step of `proc_data`. -/
inductive Processor
  | absent
  | test
  | lock
  | clear
  | copy
  | unlock
  deriving DecidableEq, Repr

/-- The next step of `tcp_client_thread`. -/
inductive Tcp
  | absent
  | connect
  | lock
  | send
  | unlock (sent : Bool)
  deriving DecidableEq, Repr

structure State where
  mutLocked : Bool
  modbusDataChange : Bool
  main : Main
  modbus : ModbusRtu
  reader : Reader
  processor : Processor
  tcp : Tcp
  deriving DecidableEq, Repr

/-- One step of a thread. The outcome says whether `select` reports data, whether a
message is still short after the first read, whether it is long enough to be flagged,
whether a connection is made and whether a packet is sent. -/
inductive Event
  | main
  | modbus
  | reader (outcome : Bool)
  | processor
  | tcp (outcome : Bool)
  deriving DecidableEq, Repr

/-- The steps of the threads. A lock waits for the mutex to be free; the read of the
reader gives the mutex back. -/
def step (s : State) : Event → Option State
  | .main =>
    match s.main with
    | .init => some { s with mutLocked := false, main := .createModbus }
    | .createModbus => some { s with modbus := .openDev, main := .createTcp }
    | .createTcp => some { s with tcp := .connect, main := .done }
    | .done => none
  | .modbus =>
    match s.modbus with
    | .absent => none
    | .openDev => some { s with modbus := .init }
    -- `pthread_mutex_init` once more, whoever holds the mutex
    | .init => some { s with mutLocked := false, modbus := .createReader }
    | .createReader => some { s with reader := .select, modbus := .createProcessor }
    | .createProcessor => some { s with processor := .test, modbus := .done }
    | .done => none
  | .reader outcome =>
    match s.reader with
    | .absent => none
    | .select => some { s with reader := if outcome then .lockFirst else .select }
    | .lockFirst =>
      if s.mutLocked then none else some { s with mutLocked := true, reader := .readFirst }
    -- the read and the unlock behind it
    | .readFirst => some { s with mutLocked := false, reader := .compare }
    | .compare => some { s with reader := if outcome then .lockSecond else .assign }
    | .lockSecond =>
      if s.mutLocked then none else some { s with mutLocked := true, reader := .readSecond }
    | .readSecond => some { s with mutLocked := false, reader := .assign }
    | .assign =>
      some { s with modbusDataChange := outcome || s.modbusDataChange, reader := .select }
  | .processor =>
    match s.processor with
    | .absent => none
    | .test => some { s with processor := if s.modbusDataChange then .lock else .test }
    | .lock => if s.mutLocked then none else some { s with mutLocked := true, processor := .clear }
    | .clear => some { s with modbusDataChange := false, processor := .copy }
    | .copy => some { s with processor := .unlock }
    | .unlock => some { s with mutLocked := false, processor := .test }
  | .tcp outcome =>
    match s.tcp with
    | .absent => none
    | .connect => some { s with tcp := if outcome then .lock else .connect }
    | .lock => if s.mutLocked then none else some { s with mutLocked := true, tcp := .send }
    | .send => some { s with tcp := .unlock outcome }
    | .unlock sent => some { s with mutLocked := false, tcp := if sent then .lock else .connect }

/-- The program from the start of `main` on. -/
def machine : Machine State Event where
  init := ⟨false, false, .init, .absent, .absent, .absent, .absent⟩
  step := step

/-- The thread is between a lock of the mutex and the matching unlock. -/
def Inside (s : State) : Thread → Prop
  | .main | .modbus => False
  | .reader => s.reader = .readFirst ∨ s.reader = .readSecond
  | .processor => s.processor = .clear ∨ s.processor = .copy ∨ s.processor = .unlock
  | .tcp => s.tcp = .send ∨ s.tcp = .unlock true ∨ s.tcp = .unlock false

instance (s : State) (t : Thread) : Decidable (Inside s t) := by
  cases t <;> unfold Inside <;> infer_instance

/-- No two threads are inside at once. -/
def Exclusive (s : State) : Prop := ∀ t u, Inside s t → Inside s u → t = u

/-- The condition on a step: when the Modbus thread initialises the mutex, the TCP thread does
not hold it. -/
def QuietInit (s : State) (e : Event) : Prop :=
  e = .modbus → s.modbus = .init → ¬ Inside s .tcp

instance (s : State) (e : Event) : Decidable (QuietInit s e) :=
  inferInstanceAs (Decidable (_ → _ → _))

/-! ## The invariant -/

/-- Threads that have not been created do not run. -/
structure Created (s : State) : Prop where
  modbus : s.main = .init ∨ s.main = .createModbus → s.modbus = .absent
  tcp : s.main ≠ .done → s.tcp = .absent
  reader : s.modbus ≠ .createProcessor → s.modbus ≠ .done → s.reader = .absent
  processor : s.modbus ≠ .done → s.processor = .absent

/-- The mutex and the threads inside it. -/
def mutexOf (s : State) : Lib.Mutex Thread := ⟨s.mutLocked, {t | Inside s t}⟩

structure Inv (s : State) : Prop where
  created : Created s
  sound : (mutexOf s).Sound

theorem Inv.exclusive {s : State} (h : Inv s) : Exclusive s := fun _ _ ht hu =>
  h.sound.exclusive ht hu

theorem inv_init : Inv machine.init where
  created := ⟨fun _ => rfl, fun _ => rfl, fun _ _ => rfl, fun _ => rfl⟩
  sound := by
    have hempty : (mutexOf machine.init).inside = ∅ := by
      ext t
      cases t <;> simp [mutexOf, Inside, machine]
    exact Lib.Mutex.sound_init hempty

section Steps

variable {s t : State} {e : Event}

/-- A thread that takes a step has been created, and creates no other. -/
theorem of_step_reader {outcome : Bool} (hstep : step s (.reader outcome) = some t) :
    s.reader ≠ .absent ∧ t.main = s.main ∧ t.modbus = s.modbus ∧ t.processor = s.processor ∧
      t.tcp = s.tcp := by
  simp only [Mutex.step] at hstep
  split at hstep
  · exact absurd hstep (by simp)
  all_goals
    next hreader =>
      try split_ifs at hstep
      all_goals
        obtain rfl := Option.some.inj hstep
        exact ⟨by simp [hreader], rfl, rfl, rfl, rfl⟩

theorem of_step_processor (hstep : step s .processor = some t) :
    s.processor ≠ .absent ∧ t.main = s.main ∧ t.modbus = s.modbus ∧ t.reader = s.reader ∧
      t.tcp = s.tcp := by
  simp only [Mutex.step] at hstep
  split at hstep
  · exact absurd hstep (by simp)
  all_goals
    next hprocessor =>
      try split_ifs at hstep
      all_goals
        obtain rfl := Option.some.inj hstep
        exact ⟨by simp [hprocessor], rfl, rfl, rfl, rfl⟩

theorem of_step_tcp {outcome : Bool} (hstep : step s (.tcp outcome) = some t) :
    s.tcp ≠ .absent ∧ t.main = s.main ∧ t.modbus = s.modbus ∧ t.reader = s.reader ∧
      t.processor = s.processor := by
  simp only [Mutex.step] at hstep
  split at hstep
  · exact absurd hstep (by simp)
  all_goals
    next htcp =>
      try split_ifs at hstep
      all_goals
        obtain rfl := Option.some.inj hstep
        exact ⟨by simp [htcp], rfl, rfl, rfl, rfl⟩

/-- A step that creates no thread, after which those that do not run still do not. -/
theorem Created.of_running (h : Created s) (hmain : t.main = s.main)
    (hmodbus : t.modbus = s.modbus) (htcp : s.tcp = .absent → t.tcp = .absent)
    (hreader : s.reader = .absent → t.reader = .absent)
    (hprocessor : s.processor = .absent → t.processor = .absent) : Created t where
  modbus := by
    rw [hmain, hmodbus]
    exact h.modbus
  tcp := by
    rw [hmain]
    exact fun hdone => htcp (h.tcp hdone)
  reader := by
    rw [hmodbus]
    exact fun hcreate hdone => hreader (h.reader hcreate hdone)
  processor := by
    rw [hmodbus]
    exact fun hdone => hprocessor (h.processor hdone)

theorem Created.main (h : Created s) (hstep : step s .main = some t) : Created t := by
  obtain ⟨hmodbus, htcp, hreader, hprocessor⟩ := h
  simp only [Mutex.step] at hstep
  split at hstep <;> cases hstep
  · next hmain =>
    exact ⟨fun _ => hmodbus (.inl hmain), fun _ => htcp (by simp [hmain]), hreader, hprocessor⟩
  · next hmain =>
    have habsent := hmodbus (.inr hmain)
    exact ⟨by simp, fun _ => htcp (by simp [hmain]), fun _ _ => hreader (by simp [habsent])
      (by simp [habsent]), fun _ => hprocessor (by simp [habsent])⟩
  · exact ⟨by simp, fun hdone => absurd rfl hdone, hreader, hprocessor⟩

theorem Created.modbusRtu (h : Created s) (hstep : step s .modbus = some t) : Created t := by
  obtain ⟨hmodbus, htcp, hreader, hprocessor⟩ := h
  -- the Modbus thread runs only after `main` has created it
  have hmain : s.modbus ≠ .absent → ¬(s.main = .init ∨ s.main = .createModbus) :=
    fun hpresent hearly => hpresent (hmodbus hearly)
  simp only [Mutex.step] at hstep
  split at hstep <;> cases hstep
  · next hopen =>
    exact ⟨fun hearly => absurd hearly (hmain (by simp [hopen])), htcp,
      fun _ _ => hreader (by simp [hopen]) (by simp [hopen]),
      fun _ => hprocessor (by simp [hopen])⟩
  · next hinit =>
    exact ⟨fun hearly => absurd hearly (hmain (by simp [hinit])), htcp,
      fun _ _ => hreader (by simp [hinit]) (by simp [hinit]),
      fun _ => hprocessor (by simp [hinit])⟩
  · next hcreate =>
    exact ⟨fun hearly => absurd hearly (hmain (by simp [hcreate])), htcp,
      fun hnot => absurd rfl hnot, fun _ => hprocessor (by simp [hcreate])⟩
  · next hcreate =>
    exact ⟨fun hearly => absurd hearly (hmain (by simp [hcreate])), htcp,
      fun _ hnot => absurd rfl hnot, fun hnot => absurd rfl hnot⟩

theorem Created.step (h : Created s) (hstep : step s e = some t) : Created t := by
  cases e with
  | main => exact h.main hstep
  | modbus => exact h.modbusRtu hstep
  | reader outcome =>
    obtain ⟨hpresent, hmain, hmodbus, hprocessor, htcp⟩ := of_step_reader hstep
    exact h.of_running hmain hmodbus htcp.trans (fun habsent => absurd habsent hpresent)
      hprocessor.trans
  | processor =>
    obtain ⟨hpresent, hmain, hmodbus, hreader, htcp⟩ := of_step_processor hstep
    exact h.of_running hmain hmodbus htcp.trans hreader.trans
      fun habsent => absurd habsent hpresent
  | tcp outcome =>
    obtain ⟨hpresent, hmain, hmodbus, hreader, hprocessor⟩ := of_step_tcp hstep
    exact h.of_running hmain hmodbus (fun habsent => absurd habsent hpresent) hreader.trans
      hprocessor.trans

/-- A step that leaves the mutex alone and moves no thread in or out. -/
theorem sound_of_same (h : (mutexOf s).Sound) (hmut : t.mutLocked = s.mutLocked)
    (hinside : ∀ u, Inside t u ↔ Inside s u) : (mutexOf t).Sound := by
  have hsame : mutexOf t = mutexOf s := by
    have hset : {u | Inside t u} = {u | Inside s u} := Set.ext hinside
    rw [mutexOf, mutexOf, hmut, hset]
  rwa [hsame]

/-- A thread that finds the mutex free and takes it. -/
theorem sound_of_lock (h : (mutexOf s).Sound) (hfree : s.mutLocked = false)
    (hmut : t.mutLocked = true) (u : Thread) (hinside : ∀ v, Inside t v ↔ v = u ∨ Inside s v) :
    (mutexOf t).Sound := by
  have hset : {v | Inside t v} = insert u {v | Inside s v} := Set.ext hinside
  rw [mutexOf, hmut, hset]
  exact h.lock hfree u

/-- A thread that is inside and gives the mutex back. -/
theorem sound_of_unlock (h : (mutexOf s).Sound) (hmut : t.mutLocked = false) (u : Thread)
    (hu : Inside s u) (hinside : ∀ v, Inside t v ↔ Inside s v ∧ v ≠ u) : (mutexOf t).Sound := by
  have hset : {v | Inside t v} = {v | Inside s v} \ {u} := Set.ext hinside
  rw [mutexOf, hmut, hset]
  exact Lib.Mutex.Sound.unlock h hu

/-- The mutex is initialised while nobody is inside. -/
theorem sound_of_init (hmut : t.mutLocked = false) (hinside : ∀ u, ¬ Inside t u) :
    (mutexOf t).Sound := by
  have hempty : {u | Inside t u} = ∅ := Set.eq_empty_of_forall_notMem hinside
  rw [mutexOf, hmut]
  exact Lib.Mutex.sound_init (m := ⟨false, {u | Inside t u}⟩) hempty

theorem Inv.main (h : Inv s) (hstep : step s .main = some t) : (mutexOf t).Sound := by
  simp only [Mutex.step] at hstep
  split at hstep
  · next hmain =>
    obtain rfl := Option.some.inj hstep
    -- the first initialisation: no other thread exists yet
    have hmodbus := h.created.modbus (.inl hmain)
    have htcp := h.created.tcp (by simp [hmain])
    have hreader := h.created.reader (by simp [hmodbus]) (by simp [hmodbus])
    have hprocessor := h.created.processor (by simp [hmodbus])
    apply sound_of_init rfl
    intro u
    cases u <;> simp [Inside, htcp, hreader, hprocessor]
  · obtain rfl := Option.some.inj hstep
    exact sound_of_same h.sound rfl fun u => by cases u <;> simp [Inside]
  · next hmain =>
    obtain rfl := Option.some.inj hstep
    have htcp := h.created.tcp (by simp [hmain])
    exact sound_of_same h.sound rfl fun u => by cases u <;> simp [Inside, htcp]
  · exact absurd hstep (by simp)

theorem Inv.modbus (h : Inv s) (hok : QuietInit s .modbus) (hstep : step s .modbus = some t) :
    (mutexOf t).Sound := by
  simp only [Mutex.step] at hstep
  split at hstep
  · exact absurd hstep (by simp)
  · obtain rfl := Option.some.inj hstep
    exact sound_of_same h.sound rfl fun u => by cases u <;> simp [Inside]
  · next hmodbus =>
    -- the second initialisation: the reader and the processor do not exist yet
    obtain rfl := Option.some.inj hstep
    have htcp := hok rfl hmodbus
    have hreader := h.created.reader (by simp [hmodbus]) (by simp [hmodbus])
    have hprocessor := h.created.processor (by simp [hmodbus])
    apply sound_of_init rfl
    intro u
    cases u with
    | tcp => exact htcp
    | _ => simp [Inside, hreader, hprocessor]
  · next hmodbus =>
    obtain rfl := Option.some.inj hstep
    have hreader := h.created.reader (by simp [hmodbus]) (by simp [hmodbus])
    exact sound_of_same h.sound rfl fun u => by cases u <;> simp [Inside, hreader]
  · next hmodbus =>
    obtain rfl := Option.some.inj hstep
    have hprocessor := h.created.processor (by simp [hmodbus])
    exact sound_of_same h.sound rfl fun u => by cases u <;> simp [Inside, hprocessor]
  · exact absurd hstep (by simp)

theorem Inv.reader (h : Inv s) {outcome : Bool} (hstep : step s (.reader outcome) = some t) :
    (mutexOf t).Sound := by
  simp only [Mutex.step] at hstep
  split at hstep
  · exact absurd hstep (by simp)
  · next hreader =>
    obtain rfl := Option.some.inj hstep
    refine sound_of_same h.sound rfl fun u => ?_
    cases outcome <;> cases u <;> simp [Inside, hreader]
  · next hreader =>
    split_ifs at hstep with hmut
    obtain rfl := Option.some.inj hstep
    apply sound_of_lock h.sound (by simpa using hmut) rfl .reader
    intro u
    cases u <;> simp [Inside, hreader]
  · next hreader =>
    obtain rfl := Option.some.inj hstep
    apply sound_of_unlock h.sound rfl .reader (.inl hreader)
    intro u
    cases u <;> simp [Inside]
  · next hreader =>
    obtain rfl := Option.some.inj hstep
    refine sound_of_same h.sound rfl fun u => ?_
    cases outcome <;> cases u <;> simp [Inside, hreader]
  · next hreader =>
    split_ifs at hstep with hmut
    obtain rfl := Option.some.inj hstep
    apply sound_of_lock h.sound (by simpa using hmut) rfl .reader
    intro u
    cases u <;> simp [Inside, hreader]
  · next hreader =>
    obtain rfl := Option.some.inj hstep
    apply sound_of_unlock h.sound rfl .reader (.inr hreader)
    intro u
    cases u <;> simp [Inside]
  · next hreader =>
    obtain rfl := Option.some.inj hstep
    exact sound_of_same h.sound rfl fun u => by cases u <;> simp [Inside, hreader]

theorem Inv.processor (h : Inv s) (hstep : step s .processor = some t) :
    (mutexOf t).Sound := by
  simp only [Mutex.step] at hstep
  split at hstep
  · exact absurd hstep (by simp)
  · next hprocessor =>
    obtain rfl := Option.some.inj hstep
    refine sound_of_same h.sound rfl fun u => ?_
    cases hflag : s.modbusDataChange <;> cases u <;> simp [Inside, hprocessor]
  · next hprocessor =>
    split_ifs at hstep with hmut
    obtain rfl := Option.some.inj hstep
    apply sound_of_lock h.sound (by simpa using hmut) rfl .processor
    intro u
    cases u <;> simp [Inside, hprocessor]
  · next hprocessor =>
    obtain rfl := Option.some.inj hstep
    exact sound_of_same h.sound rfl fun u => by cases u <;> simp [Inside, hprocessor]
  · next hprocessor =>
    obtain rfl := Option.some.inj hstep
    exact sound_of_same h.sound rfl fun u => by cases u <;> simp [Inside, hprocessor]
  · next hprocessor =>
    obtain rfl := Option.some.inj hstep
    apply sound_of_unlock h.sound rfl .processor (.inr (.inr hprocessor))
    intro u
    cases u <;> simp [Inside]

theorem Inv.tcp (h : Inv s) {outcome : Bool} (hstep : step s (.tcp outcome) = some t) :
    (mutexOf t).Sound := by
  simp only [Mutex.step] at hstep
  split at hstep
  · exact absurd hstep (by simp)
  · next htcp =>
    obtain rfl := Option.some.inj hstep
    refine sound_of_same h.sound rfl fun u => ?_
    cases outcome <;> cases u <;> simp [Inside, htcp]
  · next htcp =>
    split_ifs at hstep with hmut
    obtain rfl := Option.some.inj hstep
    apply sound_of_lock h.sound (by simpa using hmut) rfl .tcp
    intro u
    cases u <;> simp [Inside, htcp]
  · next htcp =>
    obtain rfl := Option.some.inj hstep
    exact sound_of_same h.sound rfl fun u => by cases u <;> simp [Inside, htcp]
  · next sent htcp =>
    obtain rfl := Option.some.inj hstep
    -- whether or not the packet was sent
    have hinside : Inside s .tcp := by
      cases sent
      · exact .inr (.inr htcp)
      · exact .inr (.inl htcp)
    apply sound_of_unlock h.sound rfl .tcp hinside
    intro u
    cases sent <;> cases u <;> simp [Inside]

/-- Every step that meets the condition keeps the invariant. -/
theorem Inv.step (h : Inv s) (hok : QuietInit s e) (hstep : step s e = some t) : Inv t := by
  refine ⟨h.created.step hstep, ?_⟩
  cases e with
  | main => exact h.main hstep
  | modbus => exact h.modbus hok hstep
  | reader outcome => exact h.reader hstep
  | processor => exact h.processor hstep
  | tcp outcome => exact h.tcp hstep

end Steps

/-- **Mutual exclusion.** In every run in which the second initialisation of the mutex does not
come while the TCP thread holds it, no two threads are ever inside at once; in particular no
packet is sent while the processor copies into it. -/
theorem exclusive_of_quietInit {es : List Event} {s : State}
    (h : machine.Exec QuietInit machine.init es s) :
    Exclusive s ∧ ¬ (s.tcp = .send ∧ s.processor = .copy) := by
  have hinv : Inv s := h.invariant inv_init fun _ _ _ hinv hok hstep => hinv.step hok hstep
  refine ⟨hinv.exclusive, fun ⟨hsend, hcopy⟩ => ?_⟩
  have hsame : Thread.tcp = Thread.processor :=
    hinv.exclusive _ _ (.inl hsend) (.inr (.inl hcopy))
  exact absurd hsame (by decide)

/-- The second initialisation comes before the first packet. -/
theorem exclusive_of_early_init :
    ∃ s, (machine.restrict QuietInit).run machine.init
        [.main, .main, .main, .tcp true, .modbus, .modbus, .tcp true] = some s ∧ Exclusive s := by
  refine ⟨_, rfl, (exclusive_of_quietInit (Machine.exec_of_run_restrict
    (show (machine.restrict QuietInit).run machine.init
      [.main, .main, .main, .tcp true, .modbus, .modbus, .tcp true] = some _ from rfl))).1⟩

/-- Nothing less than the condition will do: if the TCP thread holds the mutex when the Modbus
thread initialises it, the reader can join it inside. -/
theorem not_exclusive_of_loud_init {s : State} (hinit : s.modbus = .init)
    (hinside : Inside s .tcp) :
    ∃ t, machine.run s [.modbus, .modbus, .reader true, .reader true] = some t ∧
      ¬ Exclusive t := by
  have hrun : machine.run s [.modbus, .modbus, .reader true, .reader true] = some { s with
      mutLocked := true, modbus := .createProcessor, reader := .readFirst } := by
    simp [machine, Machine.run_cons, step, hinit]
  refine ⟨_, hrun, fun hexclusive => ?_⟩
  have hsame : Thread.tcp = Thread.reader := hexclusive _ _ hinside (.inl rfl)
  exact absurd hsame (by decide)

/-- The TCP thread connects and starts to send before the serial port is open. The second
initialisation frees the mutex, a message comes in, and the processor copies it into the
packet while it is being sent. -/
theorem send_during_copy :
    ∃ s, machine.run machine.init
        [.main, .main, .main, .tcp true, .tcp true, .modbus, .modbus, .modbus, .reader true,
          .reader true, .reader true, .reader false, .reader true, .modbus, .processor, .processor,
          .processor] = some s ∧
      ¬ Exclusive s ∧ s.tcp = .send ∧ s.processor = .copy := by
  refine ⟨_, rfl, fun hexclusive => ?_, rfl, rfl⟩
  have hsame : Thread.tcp = Thread.processor :=
    hexclusive _ _ (.inl rfl) (.inr (.inl rfl))
  exact absurd hsame (by decide)

end FanGateway.Arm.Mutex
